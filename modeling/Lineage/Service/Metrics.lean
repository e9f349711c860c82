import Lineage.Conversion.Run

namespace Lineage.Service

/-- What the service counts: answered requests by method, path and status, generations by kind and
outcome, applied edges by direction, and checks of its health by name. -/
structure Metrics where
  requests : Entries (String × String × Nat) Nat
  generations : Entries (Kind × Outcome) Nat
  conversions : Entries Direction Nat
  checks : Entries String Nat
  deriving Repr

namespace Metrics

/-- Nothing was counted yet. -/
def zero : Metrics :=
  ⟨[], [], [], []⟩

/-- Counts a key a number of times. Zero times leave no trace. -/
def tally {α : Type} [BEq α] (counts : Entries α Nat) (key : α) (times : Nat) : Entries α Nat :=
  if times = 0 then counts else counts.put key ((counts.get? key).getD 0 + times)

/-- Counts a request that was answered. -/
def request (m : Metrics) (method path : String) (status : Nat) : Metrics :=
  { m with requests := tally m.requests (method, path, status) 1 }

/-- Counts a generation by its outcome. -/
def generation (m : Metrics) (kind : Kind) (outcome : Outcome) : Metrics :=
  { m with generations := tally m.generations (kind, outcome) 1 }

/-- Counts the edges that a conversion applied. -/
def conversion (m : Metrics) (p : Progress) : Metrics :=
  { m with conversions := tally (tally m.conversions .upgrade p.upgrades) .downgrade p.downgrades }

/-- Counts a check of the health of the service. -/
def check (m : Metrics) (name : String) : Metrics :=
  { m with checks := tally m.checks name 1 }

/-- Counts by coarser keys. -/
def regroup {α : Type} (counts : Entries α Nat) (keys : α → List String) : Entries String Nat :=
  counts.foldl (fun acc (key, n) => (keys key).foldl (fun acc name => tally acc name n) acc) []

/-- The counts of requests: of all, by method, and by path and status. -/
def requestCounts (m : Metrics) : Entries String Nat :=
  regroup m.requests fun (method, path, status) =>
    ["requests_total", s!"requests_{method}", s!"path_{path}|{status}"]

/-- The other counts by their names. -/
def namedCounts (m : Metrics) : Entries String Nat :=
  m.checks ++ regroup m.generations (fun (_, outcome) => [s!"containers_{outcome.name}"])
    ++ regroup m.conversions fun direction => [s!"conversions_{direction.name}"]

/-- Counts as data. -/
def countsValue (counts : Entries String Nat) : List (String × Value) :=
  counts.map fun (name, n) => (name, .int n)

/-- All counts as data. -/
def snapshot (m : Metrics) : Value :=
  let requests := m.requestCounts
  let total := (requests.filter fun (name, _) => name == "requests_total")
  .object (("requests", Value.object (countsValue requests)) :: countsValue (m.namedCounts ++ total))

/-- A character in the value of a label. -/
def labelChar : Char → List Char
  | '\\' => ['\\', '\\']
  | '"' => ['\\', '"']
  | '\n' => ['\\', 'n']
  | c => [c]

/-- The name of a sample with its labels. -/
def sampleName (name : String) (labels : List (String × String)) : String :=
  let parts := labels.map fun (label, s) =>
    let literal := String.ofList (s.toList.flatMap labelChar)
    s!"{label}=\"{literal}\""
  let inner := String.intercalate "," parts
  s!"schemaevo_{name}_total\x7b{inner}\x7d"

/-- All counts by the names of samples with labels. -/
def samples (m : Metrics) : Entries String Nat :=
  (m.requests.map fun ((method, path, status), n) =>
      (sampleName "http_requests" [("method", method), ("path", path), ("status", toString status)], n))
    ++ (m.generations.map fun ((kind, outcome), n) =>
      (sampleName "containers_generated" [("kind", kind.name), ("outcome", outcome.name)], n))
    ++ m.conversions.map fun (direction, n) =>
      (sampleName "conversions" [("direction", direction.name)], n)

end Metrics

end Lineage.Service
