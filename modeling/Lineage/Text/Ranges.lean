namespace Lineage.Text

/-- A class of characters, given by the closed ranges of its code points. -/
abbrev Ranges := List (Nat × Nat)

/-- Whether a character lies in one of the ranges. -/
def Ranges.has (ranges : Ranges) (c : Char) : Bool :=
  ranges.any fun (low, high) => low ≤ c.toNat && c.toNat ≤ high

/-- A run of code points, every `step`-th from `first` to `last`, that one case mapping moves by the
same distance. -/
structure CaseRun where
  first : Nat
  last : Nat
  step : Nat
  offset : Int

/-- Whether the run moves a code point. -/
def CaseRun.has (run : CaseRun) (code : Nat) : Bool :=
  run.first ≤ code && code ≤ run.last && (code - run.first) % run.step == 0

/-- The runs of a table that is written as quadruples. -/
def caseRuns (table : List (Nat × Nat × Nat × Int)) : List CaseRun :=
  table.map fun (first, last, step, offset) => ⟨first, last, step, offset⟩

/-- The image of a code point under the first run that moves it. -/
def mapCode (runs : List CaseRun) (code : Nat) : Nat :=
  match runs.find? (·.has code) with
  | some run => (code + run.offset).toNat
  | none => code

end Lineage.Text
