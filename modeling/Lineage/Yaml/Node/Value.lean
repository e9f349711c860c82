import Lineage.Yaml.Scalar

namespace Lineage.Yaml

/-- What a node stands for: a value, or a collection of what other nodes stand for. The word for what
is not a number stands for the same value everywhere. -/
inductive Meaning where
  | value (v : Value)
  | notNumber
  | list (items : List Nat)
  | pairs (entries : List (Nat × Nat))
  | set (members : List Nat)
  | map (entries : List (Nat × Nat))
  deriving Repr

namespace Meaning

/-- Whether a meaning is a value that can be a key. -/
def isKey : Meaning → Bool
  | .value _ | .notNumber => true
  | _ => false

end Meaning

/-- A key of a map, with the place of its node. -/
structure Key where
  place : Nat
  meaning : Meaning
  deriving Repr

/-- Whether two keys are the same: keys of one node, or of the same value. -/
def Key.same (k l : Key) : Bool :=
  k.place == l.place ||
    match k.meaning, l.meaning with
    | .value v, .value w => v == w
    | .notNumber, .notNumber => true
    | _, _ => false

instance : BEq Key := ⟨Key.same⟩

/-- A document whose values are made: its nodes, a bound for the steps in which one of them is merged,
what they stand for as far as that is begun, and in reverse the collections whose contents are still
to be made. -/
structure Making where
  nodes : Array Node
  reach : Nat
  meanings : Array (Option Meaning)
  begun : List Nat

/-- A step in which values are made. -/
abbrev Make := StateT Making (Except Refusal)

namespace Make

/-- The node at a place. -/
def node (place : Nat) : Make Node := do
  match (← get).nodes[place]? with
  | some n => return n
  | none => throw .malformed

/-- The entries of the mapping at a place. -/
def entries (place : Nat) : Make (List (Nat × Nat)) := do
  match (← node place).content with
  | .mapping es => return es
  | _ => throw .malformed

/-- The tag of the node at a place. -/
def tag (place : Nat) : Make Tag := do
  return (← node place).tag

/-- Changes the entries of the mapping at a place. -/
def setEntries (place : Nat) (es : List (Nat × Nat)) : Make Unit :=
  modify fun s =>
    { s with nodes := s.nodes.modify place fun n => { n with content := .mapping es } }

/-- Notes what a node stands for. -/
def setMeaning (place : Nat) (m : Meaning) : Make Unit :=
  modify fun s => { s with meanings := s.meanings.setIfInBounds place (some m) }

/-- What a node stands for, if that is begun. -/
def meaning? (place : Nat) : Make (Option Meaning) := do
  return (← get).meanings[place]?.join

/-- The first entry of which the key has a tag, and the other entries. -/
def takeTagged? (wanted : Tag) : List (Nat × Nat) → Make (Option (Nat × List (Nat × Nat)))
  | [] => return none
  | (key, value) :: rest => do
    if (← tag key) == wanted then return some (value, rest)
    return (← takeTagged? wanted rest).map fun (found, others) => (found, (key, value) :: others)

/-- The text of a node: the content of a scalar, or of the default value of a mapping, which cannot
be the mapping itself. -/
def text : Nat → Nat → Make String
  | 0, _ => throw (.fault (.tooDeep ""))
  | fuel + 1, place => do
    match (← node place).content with
    | .scalar content => return content
    | .sequence _ => throw .malformed
    | .mapping es =>
      match ← takeTagged? .default es with
      | some (value, _) => text fuel value
      | none => throw .malformed

mutual

/-- Puts the entries that a mapping merges in front of its own. -/
def flatten : Nat → Nat → Make Unit
  | 0, _ => throw .malformed
  | fuel + 1, place => do
    let merged ← merge place fuel
    setEntries place (merged ++ (← entries place))

/-- Takes the merges out of a mapping one after the other, and gives what they merge. -/
def merge (place : Nat) : Nat → Make (List (Nat × Nat))
  | 0 => throw .malformed
  | fuel + 1 => do
    match ← takeTagged? .merge (← entries place) with
    | none => return []
    | some (value, others) =>
      setEntries place others
      let parts ← match (← node value).content with
        | .mapping _ => mergeParts [value] fuel
        | .sequence items => mergeParts items fuel
        | .scalar _ => throw .malformed
      return parts.reverse.flatten ++ (← merge place fuel)

/-- The entries of mappings that are merged. -/
def mergeParts : List Nat → Nat → Make (List (List (Nat × Nat)))
  | _, 0 => throw .malformed
  | [], _ + 1 => return []
  | place :: rest, fuel + 1 => do
    let _ ← entries place
    flatten fuel place
    let part ← entries place
    return part :: (← mergeParts rest fuel)

end

/-- Marks the default keys of entries as texts. -/
def settleDefaults (es : List (Nat × Nat)) : Make Unit :=
  es.forM fun (key, _) => do
    if (← tag key) == .default then
      modify fun s => { s with nodes := s.nodes.modify key fun n => { n with tag := .text } }

/-- What a scalar stands for, or a collection that takes the place of one. -/
def scalar (place : Nat) : Make Meaning := do
  let n ← node place
  if !n.tag.isScalar then throw .malformed
  let content ← text ((← get).nodes.size + 1) place
  match n.tag, n.content with
  | .timestamp, .mapping _ => throw (.fault .noTimestampText)
  | .float, _ =>
    if isNotNumber content then return .notNumber
    else .value <$> (scalarValue .float content : Except Refusal Value)
  | tag, _ => .value <$> (scalarValue tag content : Except Refusal Value)

/-- Begins the value of a node, unless it is begun already: a scalar is read at once, and what a
collection holds is made in the next round. -/
def begin (place : Nat) : Make Unit := do
  if (← meaning? place).isSome then return
  if (← tag place).isCollection then
    setMeaning place (.list [])
    modify fun s => { s with begun := place :: s.begun }
  else setMeaning place (← scalar place)

/-- Makes the entries of a map. -/
def mapEntries (place : Nat) : Make (List (Nat × Nat)) := do
  flatten (← get).reach place
  let es ← entries place
  settleDefaults es
  let made ← es.mapM fun (key, value) => do
    begin key
    match ← meaning? key with
    | some m =>
      if !m.isKey then throw .malformed
      begin value
      return ((⟨key, m⟩ : Key), value)
    | none => throw .malformed
  return (Entries.ofList made).map fun (key, value) => (key.place, value)

/-- Makes a mapping of a single entry as a pair. -/
def pair (place : Nat) : Make (Nat × Nat) := do
  match ← entries place with
  | [(key, value)] =>
    begin key
    begin value
    return (key, value)
  | _ => throw .malformed

/-- Makes what a collection holds. -/
def fill (place : Nat) : Make Unit := do
  let n ← node place
  let m ← match n.tag, n.content with
    | .sequence, .sequence items => do
      items.forM begin
      pure (Meaning.list items)
    | .omap, .sequence items | .pairs, .sequence items => Meaning.pairs <$> items.mapM pair
    | .mapping, .mapping _ => Meaning.map <$> mapEntries place
    | .set, .mapping _ => do pure (Meaning.set ((← mapEntries place).map (·.1)))
    | _, _ => throw .malformed
  setMeaning place m

/-- Fills the collections that were begun, round by round. -/
def rounds : Nat → Make Unit
  | 0 => return
  | fuel + 1 => do
    let begun := (← get).begun.reverse
    if begun.isEmpty then return
    modify fun s => { s with begun := [] }
    begun.forM fill
    rounds fuel

end Make

/-- The number of nodes with all the places in them. -/
def Graph.size (g : Graph) : Nat :=
  g.nodes.foldl (fun n node =>
    match node.content with
    | .scalar _ => n + 1
    | .sequence items => n + items.length + 1
    | .mapping entries => n + entries.length + 1) 1

/-- The values that were read last at the places of a document, with the depth at which they stand. -/
abbrev Known := Array (Option (Nat × Value))

/-- The value at a place, in which nodes stand at most at the given depth. -/
def valueAt (meanings : Array (Option Meaning)) : (depth : Nat) → Nat → StateM Known Value
  | 0, _ => return .null
  | depth + 1, place => do
    match (← get)[place]?.join with
    | some (known, v) => if known == depth then return v
    | none => pure ()
    let inner := valueAt meanings depth
    let v ← match meanings[place]?.join with
      | some (.value v) => pure v
      | some .notNumber => pure (.float (0.0 / 0.0))
      | some (.list items) => .list <$> items.mapM inner
      | some (.pairs es) => .list <$> es.mapM fun (key, value) => do
        return .tuple [← inner key, ← inner value]
      | some (.set members) => .set <$> members.mapM inner
      | some (.map es) => .map <$> es.mapM fun (key, value) => do
        return (← inner key, ← inner value)
      | none => pure .null
    modify fun known => known.setIfInBounds place (some (depth, v))
    return v

/-- The value of a document. A collection that holds itself has no end, and is cut off. -/
def Graph.toValue (g : Graph) : Except Refusal Value := do
  let count := g.nodes.size
  let start : Making := ⟨g.nodes, g.size * g.size, Array.replicate count none, []⟩
  let make := do
    Make.begin g.root
    Make.rounds (count + 1)
  let (_, made) ← make.run start
  return ((valueAt made.meanings (count + 1) g.root).run (Array.replicate count none)).1

end Lineage.Yaml
