import Lineage.Value.Mapping
import Lineage.Value.Order

namespace Lineage

/-- Values under keys that have an order: the keys in that order, and the values by their keys as these
were put first. Both have the same keys. -/
structure OrderedMap where
  keys : List Value
  values : Entries Value Value
  inStep : keys.Perm (values.map (·.1))

namespace OrderedMap

/-- A map without entries. -/
def empty : OrderedMap :=
  ⟨[], [], .nil⟩

/-- How many keys there are. -/
def length (m : OrderedMap) : Nat :=
  m.keys.length

/-- The value at a key. -/
def get? (m : OrderedMap) (key : Value) : Except Fault (Option Value) := do
  key.checkKey
  return Entries.get? m.values key

/-- Whether a key is present. -/
def has (m : OrderedMap) (key : Value) : Except Fault Bool := do
  key.checkKey
  return Entries.has m.values key

/-- How many keys a key is not below. -/
def placeAbove (m : OrderedMap) (key : Value) : Except Fault Nat :=
  bisect (fun k => return !(← key.less k)) m.keys.toArray 0 m.keys.length

/-- How many keys are below a key. -/
def placeBelow (m : OrderedMap) (key : Value) : Except Fault Nat :=
  bisect (fun k => k.less key) m.keys.toArray 0 m.keys.length

/-- Inserts a value at a key: in the place of the value that is there, or else with the key behind those
that it is not below. -/
def insert (m : OrderedMap) (key value : Value) : Except Fault OrderedMap := do
  key.checkKey
  if present : Entries.has m.values key then
    return ⟨m.keys, Entries.put m.values key value, by
      rw [Entries.keys_put_of_has present]
      exact m.inStep⟩
  else
    let place ← m.placeAbove key
    return ⟨m.keys.take place ++ key :: m.keys.drop place, Entries.put m.values key value, by
      have apart := List.any_eq_false.mp ((Bool.not_eq_true _).mp present)
      rw [Entries.put_of_new fun e member => (Bool.not_eq_true _).mp (apart e member), List.map_append]
      refine List.perm_middle.trans ((List.Perm.cons key ?_).trans (List.perm_append_singleton key _).symm)
      rw [List.take_append_drop]
      exact m.inStep⟩

/-- The entry of a key that is among those of the map. One that is not equal to itself finds another
such key. -/
def entryOf (m : OrderedMap) (key : Value) : Except Fault (Value × Value) :=
  match m.values.find? fun e => e.1 == key || !(e.1 == e.1) && !(key == key) with
  | some e => .ok (key, e.2)
  | none => .error (.missingKey key.literal)

/-- The entries in the order of their keys. -/
def items (m : OrderedMap) : Except Fault (List (Value × Value)) :=
  m.keys.mapM m.entryOf

/-- The entry with the greatest key below a key. -/
def lower? (m : OrderedMap) (key : Value) : Except Fault (Option (Value × Value)) := do
  match ← m.placeBelow key with
  | 0 => return none
  | place + 1 => m.keys[place]?.mapM m.entryOf

/-- The entry with the least key above a key. -/
def upper? (m : OrderedMap) (key : Value) : Except Fault (Option (Value × Value)) := do
  m.keys[← m.placeAbove key]?.mapM m.entryOf

/-- The values next to a key on both sides. -/
def neighbors (m : OrderedMap) (key : Value) : Except Fault (Option Value × Option Value) := do
  let low ← m.lower? key
  let high ← m.upper? key
  return (low.map (·.2), high.map (·.2))

end OrderedMap

end Lineage
