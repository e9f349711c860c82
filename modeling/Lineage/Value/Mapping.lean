import Lineage.Fault
import Lineage.Text.Quoted
import Lineage.Value.Key
import Lineage.Value.Literal

namespace Lineage.Value

/-- The values that a value is made of one after the other: items, characters, bytes or keys. -/
def elements? : Value → Option (List Value)
  | .text s => some (s.toList.map fun c => .text c.toString)
  | .bytes data => some (data.map fun byte => .int byte.toNat)
  | .list items | .tuple items | .set items => some items
  | .map entries => some (entries.map (·.1))
  | _ => none

/-- The elements of a value that must have some. -/
def elements (v : Value) : Except Fault (List Value) :=
  match v.elements? with
  | some vs => .ok vs
  | none => .error (.notIterable v.kindName)

/-- A value that is to be the key of an entry. -/
def checkKey (v : Value) : Except Fault Unit :=
  match v.unhashable? with
  | some kind => .error (.unhashable kind)
  | none => .ok ()

/-- Puts pairs of a key and a value into a map; `index` counts the pairs. -/
def putPairs (entries : Entries Value Value) (index : Nat) :
    List Value → Except Fault (Entries Value Value)
  | [] => .ok entries
  | pair :: rest =>
    match pair.elements? with
    | some [k, v] => do
      k.checkKey
      putPairs (Entries.put entries k v) (index + 1) rest
    | some vs => .error (.notPair index vs.length)
    | none => .error (.noPair index)

/-- A value as a map: a map itself, or pairs of keys and values. -/
def toMap : Value → Except Fault Value
  | .map entries => .ok (.map entries)
  | v => do return .map (← putPairs [] 0 (← v.elements))

/-- Whether a text is part of a text. -/
def isPart (part : List Char) : List Char → Bool
  | [] => part.isEmpty
  | c :: rest => part.isPrefixOf (c :: rest) || isPart part rest

/-- Whether a name is a key, an item or a part of a value. -/
def holds (v : Value) (name : String) : Except Fault Bool :=
  match v with
  | .map entries => .ok (Entries.has entries (.text name))
  | .list items | .tuple items | .set items => .ok (items.any (· == .text name))
  | .text s => .ok (isPart name.toList s.toList)
  | .bytes _ => .error .notByte
  | v => .error (.notContainer v.kindName)

/-- The item of a list at an index, which counts from the end if it is negative. -/
def itemAt {α : Type} (items : List α) (key : Value) (noIndex beyond : Fault) : Except Fault α :=
  match key.asInt? with
  | none => .error noIndex
  | some n =>
    if n < -(Nat.pow 2 63 : Int) || (Nat.pow 2 63 : Int) ≤ n then .error .indexTooLarge
    else
      let position := if n < 0 then n + items.length else n
      match (if position < 0 then none else items[position.toNat]?) with
      | some item => .ok item
      | none => .error beyond

/-- The part of a value at a key: the value of an entry, or an item at an index. -/
def item (v key : Value) : Except Fault Value :=
  match v with
  | .map entries => do
    key.checkKey
    match Entries.get? entries key with
    | some w => return w
    | none => throw (.missingKey key.literal)
  | .text s => do
    let c ← itemAt s.toList key (.textIndex key.kindName) .beyondText
    return .text c.toString
  | .list items => itemAt items key (.itemIndex "list" key.kindName) .beyondEnd
  | .tuple items => itemAt items key (.itemIndex "tuple" key.kindName) .beyondTuple
  | .bytes data => do
    let byte ← itemAt data key (.itemIndex "byte" key.kindName) .beyondBytes
    return .int byte.toNat
  | v => .error (.noMembers v.kindName)

end Lineage.Value
