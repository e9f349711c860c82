namespace Lineage

/-- A calendar day. -/
structure Date where
  year : Nat
  month : Nat
  day : Nat
  deriving DecidableEq, Repr

/-- A time of a day, with the distance of its clock from universal time in seconds if that is known. -/
structure Moment where
  date : Date
  hour : Nat
  minute : Nat
  second : Nat
  microsecond : Nat
  offset : Option Int
  deriving DecidableEq, Repr

/-- The data that descriptions hold and conversions act on. The entries of a map stand in the order
in which they were written. -/
inductive Value where
  | null
  | bool (b : Bool)
  | int (n : Int)
  | float (x : Float)
  | text (s : String)
  | bytes (data : List UInt8)
  | list (items : List Value)
  | tuple (items : List Value)
  | set (items : List Value)
  | map (entries : List (Value × Value))
  | date (day : Date)
  | moment (time : Moment)
  deriving Repr

namespace Value

instance : Inhabited Value := ⟨.null⟩

/-- The name of the kind of a value in messages. -/
def kindName : Value → String
  | .null => "NoneType"
  | .bool _ => "bool"
  | .int _ => "int"
  | .float _ => "float"
  | .text _ => "str"
  | .bytes _ => "bytes"
  | .list _ => "list"
  | .tuple _ => "tuple"
  | .set _ => "set"
  | .map _ => "dict"
  | .date _ => "date"
  | .moment _ => "datetime"

/-- Whether a value counts as true: null, zeros and empty values do not. -/
def truthy : Value → Bool
  | .null => false
  | .bool b => b
  | .int n => n != 0
  | .float x => !(x == 0)
  | .text s => !s.isEmpty
  | .bytes data => !data.isEmpty
  | .list items => !items.isEmpty
  | .tuple items => !items.isEmpty
  | .set items => !items.isEmpty
  | .map entries => !entries.isEmpty
  | .date _ => true
  | .moment _ => true

/-- Whether a value can be the key of an entry: what holds a list, a set or a map cannot. -/
def unhashable? : Value → Option String
  | .list _ => some "list"
  | .set _ => some "set"
  | .map _ => some "dict"
  | .tuple items => firstUnhashable items
  | _ => none
where
  /-- The kind of the first item that cannot be a key. -/
  firstUnhashable : List Value → Option String
    | [] => none
    | v :: rest => v.unhashable? <|> firstUnhashable rest

end Value

end Lineage
