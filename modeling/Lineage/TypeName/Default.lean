import Lineage.TypeName
import Lineage.Text.LowerCase
import Lineage.Value

namespace Lineage.TypeName

/-- A text without the places where a part occurs, sought from left to right; `skip` characters
belong to the place before. -/
def erasing (part : List Char) (skip : Nat) : List Char → List Char
  | [] => []
  | c :: rest =>
    if 0 < skip then erasing part (skip - 1) rest
    else if !part.isEmpty && part.isPrefixOf (c :: rest) then erasing part (part.length - 1) rest
    else c :: erasing part 0 rest

/-- The empty or zero value of a type by its name in small letters. -/
def emptyValue (name : String) : Value :=
  if name == "list" || name == "sequence" then .list []
  else if name == "dict" || name == "mapping" then .map []
  else if name == "str" then .text ""
  else if name == "int" then .int 0
  else if name == "float" then .float 0
  else if name == "bool" then .bool false
  else if name == "bytes" then .bytes []
  else if name == "set" then .set []
  else if name == "tuple" then .tuple []
  else .null

/-- Whether a type says that null is a value. -/
def allowsNone (cs : List Char) : Bool :=
  "Optional[".toList.isPrefixOf cs || "typing.Optional[".toList.isPrefixOf cs
    || (withoutNone? cs).isSome || cs == "Any".toList || cs == "None".toList

/-- The value that a new field of the annotated type gets if nothing else is known. -/
def defaultValue (type : Option String) : Value :=
  match type with
  | none => .null
  | some s =>
    let cs := Text.trim s.toList
    if allowsNone cs then .null
    else
      let head := Text.lower (String.ofList (cs.takeWhile (· != '[')))
      emptyValue (String.ofList (erasing "typing.".toList 0 head.toList))

end Lineage.TypeName
