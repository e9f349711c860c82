import Lineage.TypeName
import Lineage.Fault
import Lineage.Schema

namespace Lineage.TypeName

/-- The type of single values of a name. -/
def scalar? (name : String) : Option Scalar :=
  if name == "str" then some .string
  else if name == "int" then some .integer
  else if name == "float" then some .number
  else if name == "bool" then some .boolean
  else if name == "bytes" then some .binary
  else if name == "datetime" then some .moment
  else if name == "date" then some .day
  else none

/-- The schema of a type without arguments. -/
def plainSchema (name : String) : Schema :=
  match scalar? name with
  | some s => .scalar s
  | none => if name == "list" || name == "List" then .array .any else .record

/-- The names of the types of lists and sets. -/
def arrays : List String :=
  ["List", "list", "Sequence", "Set", "set", "Tuple", "tuple"]

/-- The names of the types of mappings. -/
def mappings : List String :=
  ["Dict", "dict", "Mapping"]

/-- The schema of the values that a type allows. A type that is generic over a list of
blanks has no argument to take it from. -/
def schemaOf (cs : List Char) : Except Fault Schema :=
  let t := Text.trim cs
  if cs.isEmpty || t == "Any".toList || t == "object".toList then .ok .any
  else
    match _orNone : withoutNone? t with
    | some inner => (schemaOf inner).map .nullable
    | none =>
      match _found : generic? t with
      | none => .ok (plainSchema (String.ofList t))
      | some (head, inner) =>
        let name := String.ofList head
        match _args : arguments inner with
        | [] =>
          if name == "Optional" || arrays.contains name then .error .beyondEnd else .ok .record
        | first :: rest =>
          if name == "Optional" then (schemaOf first).map .nullable
          else if arrays.contains name then (schemaOf first).map .array
          else if mappings.contains name then
            match rest with
            | [second] => (schemaOf second).map .mapping
            | _ => .ok .record
          else .ok .record
termination_by cs.length
decreasing_by
  · exact Nat.lt_of_lt_of_le (length_lt_of_withoutNone? _orNone) (Text.length_trim_le cs)
  all_goals
    refine Nat.lt_of_le_of_lt (length_le_of_mem_arguments ?_)
      (Nat.lt_of_lt_of_le (length_lt_of_generic? _found) (Text.length_trim_le cs))
    simp [_args]

/-- The schema of a type that may be missing. -/
def schema (type : Option String) : Except Fault Schema :=
  schemaOf (type.getD "").toList

end Lineage.TypeName
