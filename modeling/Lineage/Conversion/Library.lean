import Lineage.Failure
import Lineage.Json.Writer
import Lineage.Text.Cut
import Lineage.Value.Coerce
import Lineage.Value.Mapping

namespace Lineage

/-- Why a function has no result: it refuses to convert, or it fails. -/
inductive CallFault where
  | refused (message : String) (status : Int)
  | fault (cause : Fault)
  deriving DecidableEq, Repr

/-- A function that conversions call. -/
abbrev Function := List Value → Except CallFault Value

/-- What an import finds under the name of a module and that of a member of it: a function, something
that cannot be called, or nothing. It may also end otherwise, as modules run when they are imported. -/
inductive Import where
  | function (f : Function)
  | other
  | missing (cause : ImportFault)
  | raised (cause : Fault)

/-- Everything that can be imported. -/
abbrev Library := (module member : String) → Import

namespace Library

/-- A function of at most one argument. -/
def unary (name : String) (absent : Value) (f : Value → Except Fault Value) : Function
  | [] => .ok absent
  | [v] => (f v).mapError .fault
  | vs => .error (.fault (.argumentCount name vs.length))

/-- A function of exactly one argument. -/
def exactly (name : String) (f : Value → Except Fault Value) : Function
  | [v] => (f v).mapError .fault
  | vs => .error (.fault (.argumentCount name vs.length))

/-- The function that makes integers, also from texts in a base. -/
def integer : Function
  | [] => .ok (.int 0)
  | [v] => v.toInteger.mapError .fault
  | [v, base] => (v.toIntegerIn base).mapError .fault
  | vs => .error (.fault (.argumentCount "int" vs.length))

/-- The function that makes texts, also from byte strings by the names of an encoding and of a
repair. -/
def text : Function
  | [] => .ok (.text "")
  | [v] => v.toText.mapError .fault
  | [v, encoding] => (v.toTextIn encoding (.text "strict")).mapError .fault
  | [v, encoding, repair] => (v.toTextIn encoding repair).mapError .fault
  | vs => .error (.fault (.argumentCount "str" vs.length))

/-- The functions that make values of the basic types, and the length of a value. -/
def basics : List (String × Function) :=
  [("int", integer), ("str", text),
    ("float", unary "float" (.float 0) Value.toReal),
    ("bool", unary "bool" (.bool false) fun v => .ok v.toTruth),
    ("dict", unary "dict" (.map []) Value.toMap),
    ("len", exactly "len" fun v => v.length.map fun n => .int n)]

/-- The functions of the JSON module. -/
def json : List (String × Function) :=
  [("dumps", exactly "dumps" fun v => (Json.write v).map .text)]

/-- A module: its functions, and whether it has modules inside. -/
structure Module where
  functions : List (String × Function)
  isPackage : Bool

/-- The module of a name. -/
def module? (name : String) : Option Module :=
  if name == "builtins" then some ⟨basics, false⟩
  else if name == "json" then some ⟨json, true⟩
  else none

/-- The first part of a dotted name that is no module; `around` are the parts before. -/
def firstMissing (around : List String) : List (List Char) → Option ImportFault
  | [] => none
  | part :: rest =>
    let path := around ++ [String.ofList part]
    let name := String.intercalate "." path
    let parent := String.intercalate "." around
    if (module? name).isSome then firstMissing path rest
    else if around.isEmpty || (module? parent).any (·.isPackage) then some (.noModule name)
    else some (.notPackage name parent)

/-- Why there is no module of a name: the first of the modules around it that is missing, or that has
no modules inside. -/
def missing (name : String) : ImportFault :=
  (firstMissing [] (Text.pieces '.' name.toList)).getD (.noModule name)

/-- The functions that come with the interpreter, as far as they are used. -/
def standard : Library := fun module member =>
  match module? module with
  | none => .missing (missing module)
  | some m =>
    match m.functions.lookup member with
    | some f => .function f
    | none => if member == "__name__" then .other else .missing (.noMember module member)

end Library

end Lineage
