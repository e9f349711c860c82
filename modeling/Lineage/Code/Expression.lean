import Lineage.TypeName.Default
import Lineage.Code.Imports
import Lineage.Edge
import Lineage.Value.Literal

namespace Lineage.Code

/-- Text of code, together with the imports that it needs. -/
abbrev Coding := StateT Imports (Except Fault)

/-- The alias of a function. -/
def functionAlias (dotted : String) : Coding String :=
  modifyGet (Imports.function dotted)

/-- The literal of a value, unless it holds an integer with too many digits. -/
def literal (v : Value) : Except Fault String :=
  if v.isTooLong then .error .digitsWritten else .ok v.literal

/-- The types whose constructors convert any value. -/
def primitives : List String :=
  ["str", "int", "float", "bool"]

/-- The literal of the name of a type that may be missing. -/
def typeLiteral (type : Option String) : String :=
  (type.map Text.quoted).getD "None"

/-- The conversion of a value from one type to another: none for primitive types, by the module of
the container that the type names, by a constructor, or by a converter. -/
def convertedText (source : String) (fromType toType : Option String) (functionName : String) :
    Coding String := do
  let old := fromType.map TypeName.base
  let new := toType.map TypeName.base
  if new.any primitives.contains then
    let name := new.getD ""
    return if old = new then source else s!"{name}({source})"
  else if old = new then
    let called ← modifyGet (Imports.container (new.getD ""))
    return s!"{called}.{functionName}({source})"
  else
    modify Imports.converting
    return s!"_convert({source}, {typeLiteral old}, {typeLiteral new})"

/-- The value of a field of the target version. -/
def fieldText (functionName : String) : FieldStep → Coding String
  | .default _ _ type supplier value =>
    match filled? supplier with
    | some f => do
      let called ← functionAlias f
      return s!"{called}()"
    | none => literal (value.getD (TypeName.defaultValue type))
  | .copy _ source _ => return "value." ++ source
  | .apply _ source _ function => do
    let called ← functionAlias function
    return s!"{called}(value.{source})"
  | .nested _ source _ fromType toType hint => do
    let field := "value." ++ source
    match hint with
    | some .list =>
      let inner ← convertedText "v" fromType toType functionName
      return s!"[{inner} for v in {field}]"
    | some .option =>
      let inner ← convertedText field fromType toType functionName
      return if inner == field then inner else s!"None if {field} is None else {inner}"
    | none => convertedText field fromType toType functionName

/-- A branch of the conversion of an enum. -/
structure Branch where
  test : String
  result : String
  comment : String
  deriving DecidableEq, Repr

/-- The payload of a variant of the target version. -/
def payloadText (functionName : String) (function fromType toType : Option String) (nested : Bool) :
    Coding String :=
  match filled? function with
  | some f => do
    let called ← functionAlias f
    return s!"{called}(payload)"
  | none =>
    if nested || fromType != toType then convertedText "payload" fromType toType functionName
    else return "payload"

/-- The branch of a variant. -/
def branch (functionName : String) (source target : Definition) (s : VariantStep) : Coding Branch := do
  let test := s!"variant is {source.className}.{s.source}"
  let bare := s!"{target.className}.{s.target}"
  match s with
  | .fallback _ variant _ =>
    return ⟨test, bare, s!"{variant} has no {target.release.name} counterpart"⟩
  | .keep _ variant _ function fromType toType nested =>
    if ((source.member? variant).bind (·.type)).isNone then return ⟨test, bare, ""⟩
    else
      let payload ← payloadText functionName function fromType toType nested
      return ⟨test, s!"({bare}, {payload})", ""⟩

end Lineage.Code
