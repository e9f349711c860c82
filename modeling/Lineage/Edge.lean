import Lineage.Definition

namespace Lineage

/-- The ways between two versions that follow each other. -/
inductive Direction where
  | upgrade
  | downgrade
  deriving DecidableEq, Repr

/-- The name of a direction. -/
def Direction.name : Direction → String
  | .upgrade => "upgrade"
  | .downgrade => "downgrade"

/-- The direction of a name. -/
def Direction.ofName? (name : String) : Option Direction :=
  if name = "upgrade" then some .upgrade
  else if name = "downgrade" then some .downgrade
  else none

/-- How a field of the target version gets its value. -/
inductive FieldStep where
  | copy (item source target : String)
  | default (item target : String) (type supplier : Option String) (value : Option Value)
  | apply (item source target function : String)
  | nested (item source target : String) (fromType toType : Option String) (hint : Option Hint)
  deriving Repr

/-- How a variant of the source version is carried over to the target version. -/
inductive VariantStep where
  | keep (item source target : String) (function fromType toType : Option String) (nested : Bool)
  | fallback (item source target : String)
  deriving Repr

/-- A field of the source version for which the target version has no place. -/
structure Dropped where
  item : String
  source : String
  deriving DecidableEq, Repr

/-- What a conversion between two versions does. -/
inductive Steps where
  | fields (steps : List FieldStep) (dropped : List Dropped)
  | variants (steps : List VariantStep)
  deriving Repr

/-- The conversion of a container from one version to the next or the previous one. -/
structure Edge where
  container : String
  source : Release
  target : Release
  direction : Direction
  steps : Steps
  deriving Repr

/-- The path of a dropped field. -/
def Dropped.path (d : Dropped) : String :=
  "." ++ d.item

/-- A dropped field as data. -/
def Dropped.toValue (d : Dropped) : Value :=
  .object [("item", .text d.item), ("source", .text d.source), ("json_path", .text d.path)]

namespace FieldStep

/-- The field of the target version. -/
def target : FieldStep → String
  | copy _ _ target | default _ target _ _ _ | apply _ _ target _ | nested _ _ target _ _ _ => target

/-- The function that the step calls. -/
def function? : FieldStep → Option String
  | default _ _ _ supplier _ => filled? supplier
  | apply _ _ _ function => filled? (some function)
  | _ => none

/-- A step as data. -/
def toValue : FieldStep → Value
  | copy item source target =>
    .object [("kind", .text "copy"), ("item", .text item), ("source", .text source),
      ("target", .text target)]
  | default item target type supplier value =>
    .object [("kind", .text "default"), ("item", .text item), ("target", .text target),
      ("type", .ofText? type), ("supplier", .ofText? supplier),
      ("value", value.getD .null), ("has_value", .bool value.isSome)]
  | apply item source target function =>
    .object [("kind", .text "function"), ("item", .text item), ("source", .text source),
      ("target", .text target), ("function", .text function)]
  | nested item source target fromType toType hint =>
    .object [("kind", .text "nested"), ("item", .text item), ("source", .text source),
      ("target", .text target), ("from_type", .ofText? fromType),
      ("to_type", .ofText? toType), ("hint", .ofText? (hint.map Hint.name))]

end FieldStep

namespace VariantStep

/-- The variant of the source version. -/
def source : VariantStep → String
  | keep _ source _ _ _ _ _ | fallback _ source _ => source

/-- The variant of the target version. -/
def target : VariantStep → String
  | keep _ _ target _ _ _ _ | fallback _ _ target => target

/-- The function that the step calls. -/
def function? : VariantStep → Option String
  | keep _ _ _ function _ _ _ => filled? function
  | fallback _ _ _ => none

/-- Whether the payload of the variant is converted, none where there is no payload to carry. -/
def convertsPayload? : VariantStep → Option Bool
  | keep _ _ _ function fromType toType nested =>
    some (function.isSome || nested || fromType != toType)
  | fallback _ _ _ => none

/-- A step as data. -/
def toValue : VariantStep → Value
  | keep item source target function fromType toType nested =>
    .object [("kind", .text "variant"), ("item", .text item), ("source", .text source),
      ("target", .text target), ("function", .ofText? function),
      ("from_type", .ofText? fromType), ("to_type", .ofText? toType),
      ("nested", .bool nested)]
  | fallback item source target =>
    .object [("kind", .text "variant_fallback"), ("item", .text item), ("source", .text source),
      ("target", .text target)]

end VariantStep

namespace Steps

/-- The kind of the containers that the steps convert. -/
def kind : Steps → Kind
  | fields _ _ => .struct
  | variants _ => .enum

/-- The functions that the steps call, in their order. -/
def functions : Steps → List String
  | fields steps _ => steps.filterMap FieldStep.function?
  | variants steps => steps.filterMap VariantStep.function?

/-- The steps as data. -/
def toValues : Steps → List Value
  | fields steps _ => steps.map FieldStep.toValue
  | variants steps => steps.map VariantStep.toValue

/-- The fields that are dropped. -/
def dropped : Steps → List Dropped
  | fields _ dropped => dropped
  | variants _ => []

end Steps

namespace Edge

/-- Whether the edge leads from one version to another. -/
def connects (e : Edge) (source target : String) : Bool :=
  e.source.name == source && e.target.name == target

/-- The name of the function that does the conversion. -/
def functionName (e : Edge) : String :=
  s!"{e.direction.name}_{e.source.name}_to_{e.target.name}"

/-- An edge as data. -/
def toValue (e : Edge) : Value :=
  .object [("container", .text e.container), ("kind", .text e.steps.kind.name),
    ("source", .text e.source.name), ("target", .text e.target.name),
    ("direction", .text e.direction.name), ("expressions", .list e.steps.toValues),
    ("dropped", .list (e.steps.dropped.map Dropped.toValue))]

end Edge

end Lineage
