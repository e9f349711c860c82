import Lineage.TypeName.Default
import Lineage.Conversion.Functions
import Lineage.Conversion.Tracker
import Lineage.Generation
import Lineage.Room

namespace Lineage

/-- What a conversion leaves behind besides its result: the tracker, if there is one, and how many
edges were applied in each direction. -/
structure Progress where
  tracker : Option Tracker
  upgrades : Nat
  downgrades : Nat
  deriving Repr

/-- Nothing was converted yet. -/
def Progress.start (tracker : Option Tracker) : Progress :=
  ⟨tracker, 0, 0⟩

/-- The progress after one more edge. -/
def Progress.count (p : Progress) : Direction → Progress
  | .upgrade => { p with upgrades := p.upgrades + 1 }
  | .downgrade => { p with downgrades := p.downgrades + 1 }

/-- A step of a conversion. When it fails, what it did to the progress stays. -/
abbrev Run := ExceptT Failure (StateM Progress)

namespace Run

/-- A result or a failure that does not depend on the progress. -/
def ofExcept {α : Type} (r : Except Failure α) : Run α :=
  fun p => (r, p)

/-- Fails because a value is not converted. -/
def refuse {α : Type} (cause : ConversionFault) : Run α :=
  ofExcept (.error (.conversion cause))

end Run

/-- How the value of a nested type follows an edge, by the name of the type: none for types of which
there is no container. -/
abbrev Nesting := String → Option (Value → (path : String) → Run Value)

namespace Conversion

/-- The types to which values are converted if nothing else is known of them. -/
def coercion? (depths : Depths) (type : String) : Option (Value → Except Fault Value) :=
  if type == "str" then some depths.write
  else if type == "int" then some Value.toInteger
  else if type == "float" then some Value.toReal
  else if type == "bool" then some fun v => .ok v.toTruth
  else none

/-- The name of a place in messages. -/
def placeName (path : String) : String :=
  if path.isEmpty then "value" else path

/-- Calls the converter of a type. -/
def byConverter (f : Function) (source target : Option String) (path : String) (v : Value) :
    Run Value :=
  match f [v] with
  | .ok w => pure w
  | .error (.refused message status) => Run.refuse (.refused message status)
  | .error (.fault cause) =>
    Run.refuse (.converterFailed (source.getD "None") (target.getD "None") (placeName path) cause)

/-- Coerces a value to a basic type. What is too large or too deep is not a fault of the conversion. -/
def byCoercion (coerce : Value → Except Fault Value) (source target : Option String) (path : String)
    (v : Value) : Run Value :=
  match coerce v with
  | .ok w => pure w
  | .error cause =>
    match cause.family with
    | .kind | .value | .encoding =>
      Run.refuse (.uncoercible (placeName path) (source.getD "None") (target.getD "None") cause)
    | _ => Run.ofExcept (.error (.fault cause))

/-- Converts a single value of a nested type, or of a type that changes along the edge: by a
converter, along the same edge of its own container, by coercion, or not at all if the type stays
the same. Null stays null. -/
def nestedValue (depths : Depths) (functions : Functions) (nesting : Nesting) (edge : Edge)
    (fromType toType : Option String) (v : Value) (path : String) : Run Value :=
  match v with
  | .null => pure .null
  | v =>
    let source := fromType.map TypeName.base
    let target := toType.map TypeName.base
    match functions.converter? source target with
    | some f => byConverter f source target path v
    | none =>
      match if source = target then target.bind nesting else none with
      | some inner => inner v path
      | none =>
        match target.bind (coercion? depths) with
        | some coerce => byCoercion coerce source target path v
        | none =>
          if source = target then pure v
          else Run.refuse
            (.unconvertible fromType toType edge.container edge.source.name edge.target.name)

/-- Converts the items of a list one after the other, each under its index. -/
def nestedItems (convert : Value → (path : String) → Run Value) (path : String) (index : Nat) :
    List Value → Run (List Value)
  | [] => pure []
  | v :: rest => do
    let w ← convert v s!"{path}[{index}]"
    return w :: (← nestedItems convert path (index + 1) rest)

/-- Converts the value of a field that is hinted at: a list of values item by item. -/
def hintedValue (depths : Depths) (functions : Functions) (nesting : Nesting) (edge : Edge)
    (fromType toType : Option String) (hint : Option Hint) (v : Value) (path : String) : Run Value :=
  let convert := nestedValue depths functions nesting edge fromType toType
  match hint, v with
  | some .list, .list items => do return .list (← nestedItems convert path 0 items)
  | _, v => convert v path

/-- Takes the value at a path out of the tracker. -/
def take (path : String) : Run (Option Value) := do
  let p ← get
  match p.tracker.bind fun t => (t.get? (.text path)).map fun v => (t.erase (.text path), v) with
  | some (t, v) => do
    set { p with tracker := some t }
    return some v
  | none => return none

/-- What a field defaults to: a copy of its default value, or what its type defaults to. -/
def defaultOf (depths : Depths) (type : Option String) : Option Value → Except Fault Value
  | some v => depths.copy v
  | none => .ok (TypeName.defaultValue type)

/-- The value of a field that is new: what was dropped before, what its supplier gives, or what it defaults
to. -/
def newValue (depths : Depths) (functions : Functions) (type supplier : Option String) (value : Option Value)
    (path : String) : Run Value := do
  match ← take path with
  | some v => return v
  | none =>
    match filled? supplier with
    | some f => Run.ofExcept (functions.call f [])
    | none => Run.ofExcept (defaultOf depths type value)

/-- Puts a value for a field of the source version, if it is there, into the target instance. -/
def carry (instances : Entries Value Value × Entries Value Value) (source target : String)
    (convert : Value → Run Value) : Run (Entries Value Value) :=
  match Value.member? instances.1 source with
  | some v => do return Entries.put instances.2 (.text target) (← convert v)
  | none => return instances.2

/-- Does one step on an instance; `out` is what is made of it so far. A field that is absent stays
absent. -/
def fieldStep (depths : Depths) (functions : Functions) (nesting : Nesting) (edge : Edge) (path : String)
    (fields out : Entries Value Value) : FieldStep → Run (Entries Value Value)
  | .default item target type supplier value => do
    return Entries.put out (.text target) (← newValue depths functions type supplier value s!"{path}.{item}")
  | .copy _ source target => carry (fields, out) source target pure
  | .apply _ source target function =>
    carry (fields, out) source target fun v => Run.ofExcept (functions.call function [v])
  | .nested item source target fromType toType hint =>
    carry (fields, out) source target fun v =>
      hintedValue depths functions nesting edge fromType toType hint v s!"{path}.{item}"

/-- Records a copy of a value at a path, if there is one and if there is a tracker. -/
def record (depths : Depths) (path : String) (v : Option Value) : Run Unit := do
  let p ← get
  match p.tracker, v with
  | some t, some v => do
    let copied ← Run.ofExcept (depths.copy v)
    set { p with tracker := some (t.record (.text path) copied) }
  | _, _ => pure ()

/-- Records the fields that are dropped, one after the other. -/
def recordDropped (depths : Depths) (path : String) (fields : Entries Value Value) : List Dropped → Run Unit
  | [] => return ()
  | d :: rest => do
    record depths (path ++ d.path) (Value.member? fields d.source)
    recordDropped depths path fields rest

/-- Converts an instance of a struct. -/
def applyFields (depths : Depths) (functions : Functions) (nesting : Nesting) (edge : Edge)
    (steps : List FieldStep) (dropped : List Dropped) (v : Value) (path : String) : Run Value :=
  match v with
  | .map fields => do
    let out ← steps.foldlM (fieldStep depths functions nesting edge path fields) []
    recordDropped depths path fields dropped
    return .map out
  | v => Run.refuse (.noMapping edge.container edge.source.name v.kindName)

/-- The variant of an instance of an enum and its payload: a name alone, or the only entry of a map. -/
def variantOf? : Value → Option (Value × Option Value)
  | .text s => some (.text s, none)
  | .map [(name, payload)] => some (name, some payload)
  | _ => none

/-- Converts the payload of a variant. -/
def payload (depths : Depths) (functions : Functions) (nesting : Nesting) (edge : Edge) (path : String)
    (v : Value) : VariantStep → Run Value
  | .keep item _ _ function fromType toType nested =>
    match filled? function with
    | some f => Run.ofExcept (functions.call f [v])
    | none =>
      if nested || fromType != toType then
        nestedValue depths functions nesting edge fromType toType v s!"{path}.{item}"
      else pure v
  | .fallback _ _ _ => pure v

/-- The instance of the target version for a variant; a fallback carries no payload. -/
def variantStep (depths : Depths) (functions : Functions) (nesting : Nesting) (edge : Edge) (path : String)
    (carried : Option Value) (s : VariantStep) : Run Value :=
  match s, carried with
  | .keep _ _ target _ _ _ _, some v => do
    return .map [(.text target, ← payload depths functions nesting edge path v s)]
  | s, _ => pure (.text s.target)

/-- Converts an instance of an enum. -/
def applyVariants (depths : Depths) (functions : Functions) (nesting : Nesting) (edge : Edge)
    (steps : List VariantStep) (v : Value) (path : String) : Run Value :=
  match variantOf? v with
  | none => Run.refuse (.noVariant edge.container edge.source.name)
  | some (name, carried) =>
    match steps.find? fun s => Value.text s.source == name with
    | some s => variantStep depths functions nesting edge path carried s
    | none =>
      if name.isTooLong then Run.ofExcept (.error (.fault .digitsWritten))
      else Run.refuse
        (.unknownVariant name.literal edge.container edge.source.name edge.target.name)

/-- Applies an edge to an instance. -/
def applyEdge (depths : Depths) (functions : Functions) (nesting : Nesting) (edge : Edge) (v : Value)
    (path : String) : Run Value := do
  modify fun p => p.count edge.direction
  match edge.steps with
  | .fields steps dropped => applyFields depths functions nesting edge steps dropped v path
  | .variants steps => applyVariants depths functions nesting edge steps v path

end Conversion

end Lineage
