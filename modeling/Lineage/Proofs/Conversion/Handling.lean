import Lineage.Code.Expression
import Lineage.Proofs.Conversion.Nesting
import Lineage.Proofs.Conversion.Steps

namespace Lineage

/-- What is done to the value of a field whose type changes, or that holds another container. -/
inductive Handling where
  | keep
  | construct (type : String)
  | follow (type : String)
  | convert (old new : String)
  deriving DecidableEq, Repr

namespace Handling

/-- What the code of a module does to a value, by the innermost types of its old and its new type. -/
def inCode (old new : String) : Handling :=
  if old = new then if new ∈ Code.primitives then keep else follow new
  else if new ∈ Code.primitives then construct new
  else convert old new

/-- What a runtime does to a value; `nested` tells whether it has another for the new type. -/
def inRun (nested : Bool) (old new : String) : Handling :=
  if old = new ∧ nested = true then follow new
  else if new ∈ Code.primitives then construct new
  else if old = new then keep
  else convert old new

/-- The code that does what is to be done to a value. -/
def code (functionName source : String) : Handling → Code.Coding String
  | keep => return source
  | construct type => return s!"{type}({source})"
  | follow type => do
    let called ← modifyGet (Code.Imports.container type)
    return s!"{called}.{functionName}({source})"
  | convert old new => do
    modify Code.Imports.converting
    return s!"_convert({source}, {Text.quoted old}, {Text.quoted new})"

/-- Whether a conversion does what is to be done to a value. Where a converter is called for, it fails if
there is none. -/
inductive Does (functions : Functions) (nesting : Nesting) (edge : Edge) (old new : String) (v : Value)
    (path : String) : Handling → Run Value → Prop
  | keep : Does functions nesting edge old new v path keep (pure v)
  | construct {type : String} {coerce : Value → Except Fault Value}
      (primitive : Conversion.coercion? .free type = some coerce) :
      Does functions nesting edge old new v path (construct type)
        (Conversion.byCoercion coerce (some (TypeName.base old)) (some (TypeName.base new)) path v)
  | follow {type : String} {inner : Value → (path : String) → Run Value}
      (nested : nesting type = some inner) :
      Does functions nesting edge old new v path (follow type) (inner v path)
  | convert {source target : String} {f : Function}
      (registered : functions.converter? (some source) (some target) = some f) :
      Does functions nesting edge old new v path (convert source target)
        (Conversion.byConverter f (some source) (some target) path v)
  | missing {source target : String}
      (unregistered : functions.converter? (some source) (some target) = none) :
      Does functions nesting edge old new v path (convert source target) (Run.refuse
        (.unconvertible (some old) (some new) edge.container edge.source.name edge.target.name))

/-- Both do the same, unless a value is to keep its innermost type and that is a primitive one. -/
theorem inRun_eq_inCode_iff {nested : Bool} {old new : String}
    (registered : old = new → new ∉ Code.primitives → nested = true) :
    inRun nested old new = inCode old new ↔ ¬ (old = new ∧ new ∈ Code.primitives) := by
  unfold inRun inCode
  by_cases same : old = new
  · by_cases primitive : new ∈ Code.primitives
    · cases nested <;> simp [same, primitive]
    · simp [same, primitive, registered same primitive]
  · by_cases primitive : new ∈ Code.primitives <;> simp [same, primitive]

theorem convertedText_eq (source functionName old new : String) :
    Code.convertedText source (some old) (some new) functionName =
      (inCode (TypeName.base old) (TypeName.base new)).code functionName source := by
  unfold inCode
  by_cases primitive : TypeName.base new ∈ Code.primitives <;>
    by_cases same : TypeName.base old = TypeName.base new <;>
    simp [Code.convertedText, code, primitive, same, Code.typeLiteral]

/-- The types to which values are coerced are the primitive ones of the generated code. -/
theorem exists_coercion?_iff {type : String} :
    (∃ coerce, Conversion.coercion? .free type = some coerce) ↔ type ∈ Code.primitives := by
  simp only [Conversion.coercion?, Code.primitives, List.mem_cons, List.not_mem_nil, or_false]
  by_cases text : type = "str"
  · simp [text]
  by_cases integer : type = "int"
  · simp [integer]
  by_cases real : type = "float"
  · simp [real]
  by_cases truth : type = "bool"
  · simp [truth]
  simp [text, integer, real, truth]

/-- How a runtime converts a value that is not null, for types to which it has no converter of its own. -/
theorem does_nestedValue {functions : Functions} {nesting : Nesting} {edge : Edge} {old new : String}
    {v : Value} {path : String}
    (unregistered : ∀ type, functions.converter? (some type) (some type) = none)
    (plain : TypeName.base old ≠ TypeName.base new → TypeName.base new ∈ Code.primitives →
      functions.converter? (some (TypeName.base old)) (some (TypeName.base new)) = none)
    (there : v ≠ .null) :
    Does functions nesting edge old new v path
      (inRun (nesting (TypeName.base new)).isSome (TypeName.base old) (TypeName.base new))
      (Conversion.nestedValue .free functions nesting edge (some old) (some new) v path) := by
  have missing : ∀ type, type ∉ Code.primitives → Conversion.coercion? .free type = none := by
    intro type other
    rw [← Option.not_isSome_iff_eq_none, Option.isSome_iff_exists, exists_coercion?_iff]
    exact other
  unfold inRun
  simp only [Conversion.nestedValue, Option.map_some, Option.bind_some, Option.some.injEq]
  by_cases same : TypeName.base old = TypeName.base new
  · simp only [same, unregistered, if_true, true_and]
    cases nested : nesting (TypeName.base new) with
    | some inner => exact .follow nested
    | none =>
      by_cases primitive : TypeName.base new ∈ Code.primitives
      · obtain ⟨coerce, found⟩ := exists_coercion?_iff.mpr primitive
        simp only [found, primitive, Option.isSome_none, Bool.false_eq_true, if_false, if_true]
        have constructed := @Does.construct functions nesting edge old new v path _ _ found
        rwa [same] at constructed
      · simp only [missing _ primitive, primitive, Option.isSome_none, Bool.false_eq_true, if_false]
        exact .keep
  · simp only [same, false_and, if_false]
    by_cases primitive : TypeName.base new ∈ Code.primitives
    · obtain ⟨coerce, found⟩ := exists_coercion?_iff.mpr primitive
      simp only [plain same primitive, found, primitive, if_true]
      exact .construct found
    · simp only [missing _ primitive, primitive, if_false]
      cases registered : functions.converter? (some (TypeName.base old)) (some (TypeName.base new)) with
      | some f => exact .convert registered
      | none => exact .missing registered

end Handling

namespace Item

variable {kind : Kind} {t : Timeline} {item : Item} (typed : item.type ≠ none)
include typed

/-- An item with a type has one in all versions: a change that tells of none leaves it as it is. -/
theorem undoneFrom_typed (rank : Nat) : (item.undoneFrom kind t rank).2 ≠ none := by
  have undo : ∀ (changes : List Change) (m : String × Option String), m.2 ≠ none →
      (changes.foldl (fun member c => c.undo member) m).2 ≠ none := by
    intro changes
    induction changes with
    | nil => exact fun m there => there
    | cons c rest ih =>
      intro m there
      refine ih _ ?_
      cases type : c.fromType <;> simp [Change.undo, type, there]
  unfold undoneFrom
  induction t.releases.drop rank with
  | nil => exact typed
  | cons r rest ih =>
    refine undo _ _ ?_
    split <;> exact ih

theorem typed_of_statusIn {r : Release} {member : String × Option String}
    (present : (item.statusIn kind t r).member? = some member) : ∃ type, member.2 = some type := by
  rw [member?_statusIn] at present
  split at present
  · cases present
  · rw [← Option.some.inj present]
    exact Option.ne_none_iff_exists'.mp (undoneFrom_typed typed _)

end Item

namespace FieldStep

variable {item : Item} {old new : Status} {name source target : String}
  {fromType toType : Option String} {hint : Option Hint}

theorem carry_types {a b : String} {first second : Option String}
    (own : carry item a b first second = .nested name source target fromType toType hint) :
    first = fromType ∧ second = toType := by
  unfold carry at own
  split at own
  · cases own
    exact ⟨rfl, rfl⟩
  · cases own

theorem convert_types {function : Option String} {a b : String} {first second : Option String}
    (own : convert item function a b first second = .nested name source target fromType toType hint) :
    first = fromType ∧ second = toType := by
  unfold convert at own
  split at own
  · cases own
  · cases own
    exact ⟨rfl, rfl⟩

variable (follows : old.Follows new)
include follows

/-- A step up converts from the type that an item had to the one that it has. -/
theorem upgrade?_types (own : upgrade? item old new = some (.nested name source target fromType toType hint)) :
    ∃ m n, old.member? = some m ∧ new.member? = some n ∧ m.2 = fromType ∧ n.2 = toType := by
  cases follows with
  | absent | added => cases own
  | carried m n before told after =>
    refine ⟨m, n, before, after, ?_⟩
    cases new with
    | added | absent => cases told
    | changed =>
      cases after
      cases told
      simp only [upgrade?, before] at own
      exact convert_types (Option.some.inj own)
    | renamed | deprecated | unchanged =>
      cases after
      simp only [upgrade?, before] at own
      exact carry_types (Option.some.inj own)

/-- A step down converts from the type that an item has to the one that it had. -/
theorem downgrade?_types
    (own : downgrade? item old new = some (.nested name source target fromType toType hint)) :
    ∃ m n, old.member? = some m ∧ new.member? = some n ∧ n.2 = fromType ∧ m.2 = toType := by
  cases follows with
  | absent | added => cases own
  | carried m n before told after =>
    refine ⟨m, n, before, after, ?_⟩
    cases new with
    | absent => cases after
    | changed =>
      cases after
      cases told
      simp only [downgrade?, before] at own
      exact convert_types (Option.some.inj own)
    | added | renamed | deprecated | unchanged =>
      cases after
      simp only [downgrade?, before] at own
      exact carry_types (Option.some.inj own)

end FieldStep

/-- A member whose value a step converts from one type to another. -/
structure Retyping where
  item : String
  source : String
  target : String
  fromType : Option String
  toType : Option String
  hint : Option Hint
  deriving DecidableEq, Repr

/-- What a step converts as the value of a nested type, if it does. -/
def FieldStep.retyping? : FieldStep → Option Retyping
  | .nested item source target fromType toType hint => some ⟨item, source, target, fromType, toType, hint⟩
  | _ => none

theorem FieldStep.retyping?_eq_some {step : FieldStep} {m : Retyping} (retyped : step.retyping? = some m) :
    step = .nested m.item m.source m.target m.fromType m.toType m.hint := by
  cases step with
  | nested =>
    cases retyped
    rfl
  | copy | default | apply => cases retyped

/-- What the steps of a struct convert, if they drop nothing. -/
def Steps.retypings? : Steps → Option (List (Option Retyping))
  | .fields steps [] => some (steps.map FieldStep.retyping?)
  | _ => none

theorem Steps.retypings?_eq_some {s : Steps} {members : List (Option Retyping)}
    (retyped : s.retypings? = some members) :
    ∃ steps, s = .fields steps [] ∧ steps.map FieldStep.retyping? = members := by
  match s, retyped with
  | .fields steps [], rfl => exact ⟨steps, rfl, rfl⟩

/-- The values that the steps of a struct convert have a type before and after. -/
theorem Generation.Made.exists_types {c : Container} {g : Generation} (made : Made c g)
    (struct : c.kind = .struct) (typed : ∀ item ∈ c.items, item.type ≠ none) {e : Edge} (among : e ∈ g.edges)
    {steps : List FieldStep} {dropped : List Dropped} (fields : e.steps = .fields steps dropped)
    {name source target : String} {fromType toType : Option String} {hint : Option Hint}
    (listed : .nested name source target fromType toType hint ∈ steps) :
    ∃ old new, fromType = some old ∧ toType = some new := by
  obtain ⟨r, atR, s, atS, joins⟩ := made.joins_of_mem among
  rw [joins.fields struct] at fields
  cases fields
  obtain ⟨item, own, step⟩ := List.mem_filterMap.mp listed
  have hop := joins.step
  generalize e.direction = d at hop step
  cases d with
  | upgrade =>
    obtain ⟨m, n, before, after, rfl, rfl⟩ :=
      FieldStep.upgrade?_types (made.follows atR atS hop own) step
    obtain ⟨old, source⟩ := Item.typed_of_statusIn (typed item own) before
    obtain ⟨new, target⟩ := Item.typed_of_statusIn (typed item own) after
    exact ⟨old, new, source, target⟩
  | downgrade =>
    obtain ⟨m, n, before, after, rfl, rfl⟩ :=
      FieldStep.downgrade?_types (made.follows atS atR hop own) step
    obtain ⟨old, source⟩ := Item.typed_of_statusIn (typed item own) after
    obtain ⟨new, target⟩ := Item.typed_of_statusIn (typed item own) before
    exact ⟨old, new, source, target⟩

namespace Runtime

variable {ι : Type}

/-- How values whose type changes, or that hold another container, are handled by a runtime and by the code
that is written for the same edge, if types have no converter to themselves and none is registered where a
constructor does. Both decide by the innermost types alone, and they decide alike unless a value keeps an
innermost type that is primitive: the code then leaves the value as it is, and the runtime does not. -/
theorem handling_decides {c : Container} {g : Generation} {rt : Runtime ι} {e : Edge}
    {steps : List FieldStep} {dropped : List Dropped} {item source target : String}
    {fromType toType : Option String} (run : Generation.ofContainer c = .ok g) (struct : c.kind = .struct)
    (among : e ∈ g.edges) (fields : e.steps = .fields steps dropped)
    (listed : .nested item source target fromType toType none ∈ steps)
    (unregistered : ∀ type, rt.functions.converter? (some type) (some type) = none)
    (plain : ∀ old new, fromType.map TypeName.base = some old → toType.map TypeName.base = some new →
      old ≠ new → new ∈ Code.primitives → rt.functions.converter? (some old) (some new) = none)
    (registered : ∀ type, fromType.map TypeName.base = some type → toType.map TypeName.base = some type →
      type ∉ Code.primitives → ∃ N, rt.nested? type = some N) :
    ∃ old new, fromType = some old ∧ toType = some new ∧
      Code.fieldText e.functionName (.nested item source target fromType toType none) =
        (Handling.inCode (TypeName.base old) (TypeName.base new)).code e.functionName ("value." ++ source) ∧
      (∀ room v path, rt.apply room e v path =
        Conversion.applyEdge .free rt.functions (rt.inner .free room e.source.name e.target.name) e v path) ∧
      (∀ room, ∀ v ≠ .null, ∀ path,
        Handling.Does rt.functions (rt.inner .free room e.source.name e.target.name) e old new v path
          (Handling.inRun (rt.nested? (TypeName.base new)).isSome (TypeName.base old) (TypeName.base new))
          (Conversion.hintedValue .free rt.functions (rt.inner .free room e.source.name e.target.name) e fromType
            toType none v path)) ∧
      (Handling.inRun (rt.nested? (TypeName.base new)).isSome (TypeName.base old) (TypeName.base new) =
          Handling.inCode (TypeName.base old) (TypeName.base new) ↔
        ¬ (TypeName.base old = TypeName.base new ∧ TypeName.base new ∈ Code.primitives)) := by
  have made := Generation.made_of_ofContainer run
  have rules := (Container.wellFormed_of_validate (Generation.validate_of_ofContainer run)).1.items
  have typed : ∀ item ∈ c.items, item.type ≠ none := by
    intro item member
    obtain ⟨type, given, _⟩ := (rules item member).typed struct
    rw [given]
    exact Option.some_ne_none type
  obtain ⟨old, new, rfl, rfl⟩ := made.exists_types struct typed among fields listed
  refine ⟨old, new, rfl, rfl, Handling.convertedText_eq _ _ _ _, fun _ _ _ => rfl,
    fun room v there path => ?_, Handling.inRun_eq_inCode_iff fun same other => ?_⟩
  · have nested : (rt.nested? (TypeName.base new)).isSome =
        (rt.inner .free room e.source.name e.target.name (TypeName.base new)).isSome := Option.isSome_map.symm
    rw [nested]
    exact Handling.does_nestedValue unregistered (plain _ _ rfl rfl) there
  · obtain ⟨N, found⟩ := registered (TypeName.base new) (congrArg some same) rfl other
    rw [found]
    rfl

/-- A struct with a field that gets another primitive type and a list of texts that becomes optional. -/
def shelf : Container where
  name := "Shelf"
  kind := .struct
  doc := none
  versions := ["v1", "v2"].map Declaration.named
  items := [⟨"size", some "str", none, none, false, none, [⟨"v2", none, some "int", none, none⟩], none⟩,
    ⟨"tags", some "Optional[List[str]]", none, none, false, none,
      [⟨"v2", none, some "List[str]", none, none⟩], none⟩]
  options := ⟨true, false⟩
  resource := none

/-- The edge of a shelf leaves its size and its tags to conversions by their types. -/
theorem shelf_edge : ∃ g e, Generation.ofContainer shelf = .ok g ∧ e ∈ g.edges ∧
    e.steps = .fields [.nested "size" "size" "size" (some "int") (some "str") none,
      .nested "tags" "tags" "tags" (some "List[str]") (some "Optional[List[str]]") none] [] := by
  have facts : (Generation.ofContainer shelf).toOption.map (fun g =>
      (g.edge? "v1" "v2").map fun e => e.steps.retypings?) = some (some (some
        [some ⟨"size", "size", "size", some "int", some "str", none⟩,
          some ⟨"tags", "tags", "tags", some "List[str]", some "Optional[List[str]]", none⟩])) := by
    decide +kernel
  obtain ⟨g, run, facts⟩ := exists_of_toOption_map facts
  obtain ⟨e, found, facts⟩ := Option.map_eq_some_iff.mp facts
  obtain ⟨steps, fields, retyped⟩ := Steps.retypings?_eq_some facts
  obtain ⟨size, _, rfl, sized, retyped⟩ := List.map_eq_cons_iff.mp retyped
  obtain ⟨tags, rfl, tagged⟩ := List.map_eq_singleton_iff.mp retyped
  rw [FieldStep.retyping?_eq_some sized, FieldStep.retyping?_eq_some tagged] at fields
  exact ⟨g, e, run, List.mem_of_find?_eq_some found, fields⟩

/-- The size of a shelf is made a text by the generated code and by a conversion. -/
theorem handling_decides_shelf : ∃ g e, Generation.ofContainer shelf = .ok g ∧ e ∈ g.edges ∧
    Code.fieldText e.functionName (.nested "size" "size" "size" (some "int") (some "str") none) =
      (Handling.construct "str").code e.functionName "value.size" ∧
    ∀ v ≠ .null, ∀ path, Handling.Does .standard ((single g .standard).inner .free 0 e.source.name e.target.name) e
      "int" "str" v path (.construct "str")
      (Conversion.hintedValue .free .standard ((single g .standard).inner .free 0 e.source.name e.target.name) e
        (some "int") (some "str") none v path) := by
  have bases : TypeName.base "int" = "int" ∧ TypeName.base "str" = "str" := by decide +kernel
  obtain ⟨g, e, run, among, fields⟩ := shelf_edge
  obtain ⟨old, new, first, second, text, _, run', alike⟩ := @handling_decides _ shelf g (single g .standard) e _ _
    "size" "size" "size" (some "int") (some "str") run rfl among fields (List.mem_cons_self ..)
    (fun _ => rfl) (fun _ _ _ _ _ _ => rfl) (by
      intro type first second
      rw [Option.map_some, bases.1] at first
      rw [Option.map_some, bases.2] at second
      exact absurd (Option.some.inj (first.trans second.symm)) (by decide))
  cases first
  cases second
  rw [bases.1, bases.2] at text run' alike
  have same := alike.mpr (by decide)
  rw [same] at run'
  exact ⟨g, e, run, among, text, run' 0⟩

/-- The code leaves a list of texts as it is, and the runtime makes one text of it. -/
theorem tags_become_text : ∃ g e, Generation.ofContainer shelf = .ok g ∧ e ∈ g.edges ∧
    (∃ steps, e.steps = .fields steps [] ∧
      .nested "tags" "tags" "tags" (some "List[str]") (some "Optional[List[str]]") none ∈ steps) ∧
    (∀ imports, Code.fieldText e.functionName
      (.nested "tags" "tags" "tags" (some "List[str]") (some "Optional[List[str]]") none) imports =
        .ok ("value.tags", imports)) ∧
    ∀ p, Conversion.hintedValue .free .standard ((single g .standard).inner .free 0 e.source.name e.target.name) e
      (some "List[str]") (some "Optional[List[str]]") none (.list [.text "a"]) ".tags" p =
        (.ok (.text "['a']"), p) := by
  have text : Value.toText (.list [.text "a"]) = .ok (.text "['a']") := by rfl
  have bases : TypeName.base "List[str]" = "str" ∧ TypeName.base "Optional[List[str]]" = "str" := by
    decide +kernel
  obtain ⟨g, e, run, among, fields⟩ := shelf_edge
  refine ⟨g, e, run, among, ⟨_, fields, by simp⟩, fun imports => ?_, fun p => ?_⟩
  · have kept := Handling.convertedText_eq "value.tags" e.functionName "List[str]" "Optional[List[str]]"
    rw [bases.1, bases.2] at kept
    exact congrFun kept imports
  · have unregistered : Functions.standard.converter? (some "str") (some "str") = none := rfl
    have lone : (single g .standard).inner .free 0 e.source.name e.target.name "str" = none := rfl
    have constructor : Conversion.coercion? .free "str" = some Value.toText := rfl
    simp only [Conversion.hintedValue, Conversion.nestedValue, Option.map_some, bases.1, bases.2, unregistered,
      if_true, Option.bind_some, lone, constructor, Conversion.byCoercion, text]
    rfl

end Runtime

end Lineage
