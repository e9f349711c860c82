import Lineage.Proofs.Conversion.Handling
import Lineage.Proofs.Conversion.Nested
import Lineage.Proofs.TypeName.Base

namespace Lineage

/-- How the value of an item is converted in a direction if its type changes and no function does it. -/
def Status.retyping? (item : Item) : Direction → Status → Option Retyping
  | .upgrade, changed fromName fromType toName toType upgradeWith _ =>
    if (filled? upgradeWith).isNone then some ⟨item.name, fromName, toName, fromType, toType, item.hint⟩ else none
  | .downgrade, changed fromName fromType toName toType _ downgradeWith =>
    if (filled? downgradeWith).isNone then some ⟨item.name, toName, fromName, toType, fromType, item.hint⟩ else none
  | _, _ => none

/-- The step that converts the value of a member. -/
def Retyping.step (m : Retyping) : FieldStep :=
  .nested m.item m.source m.target m.fromType m.toType m.hint

/-- Whether a value that is made of another goes with a schema: null stays null, and everything else conforms,
unless the schema is one of lists. -/
def Schema.Renews (s : Schema) (v w : Value) : Prop :=
  (v = .null → w = .null) ∧ (v ≠ .null → s.isSingle = true → s.document.Accepts w)

namespace FieldStep

variable {item : Item} {old new : Status} {m : Retyping} (follows : old.Follows new)
include follows

/-- A type that changes without a function is converted on the way up. -/
theorem upgrade?_of_retyping (retyped : new.retyping? item .upgrade = some m) :
    upgrade? item old new = some m.step := by
  cases new with
  | changed =>
    cases follows with
    | carried _ _ before told =>
      cases told
      simp only [Status.retyping?] at retyped
      split at retyped
      · rename_i unaided
        cases retyped
        simp [upgrade?, before, convert, Option.isNone_iff_eq_none.mp unaided, Retyping.step]
      · cases retyped
  | _ => cases retyped

/-- A type that changes without a function is converted on the way down. -/
theorem downgrade?_of_retyping (retyped : new.retyping? item .downgrade = some m) :
    downgrade? item old new = some m.step := by
  cases new with
  | changed =>
    cases follows with
    | carried _ _ before told =>
      cases told
      simp only [Status.retyping?] at retyped
      split at retyped
      · rename_i unaided
        cases retyped
        simp [downgrade?, before, convert, Option.isNone_iff_eq_none.mp unaided, Retyping.step]
      · cases retyped
  | _ => cases retyped

end FieldStep

/-- A member that is retyped has a step of its own on the way to the next version. -/
theorem Generation.Made.along?_retyping {c : Container} {g : Generation} (made : Made c g) {chain : Chain}
    (listed : chain ∈ g.chains) {r s : Release} {d : Direction} (atR : r ∈ g.timeline.releases)
    (atS : s ∈ g.timeline.releases) (hop : d.Steps r s) {status : Status} {m : Retyping}
    (told : chain.statusAt (d.newer r s) = .ok status) (retyped : status.retyping? chain.item d = some m) :
    chain.item ∈ c.items ∧ FieldStep.along? c g.timeline d r s chain.item = some m.step := by
  rw [made.chains] at listed
  obtain ⟨item, there, rfl⟩ := List.mem_map.mp listed
  refine ⟨there, ?_⟩
  have atNewer : d.newer r s ∈ g.timeline.releases := by
    cases d <;> assumption
  rw [Chain.statusAt_ofStatuses made.sound atNewer] at told
  cases told
  cases d with
  | upgrade => exact FieldStep.upgrade?_of_retyping (made.follows atR atS hop there) retyped
  | downgrade => exact FieldStep.downgrade?_of_retyping (made.follows atS atR hop there) retyped

namespace Value

variable {v w : Value}

theorem exists_text (made : v.toText = .ok w) : ∃ s, w = .text s := by
  unfold toText at made
  split at made
  · cases made
  · cases made
    exact ⟨_, rfl⟩

/-- What is made an integer is one. -/
theorem exists_int (made : v.toInteger = .ok w) : ∃ n, w = .int n := by
  have read : ∀ {base literal cs}, integerOfText base literal cs = .ok w → ∃ n, w = .int n := by
    intro base literal cs made
    unfold integerOfText at made
    split at made <;> cases made
    exact ⟨_, rfl⟩
  unfold toInteger at made
  split at made
  · cases made
    exact ⟨_, rfl⟩
  · cases made
    exact ⟨_, rfl⟩
  · split at made <;> cases made
    exact ⟨_, rfl⟩
  · exact read made
  · exact read made
  · cases made

/-- What is made a real number is one. -/
theorem exists_float (made : v.toReal = .ok w) : ∃ x, w = .float x := by
  have read : ∀ {literal cs}, floatOfText literal cs = .ok w → ∃ x, w = .float x := by
    intro literal cs made
    unfold floatOfText at made
    split at made <;> cases made
    exact ⟨_, rfl⟩
  unfold toReal at made
  split at made
  · cases made
    exact ⟨_, rfl⟩
  · obtain ⟨x, _, rfl⟩ := exists_of_map made
    exact ⟨x, rfl⟩
  · cases made
    exact ⟨_, rfl⟩
  · exact read made
  · exact read made
  · cases made

end Value

namespace Conversion

variable {functions : Functions} {nesting : Nesting} {e : Edge} {path : String} {v w : Value} {p q : Progress}

theorem coerced_of_byCoercion {coerce : Value → Except Fault Value} {source target : Option String}
    (run : byCoercion coerce source target path v p = (.ok w, q)) : coerce v = .ok w := by
  cases coerced : coerce v with
  | ok u =>
    simp only [byCoercion, coerced] at run
    cases run
    rfl
  | error cause =>
    simp only [byCoercion, coerced] at run
    cases family : cause.family <;> simp only [family] at run <;> cases run

/-- What is coerced to a type is a value of it. -/
theorem isOf_of_coercion {name : String} {k : Scalar} {coerce : Value → Except Fault Value}
    (found : coercion? .free name = some coerce) (known : TypeName.scalar? name = some k) (made : coerce v = .ok w) :
    w.isOf k.typeName = true := by
  have basic := Handling.exists_coercion?_iff.mp ⟨coerce, found⟩
  simp only [Code.primitives, List.mem_cons, List.not_mem_nil, or_false] at basic
  rcases basic with rfl | rfl | rfl | rfl
  · cases found
    cases known
    obtain ⟨s, rfl⟩ := Value.exists_text made
    rfl
  · cases found
    cases known
    obtain ⟨n, rfl⟩ := Value.exists_int made
    rfl
  · cases found
    cases known
    obtain ⟨x, rfl⟩ := Value.exists_float made
    rfl
  · cases found
    cases known
    cases made
    rfl

/-- What is neither a map nor a text is not converted by an edge, and a text becomes another. -/
theorem texts_of_applyEdge (single : ∀ fields, v ≠ .map fields)
    (run : applyEdge .free functions nesting e v path p = (.ok w, q)) :
    (∃ name, v = .text name) ∧ ∃ name, w = .text name := by
  cases own : e.steps with
  | fields steps dropped =>
    obtain ⟨_, _, fails⟩ := applyEdge_refuses own single p
    cases run.symm.trans fails
  | variants steps =>
    have first : (modify fun p => p.count e.direction : Run Unit) p = (.ok (), p.count e.direction) := rfl
    rw [applyEdge, Run.bind_of_ok first] at run
    simp only [own, applyVariants] at run
    cases v with
    | text name =>
      refine ⟨⟨name, rfl⟩, ?_⟩
      simp only [variantOf?] at run
      cases found : steps.find? fun s => Value.text s.source == .text name with
      | none =>
        simp only [found] at run
        split at run <;> cases run
      | some s =>
        simp only [found] at run
        cases s <;> cases run <;> exact ⟨_, rfl⟩
    | map fields => exact absurd rfl (single fields)
    | _ => cases run

end Conversion

namespace Runtime

variable {ι : Type} {room : Nat} {place : String} {v w : Value} {p q : Progress}

/-- On the way to another version nothing is converted besides maps but texts, which become others. -/
theorem texts_of_convert {N : Runtime ι} {c : Container} (run : Generation.ofContainer c = .ok N.generation)
    {a b : String} (apart : a ≠ b) (single : ∀ fields, v ≠ .map fields)
    (converted : N.convert room a b v place p = (.ok w, q)) :
    (∃ name, v = .text name) ∧ ∃ name, w = .text name := by
  refine convert_rel (P := fun v => ∀ fields, v ≠ .map fields)
    (R := fun v w => (∃ name, v = .text name) ∧ ∃ name, w = .text name) run apart
    (fun _ _ _ _ _ _ _ single applied => Conversion.texts_of_applyEdge single applied) ?_
    (fun _ _ _ first last => ⟨first.1, last.2⟩) single converted
  rintro _ _ ⟨_, name, rfl⟩ fields
  exact Value.noConfusion

section Nested

variable {rt : Runtime ι} {e : Edge}
  (generated : ∀ type N, rt.nested? type = some N → ∃ inner, Generation.ofContainer inner = .ok N.generation)
  (apart : e.source.name ≠ e.target.name) (unregistered : rt.functions.converters = [])
include generated apart unregistered

/-- A value of a type that wraps a primitive one becomes one of another such type. -/
theorem renews_of_nestedValue {first second : String} {k l : Scalar} {s t : Schema}
    (old : TypeName.scalar? (TypeName.base first) = some k) (new : TypeName.scalar? (TypeName.base second) = some l)
    (basic : TypeName.base second ∈ Code.primitives) (before : s.Wraps k) (after : t.Wraps l)
    (accepted : s.document.Accepts v)
    (run : Conversion.nestedValue .free rt.functions (rt.inner .free room e.source.name e.target.name) e
      (some first) (some second) v place p = (.ok w, q)) : t.Renews v w := by
  constructor
  · rintro rfl
    cases run
    rfl
  · intro there single
    have free : ∀ source target, rt.functions.converter? (some source) (some target) = none := by
      intro source target
      rw [Functions.converter?, unregistered]
      rfl
    rw [Schema.document_accepts_iff] at accepted ⊢
    refine after.accepts single ?_
    have does := @Handling.does_nestedValue rt.functions (rt.inner .free room e.source.name e.target.name) e first
      second v place (fun type => free type type) (fun _ _ => free _ _) there
    generalize Conversion.nestedValue .free rt.functions (rt.inner .free room e.source.name e.target.name) e
      (some first) (some second) v place = conversion at does run
    simp only [Handling.inRun, basic, if_true] at does
    split at does
    · rename_i follows
      cases does with
      | follow nested =>
        obtain ⟨N, registered, rfl⟩ := Option.map_eq_some_iff.mp nested
        obtain ⟨inner, run'⟩ := generated _ N registered
        have written := before.of_accepts there accepted
        have unmapped : ∀ fields, v ≠ .map fields := by
          rintro fields rfl
          rcases written with isOf | ⟨_, items⟩
          · cases isOf
          · cases items
        obtain ⟨⟨name, rfl⟩, other, rfl⟩ := texts_of_convert run' apart unmapped
          ((inside_refines_succ room N _ _ v place).ok run)
        rw [follows.1, new] at old
        cases old
        rcases written with isOf | ⟨_, items⟩
        · exact isOf
        · cases items
    · cases does with
      | construct found => exact Conversion.isOf_of_coercion found new (Conversion.coerced_of_byCoercion run)

end Nested

/-- What a runtime makes of a field whose type changes without a function, if both types wrap primitive ones and
no converter is registered. Both types have a schema, and the field has a step of its own along the edge. Null
stays null; every other value that conforms to the old schema becomes one that conforms to the new, unless that is
the schema of lists. -/
theorem convert_retypes {c : Container} {g : Generation} {rt : Runtime ι} {e : Edge} {chain : Chain}
    {status : Status} {m : Retyping} (run : Generation.ofContainer c = .ok g) (struct : c.kind = .struct)
    (own : rt.generation = g) (unregistered : rt.functions.converters = [])
    (generated : ∀ type N, rt.nested? type = some N → ∃ inner, Generation.ofContainer inner = .ok N.generation)
    (among : e ∈ g.edges) (listed : chain ∈ g.chains)
    (told : chain.statusAt (e.direction.newer e.source e.target) = .ok status)
    (retyped : status.retyping? chain.item e.direction = some m) (plain : m.hint = none)
    (old : ∃ name ∈ Code.primitives, m.fromType.map TypeName.base = some name)
    (new : ∃ name ∈ Code.primitives, m.toType.map TypeName.base = some name) :
    ∃ s t steps dropped, TypeName.schema m.fromType = .ok s ∧ TypeName.schema m.toType = .ok t ∧
      e.steps = .fields steps dropped ∧ m.step ∈ steps ∧
      (∀ room v w place (p q : Progress), s.document.Accepts v →
        Conversion.hintedValue .free rt.functions (rt.inner .free room e.source.name e.target.name) e m.fromType
          m.toType m.hint v place p = (.ok w, q) → t.Renews v w) ∧
      ∀ room x v w place (p q : Progress), Value.member? x m.source = some v → s.document.Accepts v →
        rt.convert room e.source.name e.target.name (.map x) place p = (.ok w, q) →
        ∃ out u, w = .map out ∧ Value.member? out m.target = some u ∧ t.Renews v u := by
  obtain ⟨_, oldBasic, isOld⟩ := old
  obtain ⟨first, typed, rfl⟩ := Option.map_eq_some_iff.mp isOld
  obtain ⟨_, newBasic, isNew⟩ := new
  obtain ⟨second, becomes, rfl⟩ := Option.map_eq_some_iff.mp isNew
  have scalar : ∀ name ∈ Code.primitives, (TypeName.scalar? name).isSome = true := by decide
  obtain ⟨k, oldScalar⟩ := Option.isSome_iff_exists.mp (scalar _ oldBasic)
  obtain ⟨l, newScalar⟩ := Option.isSome_iff_exists.mp (scalar _ newBasic)
  obtain ⟨s, readS, before⟩ := TypeName.schema_of_base oldBasic oldScalar rfl
  obtain ⟨t, readT, after⟩ := TypeName.schema_of_base newBasic newScalar rfl
  have made := Generation.made_of_ofContainer run
  obtain ⟨r, atR, r', atR', joins⟩ := made.joins_of_mem among
  rw [joins.source, joins.target] at told
  obtain ⟨there, along⟩ := made.along?_retyping listed atR atR' joins.step told retyped
  have apart := made.names_apart_of_mem among
  have renews : ∀ room v w place (p q : Progress), s.document.Accepts v →
      Conversion.hintedValue .free rt.functions (rt.inner .free room e.source.name e.target.name) e m.fromType
        m.toType m.hint v place p = (.ok w, q) → t.Renews v w := by
    intro room v w place p q accepted made
    rw [typed, becomes, plain] at made
    exact renews_of_nestedValue generated apart unregistered oldScalar newScalar newBasic before after accepted made
  refine ⟨s, t, _, _, typed ▸ readS, becomes ▸ readT, joins.fields struct,
    List.mem_filterMap.mpr ⟨chain.item, there, along⟩, renews, ?_⟩
  intro room x v w place p q holds accepted converted
  have found := made.edge?_of_mem among
  rw [joins.source, joins.target] at found converted renews
  obtain ⟨_, _, y, _, _, _, _, same, whole, rfl, _, here, kept⟩ :=
    made.convert_item_step struct there own atR atR' joins.step along converted
  cases same.symm.trans found
  cases whole
  rcases Conversion.carry_run here with ⟨absent, _⟩ | ⟨_, u, present, made, rfl⟩
  · cases absent.symm.trans holds
  · cases present.symm.trans holds
    exact ⟨y, u, rfl, kept.trans Entries.get?_put_text, renews _ _ _ _ _ _ accepted made⟩

/-- A struct with a field that holds a text or null before it holds an integer. -/
def ledger : Container where
  name := "Ledger"
  kind := .struct
  doc := none
  versions := ["v1", "v2"].map Declaration.named
  items := [⟨"size", some "int", none, none, false, none, [⟨"v2", none, some "Optional[str]", none, none⟩], none⟩]
  options := ⟨true, false⟩
  resource := none

/-- How the field changes its type. -/
def resized : Retyping :=
  ⟨"size", "size", "size", some "Optional[str]", some "int", none⟩

/-- A ledger is generated whose size changes from an optional text to a number. -/
theorem exists_ledger : ∃ g e chain status w q, Generation.ofContainer ledger = .ok g ∧
    g.edge? "v1" "v2" = some e ∧ e.source.name = "v1" ∧ e.target.name = "v2" ∧
    e.steps = .fields [.nested "size" "size" "size" (some "Optional[str]") (some "int") none] [] ∧
    chain ∈ g.chains ∧ chain.statusAt (e.direction.newer e.source e.target) = .ok status ∧
    status.retyping? chain.item e.direction = some resized ∧
    (single g .standard).convert 0 "v1" "v2" (.map [(.text "size", .text "12")]) "" (.start none) = (.ok w, q) ∧
    TypeName.base "Optional[str]" = "str" ∧ TypeName.base "int" = "int" ∧
    TypeName.schema (some "Optional[str]") = .ok (.nullable (.scalar .string)) ∧
    TypeName.schema (some "int") = .ok (.scalar .integer) := by
  have steps : ((Generation.ofContainer ledger).toOption.bind fun g => (g.edge? "v1" "v2").map fun e =>
      (e.source.name, e.target.name, e.steps.retypings?)) = some ("v1", "v2", some [some resized]) := by
    decide +kernel
  have told : ((Generation.ofContainer ledger).toOption.bind fun g => (g.edge? "v1" "v2").map fun e =>
      g.chains.map fun chain => (chain.statusAt (e.direction.newer e.source e.target)).toOption.bind fun s =>
        s.retyping? chain.item e.direction) = some [some resized] := by decide +kernel
  have converts : (Generation.ofContainer ledger).toOption.map (fun g => ((single g .standard).convert 0 "v1" "v2"
      (.map [(.text "size", .text "12")]) "" (.start none)).1.isOk) = some true := by decide +kernel
  have types : (TypeName.base "Optional[str]", TypeName.base "int",
      (TypeName.schema (some "Optional[str]")).toOption, (TypeName.schema (some "int")).toOption) =
      ("str", "int", some (.nullable (.scalar .string)), some (.scalar .integer)) := by decide +kernel
  simp only [Prod.mk.injEq] at types
  obtain ⟨g, run, steps⟩ := Option.bind_eq_some_iff.mp steps
  obtain ⟨e, found, steps⟩ := Option.map_eq_some_iff.mp steps
  simp only [run, found, Option.bind_some, Option.map_some, Option.some.injEq] at told converts
  simp only [Prod.mk.injEq] at steps
  obtain ⟨source, target, steps⟩ := steps
  obtain ⟨each, fields, retyped⟩ := Steps.retypings?_eq_some steps
  obtain ⟨step, rfl, own⟩ := List.map_eq_singleton_iff.mp retyped
  rw [FieldStep.retyping?_eq_some own] at fields
  obtain ⟨chain, chains, told⟩ := List.map_eq_singleton_iff.mp told
  obtain ⟨status, told, changes⟩ := Option.bind_eq_some_iff.mp told
  obtain ⟨w, converted⟩ := exists_of_isOk converts
  exact ⟨g, e, chain, status, w, _, ok_of_toOption run, found, source, target, fields, by simp [chains],
    ok_of_toOption told, changes, Prod.ext converted rfl, types.1, types.2.1, ok_of_toOption types.2.2.1,
    ok_of_toOption types.2.2.2⟩

/-- The size of a ledger becomes a number, which its schema accepts. -/
theorem convert_retypes_ledger : ∃ g t out u q, Generation.ofContainer ledger = .ok g ∧
    TypeName.schema (some "int") = .ok t ∧
    (single g .standard).convert 0 "v1" "v2" (.map [(.text "size", .text "12")]) "" (.start none) =
      (.ok (.map out), q) ∧ Value.member? out "size" = some u ∧ t.document.Accepts u := by
  obtain ⟨g, e, chain, status, w, q, run, found, source, target, _, among, told, retyped, converted, baseOld,
    baseNew, schemaOld, schemaNew⟩ := exists_ledger
  have alone : ∀ type N, (single g .standard).nested? type = some N →
      ∃ inner, Generation.ofContainer inner = .ok N.generation := by
    intro type N nested
    cases nested
  obtain ⟨s, t, _, _, readS, readT, _, _, _, renews⟩ := @convert_retypes _ ledger g (single g .standard) e chain
    status resized run rfl rfl rfl alone (List.mem_of_find?_eq_some found) among told retyped rfl
    ⟨"str", by decide, congrArg some baseOld⟩ ⟨"int", by decide, congrArg some baseNew⟩
  cases schemaOld.symm.trans readS
  cases schemaNew.symm.trans readT
  obtain ⟨out, u, rfl, holds, _, conforms⟩ := renews 0 _ _ w "" (.start none) q Value.member?_cons_self
    (Schema.document_accepts_iff.mpr rfl) (by rw [source, target]; exact converted)
  have there : Value.text "12" ≠ .null := Value.noConfusion
  exact ⟨g, _, out, u, q, run, readT, converted, holds, conforms there rfl⟩

/-- Null stays null although the new type does not allow it. -/
theorem null_stays : ∃ g e s t, Generation.ofContainer ledger = .ok g ∧ e ∈ g.edges ∧
    e.steps = .fields [.nested "size" "size" "size" (some "Optional[str]") (some "int") none] [] ∧
    TypeName.schema (some "Optional[str]") = .ok s ∧ TypeName.schema (some "int") = .ok t ∧
    s.document.Accepts .null ∧ ¬ t.document.Accepts .null ∧ ∀ nesting place p,
      Conversion.hintedValue .free .standard nesting e (some "Optional[str]") (some "int") none .null place p =
        (.ok .null, p) := by
  obtain ⟨g, e, _, _, _, _, run, found, _, _, fields, _, _, _, _, _, _, schemaOld, schemaNew⟩ := exists_ledger
  refine ⟨g, e, .nullable (.scalar .string), .scalar .integer, run, List.mem_of_find?_eq_some found, fields,
    schemaOld, schemaNew, Schema.document_accepts_iff.mpr rfl, ?_, fun _ _ _ => rfl⟩
  rw [Schema.document_accepts_iff]
  exact Bool.false_ne_true

end Runtime

end Lineage
