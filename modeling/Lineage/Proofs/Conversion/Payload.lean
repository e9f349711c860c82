import Lineage.Proofs.Conversion.Nested
import Lineage.Proofs.Conversion.Shape

namespace Lineage

/-- Why an edge does not convert a list, which is neither a mapping nor a variant. -/
def Edge.listRefusal (e : Edge) : ConversionFault :=
  match e.steps with
  | .fields _ _ => .noMapping e.container e.source.name "list"
  | .variants _ => .noVariant e.container e.source.name

namespace Conversion

variable {depths : Depths} {functions : Functions} {nesting : Nesting}

theorem applyEdge_list (e : Edge) (items : List Value) (path : String) (p : Progress) :
    applyEdge depths functions nesting e (.list items) path p =
      (.error (.conversion e.listRefusal), p.count e.direction) := by
  have first : (modify fun p => p.count e.direction : Run Unit) p = (.ok (), p.count e.direction) := rfl
  rw [applyEdge, Run.bind_of_ok first, Edge.listRefusal]
  cases e.steps <;> rfl

/-- A nested variant has its payload converted as a single value; its hint is not looked at. -/
theorem variantStep_nested {item : Item} (nested : item.nested = true) (e : Edge) (path source target : String)
    (fromType toType : Option String) (v : Value) :
    variantStep depths functions nesting e path (some v) (.carry item source target fromType toType) = (do
      return .map [(.text target,
        ← nestedValue depths functions nesting e fromType toType v s!"{path}.{item.name}")]) := by
  have uncalled : filled? none = none := rfl
  rw [VariantStep.carry, if_pos nested]
  simp only [variantStep, payload, uncalled, Bool.true_or, if_true]

end Conversion

namespace VariantStep

variable {item : Item} {old new : Status} {source target : String × Option String}
  (kept : new.altersType = false) (before : old.member? = some source) (after : new.member? = some target)
include kept before after

theorem upgrade?_kept (told : new.predecessor? = some source) :
    upgrade? item old new = some (carry item source.1 target.1 source.2 target.2) := by
  cases new with
  | added | absent => cases told
  | changed => cases kept
  | renamed | deprecated | unchanged =>
    cases after
    simp only [upgrade?, before]
    rfl

theorem downgrade_kept (container : String) (older newer : Release) (d : Option Definition) :
    downgrade container item old new older newer d =
      .ok (some (carry item target.1 source.1 target.2 source.2)) := by
  cases new with
  | absent => cases after
  | changed => cases kept
  | added | renamed | deprecated | unchanged =>
    cases after
    simp only [downgrade, before]
    rfl

end VariantStep

namespace Generation.Made

variable {c : Container} {g : Generation} (made : Made c g) {r s : Release} {d : Direction}
  (atR : r ∈ g.timeline.releases) (atS : s ∈ g.timeline.releases) (hop : d.Steps r s) {item : Item}
  (listed : item ∈ c.items) (keeps : item.KeepsType) {m n : String × Option String}
  (before : (item.statusIn c.kind g.timeline r).member? = some m)
  (after : (item.statusIn c.kind g.timeline s).member? = some n)
include made atR atS hop listed keeps before after

/-- A variant whose type is kept is carried over wherever it is in both versions. -/
theorem variantAlong?_kept : VariantStep.along? c g.timeline d r s item =
    .ok (some (VariantStep.carry item m.1 n.1 item.type item.type)) := by
  have typeR := Item.type_of_statusIn keeps before
  have typeS := Item.type_of_statusIn keeps after
  cases d with
  | upgrade =>
    have told := (made.follows atR atS hop listed).predecessor?_eq before
    have kept := @Item.altersType_statusIn c.kind g.timeline item keeps s
    have step := @VariantStep.upgrade?_kept item _ _ _ _ kept before after told
    rw [typeR, typeS] at step
    exact congrArg Except.ok step
  | downgrade =>
    have kept := @Item.altersType_statusIn c.kind g.timeline item keeps r
    have step := @VariantStep.downgrade_kept item _ _ _ _ kept after before c.name s r
      (some (c.definitionIn g.timeline s))
    rwa [typeR, typeS] at step

end Generation.Made

namespace Runtime

variable {ι : Type}

/-- Why a runtime does not convert a list between two versions: there is no way between them, or the
first edge on the way takes no list. -/
def RefusesLists (N : Runtime ι) (a b : String) (failure : Failure) : Prop :=
  N.generation.edgesBetween a b = .error failure ∨
    ∃ e rest, N.generation.edgesBetween a b = .ok (e :: rest) ∧ failure = .conversion e.listRefusal

/-- No list is converted between different versions. -/
theorem convert_list_fails {N : Runtime ι} {inside : Container}
    (runs : Generation.ofContainer inside = .ok N.generation) {a b : String} (apart : a ≠ b)
    (room : Nat) (items : List Value) (place : String) (p : Progress) :
    ∃ failure q, N.convert room a b (.list items) place p = (.error failure, q) ∧
      N.RefusesLists a b failure := by
  have made := Generation.made_of_ofContainer runs
  rw [convert, convertOn]
  cases along : N.generation.edgesBetween a b with
  | error failure =>
    rw [between_of_error along]
    exact ⟨failure, p, rfl, Or.inl along⟩
  | ok edges =>
    cases edges with
    | nil => exact absurd (made.eq_of_edgesBetween_nil along) apart
    | cons e rest =>
      refine ⟨_, p.count e.direction, ?_, Or.inr ⟨e, rest, along, rfl⟩⟩
      rw [between_of_ok along, alongEdges, List.foldlM_cons]
      exact Run.bind_of_error (Conversion.applyEdge_list e items place p)

/-- The payload of a nested variant is left to the runtime of its type as a whole, even if the item is
said to hold a list. As that converts no list, a list of payloads is never converted; where the variant
falls back to another one, the payload is left behind. -/
theorem apply_list_payload {c inside : Container} {g : Generation} {rt N : Runtime ι} {e : Edge}
    {first second : Definition} {item : Item} {type : String} {m : Member}
    (run : Generation.ofContainer c = .ok g) (enum : c.kind = .enum)
    (declared : item ∈ c.items) (nested : item.nested = true) (keeps : item.KeepsType)
    (typed : item.type = some type) (registered : rt.nested? (TypeName.base type) = some N)
    (unregistered : rt.functions.converter? (some (TypeName.base type)) (some (TypeName.base type)) = none)
    (runs : Generation.ofContainer inside = .ok N.generation) (listed : e ∈ g.edges)
    (atSource : g.definition e.source.name = .ok first) (atTarget : g.definition e.target.name = .ok second)
    (source : first.memberOfItem? item.name = some m) (room : Nat) (path : String)
    (p : Progress) :
    (∀ n, second.memberOfItem? item.name = some n →
      (∀ v, v ≠ .null → rt.apply (room + 1) e (.map [(.text m.name, v)]) path p =
        (do return .map [(.text n.name, ← N.convert room e.source.name e.target.name v
          s!"{path}.{item.name}")] : Run Value) (p.count e.direction)) ∧
      ∀ items, ∃ failure q, rt.apply (room + 1) e (.map [(.text m.name, .list items)]) path p =
        (.error failure, q) ∧ N.RefusesLists e.source.name e.target.name failure) ∧
    (second.memberOfItem? item.name = none → ∃ n ∈ second.members, ∀ v,
      rt.apply (room + 1) e (.map [(.text m.name, v)]) path p = (.ok (.text n.name), p.count e.direction)) := by
  have made := Generation.made_of_ofContainer run
  obtain ⟨r, atR, s, atS, joins⟩ := made.joins_of_mem listed
  rw [joins.source, made.definition_name atR] at atSource
  rw [joins.target, made.definition_name atS] at atTarget
  cases atSource
  cases atTarget
  rw [made.memberOfItem?_eq declared] at source
  obtain ⟨steps, step, all, found, along, leads⟩ := made.find?_variant atR atS enum joins declared source
  have inner : rt.follow (Runtime.inside .free (room + 1)) e.source.name e.target.name (TypeName.base type) =
      some (N.convert room e.source.name e.target.name) := by
    rw [follow, registered, Option.map_some]
    rfl
  have base : item.type.map TypeName.base = some (TypeName.base type) := by
    rw [typed, Option.map_some]
  refine ⟨fun n kept => ?_, fun gone => ?_⟩
  · rw [made.memberOfItem?_eq declared] at kept
    have before := (Member.of_ofStatus? source).2
    have after := (Member.of_ofStatus? kept).2
    have carried := made.variantAlong?_kept atR atS joins.step declared keeps before after
    cases along.symm.trans carried
    have whole : ∀ v, v ≠ .null → rt.apply (room + 1) e (.map [(.text m.name, v)]) path p =
        (do return .map [(.text n.name, ← N.convert room e.source.name e.target.name v
          s!"{path}.{item.name}")] : Run Value) (p.count e.direction) := by
      intro v there
      rw [apply, applyBy, Conversion.applyEdge_of_variants all found rfl,
        Conversion.variantStep_nested nested, Conversion.nestedValue_inner base unregistered inner there]
    refine ⟨whole, fun items => ?_⟩
    have apart := made.names_apart_of_mem listed
    obtain ⟨failure, q, fails, refuses⟩ := @convert_list_fails _ N inside runs _ _ apart room items
      s!"{path}.{item.name}" (p.count e.direction)
    refine ⟨failure, q, ?_, refuses⟩
    rw [whole (.list items) (by simp)]
    exact Run.bind_of_error fails
  · obtain ⟨_, _, leads⟩ := leads
    rw [(Member.of_ofStatus? source).1, gone] at leads
    obtain ⟨falls, target⟩ := leads
    obtain ⟨n, member, named⟩ := List.mem_map.mp target
    refine ⟨n, member, fun v => ?_⟩
    rw [apply, applyBy, Conversion.applyEdge_of_variants all found rfl, Conversion.variantStep_fallback falls,
      named]
    rfl

/-- A container of which a field is renamed. -/
def order : Container where
  name := "Order"
  kind := .struct
  doc := none
  versions := ["v1", "v2"].map Declaration.named
  items := [⟨"postcode", some "str", none, none, false, none, [⟨"v2", some "zip", none, none, none⟩], none⟩]
  options := ⟨true, false⟩
  resource := none

/-- A variant that holds a list of others. -/
def batch : Item :=
  ⟨"Batch", some "Order", none, some .list, true, none, [], none⟩

/-- An enum with a variant that holds a list of others. -/
def event : Container where
  name := "Event"
  kind := .enum
  doc := none
  versions := ["v1", "v2"].map Declaration.named
  items := [batch]
  options := ⟨true, false⟩
  resource := none

/-- A payload of the variant. -/
def shipped : Value :=
  .map [(.text "zip", .text "10115")]

/-- An event with a batch of orders is generated, and a list of one order is refused that converts alone. -/
theorem exists_event : ∃ g h e first second m n w p failure q, Generation.ofContainer event = .ok g ∧
    Generation.ofContainer order = .ok h ∧ e ∈ g.edges ∧
    g.definition e.source.name = .ok first ∧ g.definition e.target.name = .ok second ∧
    first.memberOfItem? "Batch" = some m ∧ m.name = "Batch" ∧ second.memberOfItem? "Batch" = some n ∧
    (star .standard g [h]).nested? (TypeName.base "Order") = some ((star .standard g [h]).move (some h)) ∧
    ((star .standard g [h]).move (some h)).convert 0 e.source.name e.target.name shipped ""
      (Progress.start none) = (.ok w, p) ∧
    (star .standard g [h]).apply 1 e (.map [(.text "Batch", .list [shipped])]) ""
      (Progress.start none) = (.error failure, q) := by
  have facts : ((Generation.ofContainer event).toOption.bind fun g =>
      (Generation.ofContainer order).toOption.bind fun h => (g.edge? "v1" "v2").map fun e =>
        ((g.definition "v1").toOption.map fun d => (d.memberOfItem? "Batch").map (·.name),
          (g.definition "v2").toOption.map fun d => (d.memberOfItem? "Batch").isSome,
          h.name, TypeName.base "Order",
          (((star .standard g [h]).move (some h)).convert 0 "v1" "v2" shipped "" (Progress.start none)).1.isOk,
          ((star .standard g [h]).apply 1 e (.map [(.text "Batch", .list [shipped])]) ""
            (Progress.start none)).1.isOk)) =
      some (some (some "Batch"), some true, "Order", "Order", true, false) := by decide +kernel
  obtain ⟨g, run, facts⟩ := Option.bind_eq_some_iff.mp facts
  obtain ⟨h, runs, facts⟩ := Option.bind_eq_some_iff.mp facts
  obtain ⟨e, found, facts⟩ := Option.map_eq_some_iff.mp facts
  simp only [Prod.mk.injEq] at facts
  obtain ⟨before, after, named, base, converts, refuses⟩ := facts
  have connects := List.find?_some found
  simp only [Edge.connects, Bool.and_eq_true, beq_iff_eq] at connects
  obtain ⟨source, target⟩ := connects
  rw [← source] at before converts
  rw [← target] at after converts
  obtain ⟨first, atSource, before⟩ := exists_of_toOption_map before
  obtain ⟨m, there, name⟩ := Option.map_eq_some_iff.mp before
  obtain ⟨second, atTarget, after⟩ := exists_of_toOption_map after
  obtain ⟨n, later⟩ := Option.isSome_iff_exists.mp after
  obtain ⟨w, converted⟩ := exists_of_isOk converts
  obtain ⟨failure, q, refused⟩ := Run.exists_of_fails refuses
  have registered := nested?_star .standard g (named.trans base.symm)
  exact ⟨g, h, e, first, second, m, n, w, _, failure, q, ok_of_toOption run, ok_of_toOption runs,
    List.mem_of_find?_eq_some found, atSource, atTarget, there, name, later, registered,
    Prod.ext converted rfl, refused⟩

/-- A single order in the batch of an event is converted as a whole, and a list of orders is refused. -/
theorem apply_list_payload_event : ∃ g h e, ∃ n : Member, Generation.ofContainer event = .ok g ∧
    Generation.ofContainer order = .ok h ∧ e ∈ g.edges ∧
    (star .standard g [h]).apply 1 e (.map [(.text "Batch", shipped)]) "" (Progress.start none) =
      (do return .map [(.text n.name, ← ((star .standard g [h]).move (some h)).convert 0 e.source.name
        e.target.name shipped ("" ++ "." ++ batch.name))] : Run Value) ((Progress.start none).count e.direction) ∧
    ∃ failure q, (star .standard g [h]).apply 1 e (.map [(.text "Batch", .list [shipped])]) ""
      (Progress.start none) = (.error failure, q) ∧
      ((star .standard g [h]).move (some h)).RefusesLists e.source.name e.target.name failure := by
  obtain ⟨g, h, e, first, second, m, n, _, _, _, _, run, runs, listed, atSource, atTarget, source, name, target,
    registered, _⟩ := exists_event
  have payload := @apply_list_payload _ event order g (star .standard g [h])
    ((star .standard g [h]).move (some h)) e first second batch "Order" m run rfl (List.mem_cons_self ..) rfl
    (List.forall_mem_nil _) rfl registered rfl runs listed atSource atTarget source 0 "" (Progress.start none)
  obtain ⟨whole, refused⟩ := payload.1 n target
  rw [name] at whole refused
  exact ⟨g, h, e, n, run, runs, listed, whole shipped (by simp [shipped]), refused [shipped]⟩

/-- A list is refused whose only payload the runtime of its type converts. -/
theorem event_batch_refused : ∃ g h e w p q failure, Generation.ofContainer event = .ok g ∧
    Generation.ofContainer order = .ok h ∧ e ∈ g.edges ∧ event.items = [batch] ∧ batch.hint = some .list ∧
    batch.KeepsType ∧
    (star .standard g [h]).nested? (TypeName.base "Order") = some ((star .standard g [h]).move (some h)) ∧
    ((star .standard g [h]).move (some h)).convert 0 e.source.name e.target.name shipped ""
      (Progress.start none) = (.ok w, p) ∧
    (star .standard g [h]).apply 1 e (.map [(.text "Batch", .list [shipped])]) ""
      (Progress.start none) = (.error failure, q) := by
  obtain ⟨g, h, e, _, _, _, _, w, p, failure, q, run, runs, listed, _, _, _, _, _, registered, converted,
    refused⟩ := exists_event
  exact ⟨g, h, e, w, p, q, failure, run, runs, listed, rfl, rfl, List.forall_mem_nil _, registered, converted,
    refused⟩

end Runtime

end Lineage
