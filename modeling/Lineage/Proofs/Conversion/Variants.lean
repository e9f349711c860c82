import Lineage.Proofs.Conversion.Hop
import Lineage.Proofs.Conversion.Walk
import Lineage.Proofs.Edge

namespace Lineage

namespace VariantStep

/-- The step of an item on the way from a version to the next one. -/
def along? (c : Container) (t : Timeline) (d : Direction) (r s : Release) (item : Item) :
    Except Failure (Option VariantStep) :=
  match d with
  | .upgrade => .ok (upgrade? item (item.statusIn c.kind t r) (item.statusIn c.kind t s))
  | .downgrade => downgrade c.name item (item.statusIn c.kind t s) (item.statusIn c.kind t r) s r
      (some (c.definitionIn t s))

theorem Keeps.returns {d : Definition} {m : Member} {step : VariantStep} (keeps : step.Keeps d m) :
    step.Returns d m := by
  obtain ⟨own, source, carries, after, there, target⟩ := keeps
  refine ⟨own, source, ?_⟩
  rw [there]
  exact ⟨carries, target⟩

end VariantStep

theorem Member.of_ofStatus? {item : Item} {s : Status} {m : Member} (own : ofStatus? item s = some m) :
    m.item = item.name ∧ s.member? = some (m.name, m.type) := by
  obtain ⟨member, present, rfl⟩ := Option.map_eq_some_iff.mp own
  exact ⟨rfl, present⟩

/-- The steps of an enum between two versions are those of its items, in their order. -/
theorem Edge.Joins.variants {c : Container} {t : Timeline} {r s : Release} {e : Edge}
    (joins : e.Joins c t r s) (enum : c.kind = .enum) :
    e.steps = .variants
        (c.items.filterMap fun item => (VariantStep.along? c t e.direction r s item).toOption.join) ∧
      ∀ item ∈ c.items, ∃ step, VariantStep.along? c t e.direction r s item = .ok step := by
  have own := joins.made
  cases way : e.direction with
  | upgrade =>
    rw [way] at own
    have own : Edge.Made c t r s e := own
    cases own with
    | structUpgrade kind | structDowngrade kind => cases enum.symm.trans kind
    | enumUpgrade => exact ⟨rfl, fun item _ => ⟨_, rfl⟩⟩
    | enumDowngrade => cases way
  | downgrade =>
    rw [way] at own
    have own : Edge.Made c t s r e := own
    cases own with
    | structUpgrade kind | structDowngrade kind => cases enum.symm.trans kind
    | enumUpgrade => cases way
    | enumDowngrade _ steps each =>
      obtain ⟨rfl, all⟩ := eq_map_of_forall₂ each
      refine ⟨?_, all⟩
      rw [List.filterMap_map]
      rfl

namespace Generation.Made

variable {c : Container} {g : Generation} (made : Made c g) {r s : Release}
  (atR : r ∈ g.timeline.releases) (atS : s ∈ g.timeline.releases)
include made atR atS

/-- The variant that an item has in a version leads to that of the item in the next one, or to another
one there. -/
theorem along?_returns {d : Direction} (next : d.Steps r s) {item : Item} (listed : item ∈ c.items)
    {step : Option VariantStep} (run : VariantStep.along? c g.timeline d r s item = .ok step) :
    Option.Rel (VariantStep.Returns (c.definitionIn g.timeline s))
      (Member.ofStatus? item (item.statusIn c.kind g.timeline r)) step := by
  have there := made.memberOfItem?_eq listed s
  cases d with
  | upgrade =>
    cases run
    have keeps := VariantStep.upgrade?_keeps (made.follows atR atS next listed) there
    exact optionRel_imp (fun _ _ => VariantStep.Keeps.returns) keeps
  | downgrade => exact VariantStep.downgrade_returns (made.follows atS atR next listed) there run

/-- Only the step of its item leads away from a variant, as no other item has one of this name. -/
theorem eq_of_source {d : Direction} (next : d.Steps r s) {item other : Item} (listed : item ∈ c.items)
    (among : other ∈ c.items) {m : Member}
    (own : Member.ofStatus? item (item.statusIn c.kind g.timeline r) = some m) {step : VariantStep}
    (run : VariantStep.along? c g.timeline d r s other = .ok (some step)) (same : step.source = m.name) :
    other = item := by
  have rel := made.along?_returns atR atS next among run
  cases there : Member.ofStatus? other (other.statusIn c.kind g.timeline r) with
  | none =>
    rw [there] at rel
    cases rel
  | some n =>
    rw [there] at rel
    cases rel with
    | some leads =>
      exact made.item_of_name atR among listed (Member.of_ofStatus? there).2 (Member.of_ofStatus? own).2
        (leads.2.1.symm.trans same)

/-- The first step that leads away from a variant is that of its item. -/
theorem find?_variant (enum : c.kind = .enum) {e : Edge} (joins : e.Joins c g.timeline r s) {item : Item}
    (listed : item ∈ c.items) {m : Member}
    (own : Member.ofStatus? item (item.statusIn c.kind g.timeline r) = some m) :
    ∃ steps step, e.steps = .variants steps ∧
      steps.find? (fun s => Value.text s.source == .text m.name) = some step ∧
      VariantStep.along? c g.timeline e.direction r s item = .ok (some step) ∧
      step.Returns (c.definitionIn g.timeline s) m := by
  obtain ⟨steps, all⟩ := joins.variants enum
  obtain ⟨own?, run⟩ := all item listed
  have rel := made.along?_returns atR atS joins.step listed run
  rw [own] at rel
  cases rel with
  | @some _ step leads =>
    have found : (c.items.filterMap fun i =>
        (VariantStep.along? c g.timeline e.direction r s i).toOption.join).find?
          (fun s => Value.text s.source == .text m.name) =
        (VariantStep.along? c g.timeline e.direction r s item).toOption.join := by
      refine find?_filterMap listed (fun step' mine => ?_) (fun other among step' mine same => ?_)
      · rw [run] at mine
        cases mine
        exact Value.beq_text.mpr (congrArg Value.text leads.2.1)
      · obtain ⟨_, leaves⟩ := all other among
        rw [leaves] at mine
        cases mine
        exact made.eq_of_source atR atS joins.step listed among own leaves
          (Value.text.inj (Value.beq_text.mp same))
    rw [run] at found
    exact ⟨_, step, steps, found, run, leads⟩

end Generation.Made

namespace Conversion

variable {depths : Depths} {functions : Functions} {nesting : Nesting} {edge : Edge} {path : String} {p : Progress}

theorem applyEdge_of_variants {steps : List VariantStep} {step : VariantStep} {name : String} {v : Value}
    {carried : Option Value} (own : edge.steps = .variants steps)
    (found : steps.find? (fun s => Value.text s.source == .text name) = some step)
    (names : variantOf? v = some (.text name, carried)) :
    applyEdge depths functions nesting edge v path p =
      variantStep depths functions nesting edge path carried step (p.count edge.direction) := by
  have first : (modify fun p => p.count edge.direction : Run Unit) p =
      (.ok (), p.count edge.direction) := rfl
  rw [applyEdge, Run.bind_of_ok first]
  simp only [own, applyVariants, names, found]

theorem variantStep_unit (step : VariantStep) :
    variantStep depths functions nesting edge path none step = pure (.text step.target) := by
  cases step <;> rfl

end Conversion

/-- Whether a value is the name that a variant has in a version, and the variant is that of an item
if the item is there in the end. -/
def Container.Names (c : Container) (t : Timeline) (stop : Release) (item : Item) (r : Release)
    (v : Value) : Prop :=
  ∃ i ∈ c.items, ∃ m, Member.ofStatus? i (i.statusIn c.kind t r) = some m ∧ v = .text m.name ∧
    ((item.statusIn c.kind t stop).member? ≠ none → i = item)

/-- An edge between two versions makes the name of a variant of the next one out of the name of a
variant. -/
theorem Generation.Made.carries_names {c : Container} {g : Generation} (made : Made c g)
    (enum : c.kind = .enum) {start stop : Release} {item : Item}
    (present : (item.statusIn c.kind g.timeline start).member? ≠ none) (depths : Depths)
    (functions : Functions) (place : String) :
    g.Carries depths functions place ((Direction.toward start stop).Passes start stop)
      (fun r v _ => c.Names g.timeline stop item r v) (fun r v _ => c.Names g.timeline stop item r v) := by
  rintro r atR s atS passes e found nesting _ p ⟨i, among, m, own, rfl, same⟩
  have joins := made.edge_found atR atS found
  obtain ⟨steps, step, all, first, _, _, _, leads⟩ := made.find?_variant atR atS enum joins among own
  have run : Conversion.applyEdge depths functions nesting e (.text m.name) place p =
      (.ok (.text step.target), p.count e.direction) := by
    rw [Conversion.applyEdge_of_variants all first rfl, Conversion.variantStep_unit]
    rfl
  refine ⟨_, _, run, ?_⟩
  rw [(Member.of_ofStatus? own).1, made.memberOfItem?_eq among] at leads
  cases next : Member.ofStatus? i (i.statusIn c.kind g.timeline s) with
  | some after =>
    rw [next] at leads
    exact ⟨i, among, after, next, congrArg Value.text leads.2, same⟩
  | none =>
    -- The item was added on the way, so it is not the one that is there from the start to the end.
    rw [next] at leads
    have absent : (i.statusIn c.kind g.timeline s).member? = none := Option.map_eq_none_iff.mp next
    obtain ⟨j, there, after, presentJ, named⟩ := Container.mem_names_definitionIn.mp leads.2
    refine ⟨j, there, _, congrArg (Option.map _) presentJ, congrArg Value.text named.symm, fun kept => ?_⟩
    cases same kept
    rcases passes.le_target with below | below
    · exact absurd (Item.absent_of_le below absent) present
    · exact absurd (Item.absent_of_le below absent) kept

/-- The name of a variant is converted to the name of a variant wherever there is a way, and to that
of the same item if it is there. -/
theorem Runtime.convert_variant {ι : Type} {c : Container} {g : Generation} {rt : Runtime ι} {a b : String}
    {edges : List Edge} {first second : Definition} {m : Member} (run : Generation.ofContainer c = .ok g)
    (enum : c.kind = .enum) (own : rt.generation = g) (path : g.edgesBetween a b = .ok edges)
    (atA : g.definition a = .ok first) (atB : g.definition b = .ok second) (listed : m ∈ first.members)
    (room : Nat) (place : String) (p : Progress) :
    ∃ name q, rt.convert room a b (.text m.name) place p = (.ok (.text name), q) ∧
      name ∈ second.names ∧ ∀ n, second.memberOfItem? m.item = some n → name = n.name := by
  have made := Generation.made_of_ofContainer run
  obtain ⟨start, atStart, gotStart, rfl⟩ := made.definition_of_name atA
  obtain ⟨stop, atStop, gotStop, rfl⟩ := made.definition_of_name atB
  obtain ⟨_, rfl⟩ := made.sound.find?_iff.mp (Timeline.get_eq_ok_iff.mp gotStart)
  obtain ⟨_, rfl⟩ := made.sound.find?_iff.mp (Timeline.get_eq_ok_iff.mp gotStop)
  obtain ⟨item, among, present⟩ := List.mem_filterMap.mp listed
  obtain ⟨ofItem, there⟩ := Member.of_ofStatus? present
  have carries := @Generation.Made.carries_names c g made enum start stop item (by simp [there])
    .free rt.functions place
  have fits : c.Names g.timeline stop item start (.text m.name) :=
    ⟨item, among, m, present, rfl, fun _ => rfl⟩
  obtain ⟨w, q, converted, reached⟩ := carries.convert (fun _ _ _ _ names => names) own made.sound
    atStart atStop (made.sound.pathBetween_passes atStart atStop) room path (p := p) fits
  have names : c.Names g.timeline stop item stop w := by
    rcases reached with ⟨rfl, rfl, _⟩ | ⟨_, names⟩
    · exact fits
    · exact names
  obtain ⟨i, listed, after, own, rfl, same⟩ := names
  refine ⟨after.name, q, converted, ?_, fun n found => ?_⟩
  · exact List.mem_map_of_mem (List.mem_filterMap.mpr ⟨i, listed, own⟩)
  · rw [ofItem, made.memberOfItem?_eq among] at found
    cases same (by simp [(Member.of_ofStatus? found).2])
    rw [Option.some.inj (own.symm.trans found)]

/-- A variant that is added last falls back to one that had another name before. -/
theorem Runtime.convert_variant_signal :
    ∃ g edges first second m q, Generation.ofContainer Generation.signal = .ok g ∧
      g.edgesBetween "v3" "v1" = .ok edges ∧ g.definition "v3" = .ok first ∧
      g.definition "v1" = .ok second ∧ m ∈ first.members ∧ m.name = "Wait" ∧
      (single g .standard).convert 0 "v3" "v1" (.text "Wait") "" (Progress.start none) =
        (.ok (.text "Go"), q) ∧ "Go" ∈ second.names := by
  have facts : (Generation.ofContainer Generation.signal).toOption.map (fun g =>
      ((g.edgesBetween "v3" "v1").isOk, (g.definition "v1").isOk,
        (g.definition "v3").toOption.map (fun d => (d.member? "Wait").isSome),
        ((single g .standard).convert 0 "v3" "v1" (.text "Wait") "" (Progress.start none)).1.toOption.map
          (· == Value.text "Go"))) = some (true, true, some true, some true) := by decide +kernel
  obtain ⟨g, run, facts⟩ := exists_of_toOption_map facts
  simp only [Prod.mk.injEq] at facts
  obtain ⟨edges, path⟩ := exists_of_isOk facts.1
  obtain ⟨second, atB⟩ := exists_of_isOk facts.2.1
  obtain ⟨first, atA, waits⟩ := exists_of_toOption_map facts.2.2.1
  obtain ⟨m, found⟩ := Option.isSome_iff_exists.mp waits
  have named : m.name = "Wait" := by simpa using List.find?_some found
  obtain ⟨name, q, converted, known, _⟩ := convert_variant run rfl (rfl : (single g .standard).generation = g)
    path atA atB (List.mem_of_find?_eq_some found) 0 "" (Progress.start none)
  rw [named] at converted
  have go : name = "Go" := by simpa [converted, Except.toOption] using facts.2.2.2
  rw [go] at converted known
  exact ⟨g, edges, first, second, m, q, run, path, atA, atB, List.mem_of_find?_eq_some found, named,
    converted, known⟩

end Lineage
