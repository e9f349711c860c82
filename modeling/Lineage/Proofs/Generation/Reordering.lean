import Lineage.Proofs.Generation.Insertion
import Lineage.Proofs.History.Reordering

namespace Lineage

/-- Whether two definitions differ by the order of their members only. -/
def Definition.Reordered (d d' : Definition) : Prop :=
  ∃ members, d.members.Perm members ∧ d' = { d with members := members }

theorem Definition.Reordered.names_perm {d d' : Definition} (reordered : d.Reordered d') :
    d.names.Perm d'.names := by
  obtain ⟨members, perm, rfl⟩ := reordered
  exact perm.map _

/-- Whether steps, and the fields that they drop, differ by their order only. -/
inductive Steps.Reordered : Steps → Steps → Prop
  | fields {steps steps' : List FieldStep} {dropped dropped' : List Dropped} (perm : steps.Perm steps')
      (drops : dropped.Perm dropped') : Reordered (.fields steps dropped) (.fields steps' dropped')
  | variants {steps steps' : List VariantStep} (perm : steps.Perm steps') :
      Reordered (.variants steps) (.variants steps')

/-- Whether two edges differ by the order of what they do only. -/
def Edge.Reordered (e e' : Edge) : Prop :=
  ∃ steps, e.steps.Reordered steps ∧ e' = { e with steps := steps }

namespace Container.Reordered

variable {c c' : Container} (reordered : c.Reordered c')
include reordered

theorem exists_items : ∃ items, c' = { c with items := items } := by
  obtain ⟨_, items, _, _, same⟩ := reordered
  exact ⟨items, same⟩

variable {t : Timeline} (legal : ∀ item ∈ c.items, item.Legal t)
include legal

/-- What is read off the items and their statuses, but not off their changes, comes in another order only. -/
theorem statuses_perm {α : Type} {f : Item → Status → Status → Option α}
    (unread : ∀ item changes old new, f { item with changes := changes } old new = f item old new)
    (older newer : Release) :
    (c.items.filterMap fun item => f item (item.statusIn c.kind t older) (item.statusIn c.kind t newer)).Perm
      (c'.items.filterMap fun item => f item (item.statusIn c.kind t older) (item.statusIn c.kind t newer)) := by
  refine reordered.filterMap_perm fun item own item' copy => ?_
  rw [copy.statusIn_eq (legal item own), copy.statusIn_eq (legal item own)]
  obtain ⟨changes, _, rfl⟩ := copy
  exact unread item changes _ _

theorem definitionIn (r : Release) : (c.definitionIn t r).Reordered (c'.definitionIn t r) := by
  have members := reordered.statuses_perm legal (f := fun item s _ => Member.ofStatus? item s)
    (fun _ _ _ _ => rfl) r r
  obtain ⟨_, rfl⟩ := reordered.exists_items
  exact ⟨_, members, rfl⟩

theorem mem_names_iff (r : Release) (name : String) :
    name ∈ (c'.definitionIn t r).names ↔ name ∈ (c.definitionIn t r).names :=
  (reordered.definitionIn legal r).names_perm.mem_iff.symm

theorem collidesIn_iff (r : Release) : c'.CollidesIn t r ↔ c.CollidesIn t r :=
  not_congr (reordered.definitionIn legal r).names_perm.nodup_iff.symm

theorem collision {r : Release} {names : List String} (found : c.Collision t r names) :
    c'.Collision t r names where
  first := (isFirst_congr fun s _ => (reordered.collidesIn_iff legal s).symm).mp found.first
  ascending := found.ascending
  shared name := by
    rw [found.shared, List.duplicate_iff_two_le_count, List.duplicate_iff_two_le_count,
      (reordered.definitionIn legal r).names_perm.count_eq]

section Stranded

variable {older newer : Release}

/-- An item is stranded exactly if its copy in another order is. -/
theorem stranded_iff {item item' : Item} (copy : item.Reordered item') :
    (∃ cause, item'.Stranded c' t older newer cause) ↔ ∃ cause, item.Stranded c t older newer cause := by
  have strands : ∀ (a : Addition) name name', (∃ cause, a.Strands (c'.definitionIn t older) name' cause) ↔
      ∃ cause, a.Strands (c.definitionIn t older) name cause := by
    intro a name name'
    simp only [Addition.exists_strands_iff, reordered.mem_names_iff legal]
  obtain ⟨_, _, rfl⟩ := copy
  constructor
  · rintro ⟨cause, a, own, here, stranded⟩
    obtain ⟨cause, stranded⟩ := (strands a _ _).mp ⟨cause, stranded⟩
    exact ⟨cause, a, own, here, stranded⟩
  · rintro ⟨cause, a, own, here, stranded⟩
    obtain ⟨cause, stranded⟩ := (strands a _ _).mpr ⟨cause, stranded⟩
    exact ⟨cause, a, own, here, stranded⟩

theorem exists_stranded_iff : (∃ item ∈ c'.items, ∃ cause, item.Stranded c' t older newer cause) ↔
    ∃ item ∈ c.items, ∃ cause, item.Stranded c t older newer cause := by
  constructor
  · rintro ⟨item', listed, stranded⟩
    obtain ⟨item, own, copy⟩ := reordered.symm.exists_copy listed
    exact ⟨item, own, (reordered.stranded_iff legal copy.symm).mp stranded⟩
  · rintro ⟨item, own, stranded⟩
    obtain ⟨item', listed, copy⟩ := reordered.exists_copy own
    exact ⟨item', listed, (reordered.stranded_iff legal copy).mpr stranded⟩

theorem strandsBetween_iff (pair : Release × Release) : c'.StrandsBetween t pair ↔ c.StrandsBetween t pair :=
  and_congr_right fun _ => reordered.exists_stranded_iff legal

/-- Between the same versions a variant cannot go down, though another may be found first. -/
theorem irreversible {item : Item} {cause : IrreversibleCause}
    (found : c.Irreversible t older newer item cause) :
    ∃ item' cause', c'.Irreversible t older newer item' cause' := by
  have pair : IsFirst (c'.StrandsBetween t) t.adjacentPairs (older, newer) :=
    (isFirst_congr fun pair _ => (reordered.strandsBetween_iff legal pair).symm).mp found.pair
  obtain ⟨item', first⟩ := exists_isFirst.mpr pair.1.2
  obtain ⟨cause', stranded⟩ := first.1
  obtain ⟨_, rfl⟩ := reordered.exists_items
  exact ⟨item', cause', found.enum, found.converted, pair, first, stranded⟩

end Stranded

/-- The steps of variants on the way down do the same things, in another order. -/
theorem downgrades_perm {older newer : Release} {name : String} {steps steps' : List (Option VariantStep)}
    (each : List.Forall₂ (fun item step => VariantStep.downgrade name item (item.statusIn c.kind t older)
      (item.statusIn c.kind t newer) older newer (some (c.definitionIn t older)) = .ok step) c.items steps)
    (each' : List.Forall₂ (fun item step => VariantStep.downgrade name item (item.statusIn c.kind t older)
      (item.statusIn c.kind t newer) older newer (some (c'.definitionIn t older)) = .ok step) c'.items steps') :
    (steps.filterMap id).Perm (steps'.filterMap id) := by
  obtain ⟨rfl, made⟩ := eq_map_of_forall₂ each
  obtain ⟨rfl, _⟩ := eq_map_of_forall₂ each'
  rw [List.filterMap_map, List.filterMap_map]
  refine reordered.filterMap_perm fun item listed item' copy => ?_
  obtain ⟨step, run⟩ := made item listed
  -- A step down looks a fallback up among the names of the older definition, whose order does not matter.
  have again : VariantStep.downgrade name item (item.statusIn c.kind t older) (item.statusIn c.kind t newer)
      older newer (some (c'.definitionIn t older)) = .ok step :=
    VariantStep.downgrade_congr rfl (reordered.mem_names_iff legal older) run
  simp only [Function.comp_apply, id_eq, copy.statusIn_eq (legal item listed), run]
  obtain ⟨_, _, rfl⟩ := copy
  exact congrArg (fun result => (Except.toOption result).join) again

/-- The edges between two versions do the same things, in another order. -/
theorem edge {older newer : Release} {e e' : Edge} (own : Edge.Made c t older newer e)
    (other : Edge.Made c' t older newer e') (direction : e.direction = e'.direction) : e.Reordered e' := by
  obtain ⟨items, rfl⟩ := reordered.exists_items
  cases own with
  | structUpgrade kind =>
    cases other with
    | structUpgrade =>
      exact ⟨_, .fields (reordered.statuses_perm legal (fun _ _ _ _ => rfl) older newer) .rfl, rfl⟩
    | structDowngrade => cases direction
    | enumUpgrade enum | enumDowngrade enum => cases kind.symm.trans enum
  | structDowngrade kind =>
    cases other with
    | structDowngrade =>
      exact ⟨_, .fields (reordered.statuses_perm legal (fun _ _ _ _ => rfl) older newer)
        (reordered.statuses_perm legal (fun _ _ _ _ => rfl) older newer), rfl⟩
    | structUpgrade => cases direction
    | enumUpgrade enum | enumDowngrade enum => cases kind.symm.trans enum
  | enumUpgrade kind =>
    cases other with
    | enumUpgrade =>
      exact ⟨_, .variants (reordered.statuses_perm legal (fun _ _ _ _ => rfl) older newer), rfl⟩
    | enumDowngrade => cases direction
    | structUpgrade struct | structDowngrade struct => cases kind.symm.trans struct
  | enumDowngrade kind steps each =>
    cases other with
    | enumDowngrade _ steps' each' =>
      exact ⟨_, .variants (reordered.downgrades_perm legal each each'), rfl⟩
    | enumUpgrade => cases direction
    | structUpgrade struct | structDowngrade struct => cases kind.symm.trans struct

end Container.Reordered

namespace Generation

theorem Made.ends_of_edge? {c : Container} {g : Generation} (made : Made c g) {a b : String} {e : Edge}
    (found : g.edge? a b = some e) :
    ∃ r ∈ g.timeline.releases, ∃ s ∈ g.timeline.releases,
      r.name = a ∧ s.name = b ∧ e.Joins c g.timeline r s := by
  obtain ⟨r, atR, s, atS, joins⟩ := made.joins_of_mem (List.mem_of_find?_eq_some found)
  have connects := List.find?_some found
  simp only [Edge.connects, Bool.and_eq_true, beq_iff_eq, joins.source, joins.target] at connects
  exact ⟨r, atR, s, atS, connects.1, connects.2, joins⟩

/-- Edges of two containers go together if those that are made between the same versions, in one direction, do. -/
theorem Made.edge?_rel {R : Edge → Edge → Prop} {c c' : Container} {g g' : Generation} (made : Made c g)
    (made' : Made c' g') (timeline : g'.timeline = g.timeline) (converts : ∀ r, c'.Converts r ↔ c.Converts r)
    (each : ∀ {older newer e e'}, Edge.Made c g.timeline older newer e → Edge.Made c' g.timeline older newer e' →
      e.direction = e'.direction → R e e') (source target : String) :
    Option.Rel R (g.edge? source target) (g'.edge? source target) := by
  cases first : g.edge? source target with
  | some e =>
    obtain ⟨r, atR, s, atS, rfl, rfl, joins⟩ := made.ends_of_edge? first
    obtain ⟨e', second⟩ := (made'.exists_edge?_iff (timeline ▸ atR) (timeline ▸ atS) joins.step).mpr
      ((converts _).mpr joins.converts)
    have other := made'.edge_found (timeline ▸ atR) (timeline ▸ atS) second
    have direction := Direction.eq_of_steps joins.step other.step
    have own := other.made
    rw [← direction, timeline] at own
    rw [second]
    exact .some (each joins.made own direction)
  | none =>
    cases second : g'.edge? source target with
    | none => exact .none
    | some e' =>
      obtain ⟨r, atR, s, atS, rfl, rfl, joins⟩ := made'.ends_of_edge? second
      obtain ⟨e, found⟩ := (made.exists_edge?_iff (timeline ▸ atR) (timeline ▸ atS) joins.step).mpr
        ((converts _).mp joins.converts)
      cases first.symm.trans found

/-- How the generation of two containers ends alike: both yield definitions and edges that differ by an
order only, or both fail for the same reason, though other problems, or another variant, may be told of. -/
inductive EndsAlike : Except Failure Generation → Except Failure Generation → Prop
  | generated {g g' : Generation} (timeline : g'.timeline = g.timeline)
      (definitions : ∀ name ∈ g.timeline.names, ∃ d d', g.definition name = .ok d ∧
        g'.definition name = .ok d' ∧ d.Reordered d')
      (edges : ∀ source target, Option.Rel Edge.Reordered (g.edge? source target) (g'.edge? source target)) :
      EndsAlike (.ok g) (.ok g')
  | invalid {container : String} {problems problems' : List Problem} :
      EndsAlike (.error (.invalid container problems)) (.error (.invalid container problems'))
  | collision {container version : String} {names : List String} :
      EndsAlike (.error (.collision container version names)) (.error (.collision container version names))
  | irreversible {container item item' source target : String} {cause cause' : IrreversibleCause} :
      EndsAlike (.error (.irreversible container item source target cause))
        (.error (.irreversible container item' source target cause'))

section Made

variable {c c' : Container} {g g' : Generation} (reordered : c.Reordered c') (made : Made c g)
  (made' : Made c' g') (timeline : g'.timeline = g.timeline)
include reordered made made' timeline

theorem definitions_reordered {name : String} (declared : name ∈ g.timeline.names) :
    ∃ d d', g.definition name = .ok d ∧ g'.definition name = .ok d' ∧ d.Reordered d' := by
  obtain ⟨r, member, rfl⟩ := List.mem_map.mp declared
  refine ⟨_, _, made.definition_name member, made'.definition_name (timeline ▸ member), ?_⟩
  rw [timeline]
  exact reordered.definitionIn made.legal r

theorem edges_reordered (source target : String) :
    Option.Rel Edge.Reordered (g.edge? source target) (g'.edge? source target) := by
  have converts : ∀ r, c'.Converts r ↔ c.Converts r := by
    obtain ⟨_, rfl⟩ := reordered.exists_items
    exact fun r => Iff.rfl
  exact made.edge?_rel made' timeline converts (fun own other => reordered.edge made.legal own other) source target

end Made

/-- The order in which items are declared, and changes of items, does not matter: generation ends alike. -/
theorem ofContainer_reordered {c c' : Container} (reordered : c.Reordered c') :
    EndsAlike (ofContainer c) (ofContainer c') := by
  obtain ⟨_, same⟩ := reordered.exists_items
  have name : c'.name = c.name := by rw [same]
  have options : c'.options = c.options := by rw [same]
  have timeline : c'.timeline = c.timeline := by
    rw [same]
    rfl
  by_cases well : c.WellFormed c.options.allowUnsorted
  · have well' : c'.WellFormed c'.options.allowUnsorted := by
      rw [options]
      exact reordered.wellFormed well
    obtain ⟨_, _, legal, _⟩ := ofContainer_of_wellFormed well
    have distinct : (∀ r ∈ c.timeline.releases, ¬ c.CollidesIn c.timeline r) →
        ∀ r ∈ c'.timeline.releases, ¬ c'.CollidesIn c'.timeline r := by
      intro free r member
      rw [timeline] at member ⊢
      rw [reordered.collidesIn_iff legal]
      exact free r member
    -- How the second run ends is told by how the first one does.
    cases first : ofContainer c with
    | error failure =>
      rcases (ofContainer_eq_error_iff well).mp first with
        ⟨r, names, collision, rfl⟩ | ⟨free, older, newer, item, cause, irreversible, rfl⟩
      · have second := (ofContainer_eq_error_iff well').mpr
          (.inl ⟨r, names, timeline ▸ reordered.collision legal collision, rfl⟩)
        rw [second, name]
        exact .collision
      · obtain ⟨item', cause', other⟩ := reordered.irreversible legal irreversible
        have second := (ofContainer_eq_error_iff well').mpr
          (.inr ⟨distinct free, older, newer, item', cause', timeline ▸ other, rfl⟩)
        rw [second, name]
        exact .irreversible
    | ok g =>
      obtain ⟨free, reversible⟩ := (exists_ofContainer_eq_ok_iff well).mp ⟨g, first⟩
      obtain ⟨g', second⟩ := (exists_ofContainer_eq_ok_iff well').mpr ⟨distinct free, by
        rw [timeline, options]
        simp only [reordered.strandsBetween_iff legal]
        obtain ⟨_, rfl⟩ := reordered.exists_items
        exact reversible⟩
      have made := made_of_ofContainer first
      have made' := made_of_ofContainer second
      have same : g'.timeline = g.timeline := by
        rw [(wellFormed_of_ofContainer first).2, (wellFormed_of_ofContainer second).2, timeline]
      rw [second]
      exact .generated same (fun _ => definitions_reordered reordered made made' same)
        (edges_reordered reordered made made' same)
  · have ill : ¬ c'.WellFormed c'.options.allowUnsorted := by
      rw [options]
      exact fun well' => well (reordered.symm.wellFormed well')
    rw [ofContainer_of_not_wellFormed well, ofContainer_of_not_wellFormed ill, name]
    exact .invalid

/-- A container with a field that got two other names and a field that was added. -/
def notice : Container where
  name := "Notice"
  kind := .struct
  doc := none
  versions := ["v1", "v2", "v3"].map Declaration.named
  items := [⟨"title", some "str", none, none, false, none,
      [⟨"v2", some "name", none, none, none⟩, ⟨"v3", some "label", none, none, none⟩], none⟩,
    ⟨"body", some "str", none, none, false, some ⟨"v2", none, none, none⟩, [], none⟩]
  options := ⟨true, false⟩
  resource := none

/-- A notice and its copy with all items in reverse order are generated alike. -/
theorem ofContainer_reordered_notice : ∃ g g', ofContainer notice = .ok g ∧
    ofContainer notice.backward = .ok g' ∧
    (∀ name ∈ g.timeline.names, ∃ d d', g.definition name = .ok d ∧ g'.definition name = .ok d' ∧
      d.Reordered d') ∧
    ∀ source target, Option.Rel Edge.Reordered (g.edge? source target) (g'.edge? source target) := by
  have well : notice.WellFormed notice.options.allowUnsorted :=
    Container.check_eq_nil_iff.mp (by decide +kernel)
  have distinct : ∀ r ∈ notice.timeline.releases, (notice.definitionIn notice.timeline r).names.Nodup := by
    decide +kernel
  obtain ⟨g, run⟩ := (exists_ofContainer_eq_ok_iff well).mpr
    ⟨fun r member collides => collides (distinct r member), fun ⟨enum, _⟩ => nomatch enum⟩
  have alike := ofContainer_reordered notice.reordered_backward
  rw [run] at alike
  generalize ofContainer notice.backward = result at alike ⊢
  cases alike with
  | generated _ definitions edges => exact ⟨g, _, run, rfl, definitions, edges⟩

end Generation

end Lineage
