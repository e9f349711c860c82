import Lineage.Proofs.Generation.Verdict
import Lineage.Proofs.History.Insertion
import Lineage.Proofs.Timeline.Sublist

namespace Lineage

/-- The container with other versions. -/
def Container.withVersions (c : Container) (versions : List Declaration) : Container :=
  { c with versions := versions }

theorem Status.member?_later (s : Status) : s.later.member? = s.member? := by
  cases s <;> rfl

/-- Whether a variant is stranded depends on the names of the older version only. -/
theorem Addition.exists_strands_iff {older : Definition} {name : String} {a : Addition} :
    (∃ cause, a.Strands older name cause) ↔ ∀ f, filled? a.fallback = some f → f ∉ older.names := by
  simp only [strands_iff]
  cases filled? a.fallback with
  | none => simp
  | some f => simp

section Older

variable {old old' : Status} (same : old'.member? = old.member?) (item : Item) (new : Status)
include same

theorem FieldStep.upgrade?_congr : upgrade? item old' new = upgrade? item old new := by
  unfold upgrade?
  rw [same]

theorem FieldStep.downgrade?_congr : downgrade? item old' new = downgrade? item old new := by
  unfold downgrade?
  rw [same]

theorem Dropped.ofStatuses?_congr : ofStatuses? item old' new = ofStatuses? item old new := by
  unfold ofStatuses? Status.isPresent
  rw [same]

theorem VariantStep.upgrade?_congr : upgrade? item old' new = upgrade? item old new := by
  unfold upgrade?
  rw [same]

end Older

/-- A step down depends on the older version by what the item is in it, and by its names. -/
theorem VariantStep.downgrade_congr {container : String} {item : Item} {old old' new : Status}
    {older newer older' newer' : Release} {d d' : Definition} {step : Option VariantStep}
    (same : old'.member? = old.member?) (names : ∀ name, name ∈ d'.names ↔ name ∈ d.names)
    (run : downgrade container item old new older newer (some d) = .ok step) :
    downgrade container item old' new older' newer' (some d') = .ok step := by
  unfold downgrade at run ⊢
  rw [same]
  cases after : new.member? with
  | none => simpa only [after] using run
  | some target =>
    cases before : old.member? with
    | some source => simpa only [after, before] using run
    | none =>
      simp only [after, before] at run ⊢
      cases falls : fallbackOf? new with
      | none =>
        simp only [falls] at run
        cases run
      | some variant =>
        have known : (d'.member? variant).isNone = (d.member? variant).isNone := by
          rw [Bool.eq_iff_iff, Definition.member?_isNone_iff, Definition.member?_isNone_iff, names]
        simp only [falls, Option.any_some, known] at run ⊢
        split at run
        · cases run
        · rename_i there
          rw [if_neg there]
          exact run

theorem Edge.Made.of_withVersions {c : Container} {versions : List Declaration} {t : Timeline}
    {older newer : Release} {e : Edge} (own : Made (c.withVersions versions) t older newer e) :
    Made c t older newer e := by
  cases own with
  | structUpgrade kind => exact .structUpgrade kind
  | structDowngrade kind => exact .structDowngrade kind
  | enumUpgrade kind => exact .enumUpgrade kind
  | enumDowngrade kind steps each => exact @enumDowngrade c t older newer kind steps each

/-- Edges in one direction have the same steps if the items have the same names and types in the older
versions and the same statuses in the newer ones. -/
theorem Edge.Made.steps_eq {c : Container} {t u : Timeline} {older newer older' newer' : Release}
    {e e' : Edge} (own : Made c t older newer e) (other : Made c u older' newer' e')
    (direction : e.direction = e'.direction)
    (below : ∀ item ∈ c.items,
      (item.statusIn c.kind u older').member? = (item.statusIn c.kind t older).member?)
    (above : ∀ item ∈ c.items, item.statusIn c.kind u newer' = item.statusIn c.kind t newer) :
    e.steps = e'.steps := by
  cases own with
  | structUpgrade kind =>
    cases other with
    | structUpgrade =>
      refine congrArg (Steps.fields · []) (List.filterMap_congr fun item listed => ?_)
      rw [above item listed, FieldStep.upgrade?_congr (below item listed)]
    | structDowngrade => cases direction
    | enumUpgrade enum | enumDowngrade enum => cases kind.symm.trans enum
  | structDowngrade kind =>
    cases other with
    | structDowngrade =>
      refine congrArg₂ Steps.fields (List.filterMap_congr fun item listed => ?_)
        (List.filterMap_congr fun item listed => ?_)
      · rw [above item listed, FieldStep.downgrade?_congr (below item listed)]
      · rw [above item listed, Dropped.ofStatuses?_congr (below item listed)]
    | structUpgrade => cases direction
    | enumUpgrade enum | enumDowngrade enum => cases kind.symm.trans enum
  | enumUpgrade kind =>
    cases other with
    | enumUpgrade =>
      refine congrArg Steps.variants (List.filterMap_congr fun item listed => ?_)
      rw [above item listed, VariantStep.upgrade?_congr (below item listed)]
    | enumDowngrade => cases direction
    | structUpgrade struct | structDowngrade struct => cases kind.symm.trans struct
  | enumDowngrade kind steps each =>
    cases other with
    | enumDowngrade _ steps' each' =>
      obtain ⟨rfl, _⟩ := eq_map_of_forall₂ each'
      obtain ⟨rfl, made⟩ := eq_map_of_forall₂ each
      have names : (c.definitionIn u older').names = (c.definitionIn t older).names := by
        rw [Container.names_definitionIn, Container.names_definitionIn]
        exact List.filterMap_congr fun item listed => by rw [below item listed]
      refine congrArg (fun steps => Steps.variants (steps.filterMap id)) (List.map_congr_left fun item listed => ?_)
      obtain ⟨step, run⟩ := made item listed
      have again : VariantStep.downgrade c.name item (item.statusIn c.kind u older')
          (item.statusIn c.kind t newer) older' newer' (some (c.definitionIn u older')) = .ok step :=
        VariantStep.downgrade_congr (below item listed) (fun name => by rw [names]) run
      rw [above item listed, run, again]
    | enumUpgrade => cases direction
    | structUpgrade struct | structDowngrade struct => cases kind.symm.trans struct

theorem Edge.Joins.of_withVersions {c : Container} {versions : List Declaration} {t : Timeline} {r s : Release}
    {e : Edge} (joins : e.Joins (c.withVersions versions) t r s) : e.Joins c t r s :=
  ⟨joins.source, joins.target, joins.step, joins.converts, joins.made.of_withVersions⟩

/-- Edges in two timelines have the same steps if the items are alike below and have equal statuses above. -/
theorem Edge.Joins.steps_eq {c : Container} {t u : Timeline} {d : Direction} {r s r' s' : Release}
    {e e' : Edge} (joins : e.Joins c t r s) (joins' : e'.Joins c u r' s') (hop : d.Steps r s)
    (hop' : d.Steps r' s')
    (below : ∀ item ∈ c.items, (item.statusIn c.kind u (d.older r' s')).member? =
      (item.statusIn c.kind t (d.older r s)).member?)
    (above : ∀ item ∈ c.items, item.statusIn c.kind u (d.newer r' s') =
      item.statusIn c.kind t (d.newer r s)) : e.steps = e'.steps := by
  have way := Direction.eq_of_steps joins.step hop
  have way' := Direction.eq_of_steps joins'.step hop'
  have own := joins.made
  have other := joins'.made
  rw [way] at own
  rw [way'] at other
  exact own.steps_eq other (way.trans way'.symm) below above

namespace Timeline.Inserts

variable {t u : Timeline} {p m : Release} (inserts : t.Inserts u p m)
include inserts

/-- A version that is not new follows the one that it followed before, or the new one. -/
theorem exists_older {older newer : Release} (atOlder : older ∈ u.releases) (atNewer : newer ∈ u.releases)
    (next : newer.rank = older.rank + 1) (other : newer ≠ m) :
    ∃ r ∈ t.releases, ∃ s ∈ t.releases, s.rank = r.rank + 1 ∧ newer = s.movedAfter p.rank ∧
      (older = r.movedAfter p.rank ∨ older = m ∧ r = p) := by
  have atP := inserts.mem_old
  have rankM := inserts.rank_new
  rcases inserts.mem_iff.mp atNewer with new | ⟨s, atS, rfl⟩
  · exact absurd new other
  rw [Release.movedAfter_rank] at next
  rcases inserts.mem_iff.mp atOlder with rfl | ⟨r, atR, rfl⟩
  · refine ⟨p, atP, s, atS, ?_, rfl, Or.inr ⟨rfl, rfl⟩⟩
    split at next <;> omega
  · refine ⟨r, atR, s, atS, ?_, rfl, Or.inl rfl⟩
    rw [Release.movedAfter_rank] at next
    -- Between a version up to `p` and one after it the ranks would leave room for the new version.
    split at next <;> split at next <;> omega

end Timeline.Inserts

namespace Generation

theorem wellFormed_of_ofContainer {c : Container} {g : Generation} (run : ofContainer c = .ok g) :
    c.WellFormed c.options.allowUnsorted ∧ g.timeline = c.timeline := by
  obtain ⟨v, valid, generated⟩ := exists_of_bind run
  obtain ⟨well, rfl⟩ := Container.wellFormed_of_validate valid
  obtain ⟨chains, _, generated⟩ := exists_of_bind generated
  obtain ⟨definitions, _, generated⟩ := exists_of_bind generated
  obtain ⟨edges, _, generated⟩ := exists_of_bind generated
  cases generated
  exact ⟨well, rfl⟩

section Insertion

variable {c : Container} {t u : Timeline} {p m r : Release} (inserts : t.Inserts u p m)
  (legal : ∀ item ∈ c.items, item.Legal t)
include inserts legal

theorem definitionIn_inserts (member : r ∈ t.releases) :
    (c.definitionIn u (r.movedAfter p.rank)).members = (c.definitionIn t r).members := by
  rw [Container.members_definitionIn, Container.members_definitionIn]
  exact List.filterMap_congr fun item listed => by
    rw [Item.statusIn_inserts inserts (legal item listed) member]

theorem names_inserts (member : r ∈ t.releases) :
    (c.definitionIn u (r.movedAfter p.rank)).names = (c.definitionIn t r).names := by
  rw [Definition.names, definitionIn_inserts inserts legal member]
  rfl

variable (result : ∀ item ∈ c.items, item.Legal u)
include result

/-- In the version that is inserted nothing is told but that there was no change. -/
theorem definitionIn_new : (c.definitionIn u m).members =
    (c.definitionIn t p).members.map fun member => { member with status := "no_change" } := by
  rw [Container.members_definitionIn, Container.members_definitionIn, List.map_filterMap]
  refine List.filterMap_congr fun item listed => ?_
  rw [Item.statusIn_new inserts (legal item listed) (result item listed)]
  cases item.statusIn c.kind t p <;> rfl

theorem names_new : (c.definitionIn u m).names = (c.definitionIn t p).names := by
  rw [Definition.names, definitionIn_new inserts legal result, List.map_map]
  rfl

theorem not_collides_inserts (distinct : ∀ r ∈ t.releases, ¬ c.CollidesIn t r) :
    ∀ s ∈ u.releases, ¬ c.CollidesIn u s := by
  intro s atS
  unfold Container.CollidesIn
  rcases inserts.mem_iff.mp atS with rfl | ⟨r, atR, rfl⟩
  · rw [names_new inserts legal result]
    exact distinct p inserts.mem_old
  · rw [names_inserts inserts legal atR]
    exact distinct r atR

/-- An insertion strands no variant where none was stranded before. -/
theorem not_strands_inserts (goes : p.skipFrom = false)
    (reversible : ∀ pair ∈ t.adjacentPairs, ¬ c.StrandsBetween t pair) :
    ∀ pair ∈ u.adjacentPairs, ¬ c.StrandsBetween u pair := by
  rintro ⟨older, newer⟩ adjacent ⟨leads, item, listed, cause, a, own, here, strands⟩
  obtain ⟨atOlder, atNewer, next⟩ := inserts.result.mem_adjacentPairs.mp adjacent
  have other : newer ≠ m := by
    rintro rfl
    exact inserts.name_new (here ▸ (legal item listed).added_declared own)
  obtain ⟨r, atR, s, atS, step, rfl, from_⟩ := inserts.exists_older atOlder atNewer next other
  rw [Release.movedAfter_name] at here
  have kept : r.skipFrom = false ∧ (c.definitionIn u older).names = (c.definitionIn t r).names := by
    rcases from_ with rfl | ⟨rfl, rfl⟩
    · exact ⟨(Release.movedAfter_skipFrom _ _).symm.trans leads, names_inserts inserts legal atR⟩
    · exact ⟨goes, names_new inserts legal result⟩
  obtain ⟨cause', strands'⟩ : ∃ cause', a.Strands (c.definitionIn t r) (item.memberIn c.kind t s).1 cause' :=
    Addition.exists_strands_iff.mpr (kept.2 ▸ Addition.exists_strands_iff.mp ⟨cause, strands⟩)
  exact reversible (r, s) (inserts.sound.mem_adjacentPairs.mpr ⟨atR, atS, step⟩)
    ⟨kept.1, item, listed, cause', a, own, here, strands'⟩

end Insertion

/-- Two generations of containers that differ in a further version only, which is directly after another.
Both of them lead on to the version after. -/
structure Inserts (c : Container) (versions : List Declaration) (g g' : Generation) (p m : Release) :
    Prop where
  made : Made c g
  result : Made (c.withVersions versions) g'
  inserts : g.timeline.Inserts g'.timeline p m
  goes : p.skipFrom = false
  leads : m.skipFrom = false

/-- A container still generates after a version was inserted that says nothing of its own. -/
theorem exists_inserts {c : Container} {g : Generation} {front back : List Declaration} {p m : Declaration}
    (run : ofContainer c = .ok g) (versions : c.versions = front ++ p :: back)
    (goes : p.skipFrom = false) (leads : m.skipFrom = false)
    (clean : checkDeclarations c.options.allowUnsorted (front ++ p :: m :: back) = []) :
    ∃ g' r s, ofContainer (c.withVersions (front ++ p :: m :: back)) = .ok g' ∧
      r.name = p.name ∧ s.name = m.name ∧ Inserts c (front ++ p :: m :: back) g g' r s := by
  have made := made_of_ofContainer run
  obtain ⟨well, same⟩ := wellFormed_of_ofContainer run
  obtain ⟨r, s, nameR, skipR, nameS, skipS, inserts⟩ :=
    Timeline.exists_inserts (versions ▸ well.versions) clean
  rw [← versions] at inserts
  have sub : (c.versions.map (·.name)).Sublist ((front ++ p :: m :: back).map (·.name)) := by
    rw [versions]
    exact (List.Sublist.append_left ((List.sublist_cons_self m back).cons_cons p) front).map _
  have distinct := (checkDeclarations_eq_nil clean).2.2
  have well' : (c.withVersions (front ++ p :: m :: back)).WellFormed
      (c.withVersions (front ++ p :: m :: back)).options.allowUnsorted :=
    { versions := clean
      items := fun item listed => (well.items item listed).of_sublist sub distinct
      storage := fun r own version declared filled => sub.subset (well.storage r own version declared filled) }
  obtain ⟨_, _, legal', _⟩ := ofContainer_of_wellFormed well'
  obtain ⟨free, reversible⟩ := (exists_ofContainer_eq_ok_iff well).mp ⟨g, run⟩
  have legal := same ▸ made.legal
  obtain ⟨g', run'⟩ := (exists_ofContainer_eq_ok_iff well').mpr
    ⟨not_collides_inserts inserts legal legal' free, fun ⟨enum, converted, pair, adjacent, strands⟩ =>
      not_strands_inserts inserts legal legal' (skipR.trans goes)
        (fun pair adjacent strands => reversible ⟨enum, converted, pair, adjacent, strands⟩)
        pair adjacent strands⟩
  refine ⟨g', r, s, run', nameR, nameS, made, made_of_ofContainer run', ?_, skipR.trans goes,
    skipS.trans leads⟩
  rw [same, (wellFormed_of_ofContainer run').2]
  exact inserts

end Generation

end Lineage
