import Lineage.Proofs.Conversion.Hop
import Lineage.Proofs.Edge

namespace Lineage

namespace FieldStep

/-- The step of an item on the way from a version to the next one. -/
def along? (c : Container) (t : Timeline) (d : Direction) (r s : Release) (item : Item) : Option FieldStep :=
  match d with
  | .upgrade => upgrade? item (item.statusIn c.kind t r) (item.statusIn c.kind t s)
  | .downgrade => downgrade? item (item.statusIn c.kind t s) (item.statusIn c.kind t r)

end FieldStep

/-- What is lost of an item on the way from a version to the next one. -/
def Dropped.along? (c : Container) (t : Timeline) (d : Direction) (r s : Release) (item : Item) :
    Option Dropped :=
  match d with
  | .upgrade => none
  | .downgrade => ofStatuses? item (item.statusIn c.kind t s) (item.statusIn c.kind t r)

/-- The steps of a struct between two versions are those of its items, in their order. -/
theorem Edge.Joins.fields {c : Container} {t : Timeline} {r s : Release} {e : Edge}
    (joins : e.Joins c t r s) (struct : c.kind = .struct) :
    e.steps = .fields (c.items.filterMap (FieldStep.along? c t e.direction r s))
      (c.items.filterMap (Dropped.along? c t e.direction r s)) := by
  have own := joins.made
  cases way : e.direction with
  | upgrade =>
    rw [way] at own
    have own : Edge.Made c t r s e := own
    have nothing : c.items.filterMap (Dropped.along? c t .upgrade r s) = [] :=
      List.filterMap_eq_nil_iff.mpr fun _ _ => rfl
    rw [nothing]
    cases own with
    | structUpgrade => rfl
    | structDowngrade => cases way
    | enumUpgrade kind | enumDowngrade kind => cases struct.symm.trans kind
  | downgrade =>
    rw [way] at own
    have own : Edge.Made c t s r e := own
    cases own with
    | structUpgrade => cases way
    | structDowngrade => rfl
    | enumUpgrade kind | enumDowngrade kind => cases struct.symm.trans kind

namespace Generation.Made

variable {c : Container} {g : Generation} (made : Made c g) {r s : Release} {d : Direction}
  (atR : r ∈ g.timeline.releases) (atS : s ∈ g.timeline.releases) (hop : d.Steps r s) {item : Item}
  (listed : item ∈ c.items)
include made atR atS hop listed

/-- A step writes to the name that its item has in the target version. -/
theorem along?_target {step : FieldStep} (own : FieldStep.along? c g.timeline d r s item = some step) :
    ∃ m, (item.statusIn c.kind g.timeline s).member? = some m ∧ step.target = m.1 := by
  cases d with
  | upgrade =>
    have pair := made.follows atR atS hop listed
    change FieldStep.upgrade? item _ _ = some step at own
    generalize item.statusIn c.kind g.timeline r = old at pair own
    generalize item.statusIn c.kind g.timeline s = new at pair own ⊢
    cases pair with
    | absent => cases own
    | added name type a =>
      cases own
      exact ⟨_, rfl, rfl⟩
    | carried source target before told after =>
      obtain ⟨_, same, _, _, leads⟩ := FieldStep.upgrade?_of_carried item before after told
      cases own.symm.trans same
      exact ⟨target, after, leads⟩
  | downgrade =>
    have pair := made.follows atS atR hop listed
    change FieldStep.downgrade? item _ _ = some step at own
    generalize item.statusIn c.kind g.timeline r = new at pair own
    generalize item.statusIn c.kind g.timeline s = old at pair own ⊢
    cases pair with
    | absent | added => cases own
    | carried source target before told after =>
      obtain ⟨_, same, _, _, leads⟩ := FieldStep.downgrade?_of_present item before after
      cases own.symm.trans same
      exact ⟨source, before, leads⟩

/-- A step reads from the name that its item has in the source version. -/
theorem along?_source {step : FieldStep} (own : FieldStep.along? c g.timeline d r s item = some step)
    {source : String} (reads : step.source? = some source) :
    ∃ m, (item.statusIn c.kind g.timeline r).member? = some m ∧ source = m.1 := by
  cases d with
  | upgrade =>
    have pair := made.follows atR atS hop listed
    change FieldStep.upgrade? item _ _ = some step at own
    generalize item.statusIn c.kind g.timeline r = old at pair own ⊢
    generalize item.statusIn c.kind g.timeline s = new at pair own
    cases pair with
    | absent => cases own
    | added name type a =>
      cases own
      cases reads
    | carried before after present told there =>
      obtain ⟨_, same, _, leads, _⟩ := FieldStep.upgrade?_of_carried item present there told
      cases own.symm.trans same
      exact ⟨before, present, Option.some.inj (reads.symm.trans leads)⟩
  | downgrade =>
    have pair := made.follows atS atR hop listed
    change FieldStep.downgrade? item _ _ = some step at own
    generalize item.statusIn c.kind g.timeline r = new at pair own ⊢
    generalize item.statusIn c.kind g.timeline s = old at pair own
    cases pair with
    | absent | added => cases own
    | carried before after present told there =>
      obtain ⟨_, same, _, leads, _⟩ := FieldStep.downgrade?_of_present item present there
      cases own.symm.trans same
      exact ⟨after, there, Option.some.inj (reads.symm.trans leads)⟩

/-- An item whose type is kept is carried over wherever it is in both versions. -/
theorem along?_kept (keeps : item.KeepsType) {m n : String × Option String}
    (before : (item.statusIn c.kind g.timeline r).member? = some m)
    (after : (item.statusIn c.kind g.timeline s).member? = some n) :
    FieldStep.along? c g.timeline d r s item =
      some (FieldStep.carry item m.1 n.1 item.type item.type) := by
  have typeR := Item.type_of_statusIn keeps before
  have typeS := Item.type_of_statusIn keeps after
  cases d with
  | upgrade =>
    have told := (made.follows atR atS hop listed).predecessor?_eq before
    have step := @FieldStep.upgrade?_kept item _ _ _ _ (Item.altersType_statusIn keeps s) before after told
    rwa [typeR, typeS] at step
  | downgrade =>
    have step := @FieldStep.downgrade?_kept item _ _ _ _ (Item.altersType_statusIn keeps r) after before
    rwa [typeR, typeS] at step

end Generation.Made

end Lineage
