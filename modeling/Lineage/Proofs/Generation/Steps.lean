import Lineage.Edge.Generate
import Lineage.Proofs.History.Adjacency

namespace Lineage

/-- Whether a status tells of a change of the type only where the type is another. -/
def Status.IsProper : Status → Prop
  | changed _ fromType _ toType _ _ => fromType ≠ toType
  | _ => True

/-- A change that keeps the type of an item is told of as a renaming. -/
theorem Item.isProper_statusIn (kind : Kind) (t : Timeline) (item : Item) (r : Release) :
    (item.statusIn kind t r).IsProper := by
  rcases member : item.memberIn kind t r with ⟨name, type⟩
  simp only [statusIn, member]
  split
  · trivial
  split
  · trivial
  · trivial
  · split
    · trivial
    · rename_i other
      exact other
  · split <;> trivial

namespace FieldStep

/-- The step of an item from its status in one version to that in the next, where both fit together. -/
def upgrade? (item : Item) (old new : Status) : Option FieldStep :=
  match new, old.member? with
  | .absent, _ => none
  | .added name type a, _ => some (.default item.name name type a.supplier a.default)
  | .changed _ fromType toName toType upgradeWith _, some (source, _) =>
    some (convert item upgradeWith source toName fromType toType)
  | s, some (source, fromType) =>
    s.member?.map fun (target, toType) => carry item source target fromType toType
  | _, none => none

/-- The step of an item back to its status in the version before, where both fit together. -/
def downgrade? (item : Item) (old new : Status) : Option FieldStep :=
  match new, old.member? with
  | .changed _ fromType toName toType _ downgradeWith, some (target, _) =>
    some (convert item downgradeWith toName target toType fromType)
  | s, some (target, toType) =>
    s.member?.map fun (source, fromType) => carry item source target fromType toType
  | _, none => none

end FieldStep

/-- The step of a variant from its status in one version to that in the next, where both fit together. -/
def VariantStep.upgrade? (item : Item) (old new : Status) : Option VariantStep :=
  match new, old.member? with
  | .absent, _ | .added _ _ _, _ => none
  | .changed _ fromType toName toType upgradeWith _, some (source, _) =>
    some (.keep item.name source toName upgradeWith fromType toType item.nested)
  | s, some (source, fromType) =>
    s.member?.map fun (target, toType) => carry item source target fromType toType
  | _, none => none

section Fitting

variable (item : Item) {old new : Status} (follows : old.Follows new)
include follows

/-- No step fails between statuses that fit together. -/
theorem FieldStep.upgrade_eq (proper : new.IsProper) : upgrade item old new = .ok (upgrade? item old new) := by
  cases follows with
  | absent | added => rfl
  | carried source target before told after =>
    have there : old.member = .ok source := by rw [Status.member, before]
    cases new with
    | added | absent => cases told
    | changed fromName fromType toName toType upgradeWith downgradeWith =>
      have apart : fromType ≠ toType := proper
      simp only [upgrade, upgrade?, there, before, if_neg apart]
      rfl
    | renamed | deprecated | unchanged =>
      simp only [upgrade, upgrade?, there, before]
      rfl

/-- A step down never lacks a predecessor, as statuses that follow each other have them. -/
theorem FieldStep.downgrade_eq (proper : new.IsProper) :
    downgrade item old new = .ok (downgrade? item old new) := by
  cases follows with
  | absent | added => rfl
  | carried source target before told after =>
    cases new with
    | added | absent => cases told
    | changed fromName fromType toName toType upgradeWith downgradeWith =>
      have apart : fromType ≠ toType := proper
      simp only [downgrade, downgrade?, before, if_neg apart]
    | renamed | deprecated | unchanged =>
      simp only [downgrade, downgrade?, before]
      rfl

theorem VariantStep.upgrade_eq : upgrade item old new = .ok (upgrade? item old new) := by
  cases follows with
  | absent | added => rfl
  | carried source target before told after =>
    have there : old.member = .ok source := by rw [Status.member, before]
    cases new with
    | added | absent => cases told
    | changed | renamed | deprecated | unchanged =>
      simp only [upgrade, upgrade?, there, before]
      rfl

end Fitting

end Lineage
