import Lineage.Proofs.History

namespace Lineage

/-- How the statuses of an item fit together in two versions that follow each other: it stays
absent, it is added, or the newer status tells what the older one was. -/
inductive Status.Follows : Status → Status → Prop
  | absent : Follows .absent .absent
  | added (name : String) (type : Option String) (a : Addition) : Follows .absent (.added name type a)
  | carried {old new : Status} (source target : String × Option String)
      (before : old.member? = some source) (told : new.predecessor? = some source)
      (after : new.member? = some target) : Follows old new

theorem Status.Follows.before_added {old : Status} {name : String} {type : Option String} {a : Addition}
    (follows : old.Follows (.added name type a)) : old = .absent := by
  cases follows with
  | added => rfl
  | carried source target before told after => cases told

theorem Status.Follows.absent_iff {old new : Status} (follows : old.Follows new)
    (notAdded : ∀ name type a, new ≠ .added name type a) : old.member? = none ↔ new.member? = none := by
  cases follows with
  | absent => exact Iff.rfl
  | added name type a => exact absurd rfl (notAdded name type a)
  | carried source target before told after => simp [before, after]

theorem Status.Follows.exists_added {old new : Status} {n : String × Option String} (follows : old.Follows new)
    (before : old.member? = none) (after : new.member? = some n) : ∃ a, new = .added n.1 n.2 a := by
  cases follows with
  | absent => cases after
  | added name type a =>
    cases after
    exact ⟨a, rfl⟩
  | carried source target present => cases present.symm.trans before

/-- What the older status tells of an item, the newer one tells that it was. -/
theorem Status.Follows.predecessor?_eq {old new : Status} {m : String × Option String} (follows : old.Follows new)
    (before : old.member? = some m) : new.predecessor? = some m := by
  cases follows with
  | absent | added => cases before
  | carried source target present told =>
    rw [← before, present]
    exact told

namespace Item

variable {kind : Kind} {t : Timeline} {item : Item} (sound : t.Sound) (legal : item.Legal t)

/-- An item that is added in a version has the addition that its history tells of. -/
theorem additionIn_of_statusIn {r : Release} {name : String} {type : Option String} {a : Addition}
    (status : item.statusIn kind t r = .added name type a) : item.additionIn r = some a := by
  rcases member : item.memberIn kind t r with ⟨name', type'⟩
  simp only [statusIn, member] at status
  split at status
  · cases status
  split at status
  · rename_i addition
    cases status
    exact addition
  · cases status
  · split at status <;> cases status
  · split at status <;> cases status

theorem added_of_statusIn {r : Release} {name : String} {type : Option String} {a : Addition}
    (status : item.statusIn kind t r = .added name type a) : item.added = some a :=
  (additionIn_eq_some.mp (additionIn_of_statusIn status)).1

include sound legal

theorem addition_of_crossing {older newer : Release} (there : newer ∈ t.releases)
    (next : newer.rank = older.rank + 1) (before : item.isBeforeAddition t older = true)
    (present : item.isBeforeAddition t newer = false) :
    ∃ a, item.added = some a ∧ a.since = newer.name := by
  obtain ⟨a, own, above⟩ := isBeforeAddition_iff.mp before
  refine ⟨a, own, ?_⟩
  have atMost : ¬ newer.rank < t.rankOf a.since := by
    intro below
    rw [isBeforeAddition_iff.mpr ⟨a, own, below⟩] at present
    cases present
  exact ((sound.name_iff_rank there (legal.added_declared own)).mpr (by omega)).symm

/-- The statuses of an item in two versions that follow each other fit together. -/
theorem statusIn_follows {older newer : Release} (atOlder : older ∈ t.releases)
    (there : newer ∈ t.releases) (next : newer.rank = older.rank + 1) :
    (item.statusIn kind t older).Follows (item.statusIn kind t newer) := by
  cases before : item.isBeforeAddition t older with
  | true =>
    rw [statusIn_of_before before]
    cases present : item.isBeforeAddition t newer with
    | true =>
      rw [statusIn_of_before present]
      exact .absent
    | false =>
      obtain ⟨a, own, here⟩ := addition_of_crossing sound legal there next before present
      rw [statusIn_of_addition sound legal there own here]
      exact .added _ _ _
  | false =>
    have present := present_of_le (by omega : older.rank ≤ newer.rank) before
    have noAddition : item.additionIn newer = none := by
      refine Option.eq_none_iff_forall_not_mem.mpr fun a addition => ?_
      obtain ⟨own, here⟩ := additionIn_eq_some.mp addition
      have rank := sound.rankOf_name there
      rw [isBeforeAddition_iff.mpr ⟨a, own, by rw [here, rank]; omega⟩] at before
      cases before
    refine .carried (item.memberIn kind t older) (item.memberIn kind t newer) ?_ ?_ ?_
    · rw [member?_statusIn, before, if_neg Bool.false_ne_true]
    · rw [predecessor?_statusIn sound legal there present noAddition,
        memberBefore_of_next sound atOlder next]
    · rw [member?_statusIn, present, if_neg Bool.false_ne_true]

end Item

end Lineage
