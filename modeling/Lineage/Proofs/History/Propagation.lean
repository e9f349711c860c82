import Lineage.Proofs.History

namespace Lineage

namespace Item

theorem deprecationBefore_eq_none {t : Timeline} {item : Item} {r : Release}
    (unmarked : ∀ d, item.deprecated = some d → r.rank ≤ t.rankOf d.since) :
    item.deprecationBefore t r = none := by
  refine Option.eq_none_iff_forall_not_mem.mpr fun d marked => ?_
  obtain ⟨own, after⟩ := deprecationBefore_eq_some.mp marked
  exact Nat.not_lt.mpr (unmarked d own) after

section Propagation

variable {kind : Kind} {t : Timeline} {item : Item} (sound : t.Sound) (legal : item.Legal t)
include sound legal

theorem rankOf_addition_ne {r : Release} (member : r ∈ t.releases) (quiet : item.IsQuiet r)
    {a : Addition} (own : item.added = some a) : t.rankOf a.since ≠ r.rank := by
  intro same
  have here := (sound.name_iff_rank member (legal.added_declared own)).mpr same.symm
  exact acts_of_addition own here.symm quiet

theorem rankOf_deprecation_ne {r : Release} (member : r ∈ t.releases) (quiet : item.IsQuiet r)
    {d : Deprecation} (own : item.deprecated = some d) : t.rankOf d.since ≠ r.rank := by
  intro same
  have here := (sound.name_iff_rank member (legal.deprecated_declared own)).mpr same.symm
  exact acts_of_deprecation own here.symm quiet

/-- In a version without an action of its own an item is what it became in the preceding one. -/
theorem statusIn_next {p r : Release} (there : p ∈ t.releases) (member : r ∈ t.releases)
    (next : r.rank = p.rank + 1) (quiet : item.IsQuiet r) :
    item.statusIn kind t r = (item.statusIn kind t p).later := by
  have same : item.memberIn kind t r = item.memberIn kind t p := by
    rw [memberIn, memberIn, ← next, undoneFrom_rank sound member, undoIn_of_isQuiet quiet]
    rfl
  cases before : item.isBeforeAddition t p with
  | true =>
    obtain ⟨a, own, below⟩ := isBeforeAddition_iff.mp before
    have different := rankOf_addition_ne sound legal member quiet own
    rw [statusIn_of_before before,
      statusIn_of_before (isBeforeAddition_iff.mpr ⟨a, own, by omega⟩), Status.later]
  | false =>
    rw [statusIn_of_quiet quiet (present_of_le (by omega) before), same]
    have rank := sound.rankOf_name there
    cases legal.happens p with
    | nothing noAddition noDeprecation noChange =>
      have quietBefore : item.IsQuiet p := ⟨noAddition, noDeprecation, noChange⟩
      have marks : item.deprecationBefore t r = item.deprecationBefore t p := by
        refine Option.ext fun d => ?_
        rw [deprecationBefore_eq_some, deprecationBefore_eq_some]
        refine and_congr_right fun own => ?_
        have different := rankOf_deprecation_ne sound legal there quietBefore own
        omega
      rw [statusIn_of_quiet quietBefore before, marks, Status.later]
    | addition a own here =>
      have unmarked : item.deprecationBefore t r = none := deprecationBefore_eq_none fun d deprecated => by
        have ordered := legal.added_before_deprecated a own d deprecated
        rw [here, rank] at ordered
        omega
      rw [statusIn_of_addition sound legal there own here, unmarked]
      rfl
    | deprecation d own here noAddition =>
      have marked : item.deprecationBefore t r = some d :=
        deprecationBefore_eq_some.mpr ⟨own, by rw [here, rank]; omega⟩
      rw [statusIn_of_deprecation sound legal there own here noAddition, marked]
      rfl
    | change c own here noAddition noDeprecation single =>
      have unmarked : item.deprecationBefore t r = none := deprecationBefore_eq_none fun d deprecated => by
        have ordered := legal.deprecated_last d deprecated c own
        rw [here, rank] at ordered
        omega
      rw [statusIn_of_change sound legal there own here noAddition noDeprecation single, unmarked]
      split <;> rfl

/-- An item whose first action does not add it was never added. -/
theorem added_eq_none_of_first {s : Release} (there : s ∈ t.releases) (acts : ¬ item.IsQuiet s)
    (quiet : ∀ p ∈ t.releases, p.rank < s.rank → item.IsQuiet p) (noAddition : item.additionIn s = none) :
    item.added = none := by
  refine Option.eq_none_iff_forall_not_mem.mpr fun a own => ?_
  obtain ⟨q, member, name⟩ := List.mem_map.mp (legal.added_declared own)
  have acting : ¬ item.IsQuiet q := acts_of_addition own name.symm
  have atMost : ¬ s.rank < q.rank := by
    intro after
    have before := isBeforeAddition_iff.mpr ⟨a, own, by rwa [← name, sound.rankOf_name member]⟩
    exact acts (isQuiet_of_before sound legal there before)
  have different : q.rank ≠ s.rank := by
    intro same
    have here := additionIn_eq_some.mpr ⟨own, name.symm⟩
    rw [sound.eq_of_rank member there same, noAddition] at here
    cases here
  exact acting (quiet q member (by omega))

/-- In the versions before its first action an item is what that action made something else of. -/
theorem statusIn_first {r s : Release} (member : r ∈ t.releases) (there : s ∈ t.releases)
    (first : r.rank = 0) (acts : ¬ item.IsQuiet s)
    (quiet : ∀ p ∈ t.releases, p.rank < s.rank → item.IsQuiet p) (below : r.rank < s.rank) :
    (item.statusIn kind t s).earlier item.name = .ok (item.statusIn kind t r) := by
  have same : item.memberIn kind t r = item.memberBefore kind t s := by
    rw [memberBefore_eq sound there, memberIn]
    exact undoneFrom_of_quiet sound (by omega) fun p member _ => quiet p member
  have quietFirst := quiet r member below
  have unmarked : item.deprecationBefore t r = none :=
    deprecationBefore_eq_none fun d _ => by omega
  cases addition : item.additionIn s with
  | some a =>
    obtain ⟨own, here⟩ := additionIn_eq_some.mp addition
    have rank := sound.rankOf_name there
    rw [statusIn_of_addition sound legal there own here,
      statusIn_of_before (isBeforeAddition_iff.mpr ⟨a, own, by rw [here, rank]; exact below⟩)]
    rfl
  | none =>
    have never := added_eq_none_of_first sound legal there acts quiet addition
    have present : item.isBeforeAddition t r = false := by simp [isBeforeAddition, never]
    have inPlace := present_of_not_quiet sound legal there acts
    rw [statusIn_of_quiet quietFirst present, unmarked, same]
    exact Status.earlier_of_predecessor? (predecessor?_statusIn sound legal there inPlace addition) _

end Propagation

/-- An item without a history is in all versions what it is declared as. -/
theorem statusIn_of_no_history {kind : Kind} {t : Timeline} {item : Item}
    (idle : item.hasHistory = false) (r : Release) :
    item.statusIn kind t r = .unchanged item.name item.type false none := by
  simp only [hasHistory, Bool.or_eq_false_iff, Option.isSome_eq_false_iff, Option.isNone_iff_eq_none,
    Bool.not_eq_false', List.isEmpty_iff] at idle
  obtain ⟨⟨noAddition, noChange⟩, noDeprecation⟩ := idle
  have quiet : ∀ s, item.IsQuiet s := fun s => by
    simp [IsQuiet, additionIn, changesIn, deprecationIn, noAddition, noChange, noDeprecation]
  have declared : item.memberIn kind t r = (item.name, item.type) := by
    have same : item.undoIn kind = fun _ member => member := by
      funext s member
      exact undoIn_of_isQuiet (quiet s) member
    rw [memberIn, undoneFrom, same, List.foldr_fixed]
  rw [statusIn_of_quiet (quiet r) (by simp [isBeforeAddition, noAddition]), declared]
  simp [deprecationBefore, noDeprecation]

end Item

end Lineage
