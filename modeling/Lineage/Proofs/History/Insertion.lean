import Lineage.Proofs.History.Propagation
import Lineage.Proofs.Timeline.Insertion

namespace Lineage

namespace Item

/-- What happens to an item in a version does not depend on the rank of the version. -/
theorem undoIn_movedAfter (kind : Kind) (item : Item) (last : Nat) (r : Release) :
    item.undoIn kind (r.movedAfter last) = item.undoIn kind r := by
  unfold undoIn changesIn deprecationIn
  rw [Release.movedAfter_name]

theorem foldr_movedAfter (kind : Kind) (item : Item) (last : Nat) (rs : List Release)
    (member : String × Option String) :
    (rs.map (Release.movedAfter last)).foldr (item.undoIn kind) member =
      rs.foldr (item.undoIn kind) member := by
  rw [List.foldr_map]
  simp only [undoIn_movedAfter]

section Insertion

variable {kind : Kind} {t u : Timeline} {p m r : Release} {item : Item} (inserts : t.Inserts u p m)
  (legal : item.Legal t)
include inserts legal

/-- Nothing happens in the version that is inserted. -/
theorem isQuiet_of_inserts : item.IsQuiet m := by
  have apart : ∀ {name : String}, name ∈ t.names → name ≠ m.name := by
    rintro name declared rfl
    exact inserts.name_new declared
  refine ⟨?_, ?_, ?_⟩
  · rw [Option.eq_none_iff_forall_ne_some]
    intro a here
    obtain ⟨own, since⟩ := additionIn_eq_some.mp here
    exact apart (legal.added_declared own) since
  · rw [Option.eq_none_iff_forall_ne_some]
    intro d here
    obtain ⟨own, since⟩ := deprecationIn_eq_some.mp here
    exact apart (legal.deprecated_declared own) since
  · rw [List.eq_nil_iff_forall_not_mem]
    intro c here
    obtain ⟨own, since⟩ := mem_changesIn.mp here
    exact apart (legal.change_declared own) since

/-- Undoing what happens after a version that was there before is the same with an inserted version. -/
theorem undoneFrom_of_le_inserts {rank : Nat} (low : rank ≤ p.rank + 1) :
    item.undoneFrom kind u rank = item.undoneFrom kind t rank := by
  obtain ⟨before, after, old, length, _, _, new⟩ := inserts.releases_eq
  have skip : ∀ member, item.undoIn kind m member = member :=
    undoIn_of_isQuiet (isQuiet_of_inserts inserts legal)
  have inside : rank ≤ (before.map (Release.movedAfter p.rank)).length := by
    rw [List.length_map]
    omega
  unfold undoneFrom
  rw [old, new, List.drop_append_of_le_length inside, List.drop_append_of_le_length (by omega),
    List.foldr_append, List.foldr_append, List.foldr_cons, skip, ← List.map_drop, foldr_movedAfter,
    foldr_movedAfter]

omit legal in
theorem undoneFrom_of_lt_inserts {rank : Nat} (high : p.rank < rank) :
    item.undoneFrom kind u (rank + 1) = item.undoneFrom kind t rank := by
  obtain ⟨before, after, old, length, _, _, new⟩ := inserts.releases_eq
  obtain ⟨more, rfl⟩ := Nat.exists_eq_add_of_lt high
  have place : p.rank + more + 1 = before.length + more := by omega
  have moved : p.rank + more + 1 + 1 = (before.map (Release.movedAfter p.rank)).length + (more + 1) := by
    rw [List.length_map]
    omega
  unfold undoneFrom
  rw [old, new, moved, place, List.drop_length_add_append, List.drop_length_add_append, List.drop_succ_cons,
    ← List.map_drop, foldr_movedAfter]

theorem memberIn_inserts (r : Release) :
    item.memberIn kind u (r.movedAfter p.rank) = item.memberIn kind t r := by
  unfold memberIn
  rw [Release.movedAfter_rank]
  split
  · exact undoneFrom_of_le_inserts inserts legal (by omega)
  · exact undoneFrom_of_lt_inserts inserts (by omega)

theorem memberBefore_inserts (member : r ∈ t.releases) :
    item.memberBefore kind u (r.movedAfter p.rank) = item.memberBefore kind t r := by
  rw [memberBefore_eq inserts.result (inserts.mem_moved member), memberBefore_eq inserts.sound member,
    Release.movedAfter_rank]
  split
  · exact undoneFrom_of_le_inserts inserts legal (by omega)
  · exact undoneFrom_of_lt_inserts inserts (by omega)

theorem isBeforeAddition_inserts (r : Release) :
    item.isBeforeAddition u (r.movedAfter p.rank) = item.isBeforeAddition t r := by
  unfold isBeforeAddition
  cases own : item.added with
  | none => rfl
  | some a =>
    simp only [Option.any_some, decide_eq_decide]
    rw [Release.movedAfter_rank, inserts.rankOf_moved (legal.added_declared own)]
    split <;> split <;> omega

theorem deprecationBefore_inserts (r : Release) :
    item.deprecationBefore u (r.movedAfter p.rank) = item.deprecationBefore t r := by
  unfold deprecationBefore
  cases own : item.deprecated with
  | none => rfl
  | some d =>
    have same : u.rankOf d.since < (r.movedAfter p.rank).rank ↔ t.rankOf d.since < r.rank := by
      rw [Release.movedAfter_rank, inserts.rankOf_moved (legal.deprecated_declared own)]
      split <;> split <;> omega
    simp only [Option.filter_some, same]

/-- An insertion leaves the history of an item alone. -/
theorem statusIn_inserts (member : r ∈ t.releases) :
    item.statusIn kind u (r.movedAfter p.rank) = item.statusIn kind t r := by
  have sameAddition : item.additionIn (r.movedAfter p.rank) = item.additionIn r := by
    unfold additionIn
    rw [Release.movedAfter_name]
  have sameDeprecation : item.deprecationIn (r.movedAfter p.rank) = item.deprecationIn r := by
    unfold deprecationIn
    rw [Release.movedAfter_name]
  have sameChanges : item.changesIn (r.movedAfter p.rank) = item.changesIn r := by
    unfold changesIn
    rw [Release.movedAfter_name]
  unfold statusIn
  rw [memberBefore_inserts inserts legal member, memberIn_inserts inserts legal,
    isBeforeAddition_inserts inserts legal, deprecationBefore_inserts inserts legal, sameAddition,
    sameDeprecation, sameChanges]

/-- In the version that is inserted an item is what it is after the version before. -/
theorem statusIn_new (result : item.Legal u) :
    item.statusIn kind u m = (item.statusIn kind t p).later := by
  have atP := inserts.mem_moved inserts.mem_old
  have same : item.statusIn kind u (p.movedAfter p.rank) = item.statusIn kind t p :=
    statusIn_inserts inserts legal inserts.mem_old
  have stays : p.movedAfter p.rank = p := if_pos le_rfl
  rw [stays] at atP same
  rw [statusIn_next inserts.result result atP inserts.mem_new inserts.rank_new
    (isQuiet_of_inserts inserts legal), same]

end Insertion

end Item

end Lineage
