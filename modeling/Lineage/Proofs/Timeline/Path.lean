import Mathlib.Data.List.Chain
import Lineage.Proofs.Timeline
import Lineage.Timeline.Path

namespace Lineage.Timeline

/-- Whether a version can come after another on a path from a start: the next one, not below the
start, or the previous one. -/
def Hops (start r s : Release) : Prop :=
  start.rank ≤ r.rank ∧ s.rank = r.rank + 1 ∨ r.rank = s.rank + 1

theorem between_append (t : Timeline) {lo mid hi : Nat} (first : lo ≤ mid) (second : mid ≤ hi) :
    t.between lo mid ++ t.between mid hi = t.between lo hi := by
  have front : t.between lo mid = (t.between lo hi).take (mid - lo) := by
    rw [between, between, ← List.drop_take, List.take_take, Nat.min_eq_left second]
  have back : t.between mid hi = (t.between lo hi).drop (mid - lo) := by
    rw [between, between, List.drop_drop]
    congr 1
    omega
  rw [front, back, List.take_append_drop]

theorem between_of_le (t : Timeline) {lo hi : Nat} (empty : hi ≤ lo) : t.between lo hi = [] := by
  rw [between, List.drop_eq_nil_iff, List.length_take]
  omega

theorem pathBetween_up (t : Timeline) {start stop : Release} (up : start.rank ≤ stop.rank) :
    t.pathBetween start stop = t.between (start.rank + 1) (stop.rank + 1) := by
  unfold pathBetween
  split
  · rfl
  · have same : start.rank = stop.rank := by omega
    rw [same, between_of_le t le_rfl, between_of_le t le_rfl, List.reverse_nil]

theorem pathBetween_down (t : Timeline) {start stop : Release} (down : stop.rank ≤ start.rank) :
    t.pathBetween start stop = (t.between stop.rank start.rank).reverse := by
  rw [pathBetween, if_neg (Nat.not_lt.mpr down)]

/-- A path is made up of those to and from every version on the way. -/
theorem pathBetween_append (t : Timeline) {start mid stop : Release}
    (through : start.rank ≤ mid.rank ∧ mid.rank ≤ stop.rank ∨
      stop.rank ≤ mid.rank ∧ mid.rank ≤ start.rank) :
    t.pathBetween start mid ++ t.pathBetween mid stop = t.pathBetween start stop := by
  rcases through with ⟨first, second⟩ | ⟨second, first⟩
  · rw [pathBetween_up t first, pathBetween_up t second, pathBetween_up t (first.trans second)]
    exact between_append t (by omega) (by omega)
  · rw [pathBetween_down t first, pathBetween_down t second, pathBetween_down t (second.trans first),
      ← List.reverse_append, between_append t second first]

theorem mem_pathBetween {t : Timeline} {start stop r : Release} (member : r ∈ t.pathBetween start stop) :
    r ∈ t.releases := by
  unfold pathBetween between at member
  split at member
  · exact List.mem_of_mem_take (List.mem_of_mem_drop member)
  · exact List.mem_of_mem_take (List.mem_of_mem_drop (List.mem_reverse.mp member))

theorem forall_mem_cons_pathBetween {t : Timeline} {start : Release} (atStart : start ∈ t.releases)
    (stop : Release) : ∀ r ∈ start :: t.pathBetween start stop, r ∈ t.releases :=
  List.forall_mem_cons.mpr ⟨atStart, fun _ member => mem_pathBetween member⟩

namespace Sound

variable {t : Timeline} (sound : t.Sound)
include sound

theorem rank_between {lo hi i : Nat} {r : Release} (atIndex : (t.between lo hi)[i]? = some r) :
    r.rank = lo + i := by
  rw [between, List.getElem?_drop, List.getElem?_take] at atIndex
  split at atIndex
  · exact sound.ranked atIndex
  · cases atIndex

theorem between_cons {r : Release} {hi : Nat} (member : r ∈ t.releases) (bound : r.rank < hi) :
    t.between r.rank hi = r :: t.between (r.rank + 1) hi := by
  have atRank : (t.releases.take hi)[r.rank]? = some r := by
    rw [List.getElem?_take, if_pos bound, sound.at_rank member]
  rw [between, List.drop_eq_getElem?_toList_append, atRank]
  rfl

theorem between_concat {r : Release} {lo : Nat} (member : r ∈ t.releases) (bound : lo ≤ r.rank) :
    t.between lo (r.rank + 1) = t.between lo r.rank ++ [r] := by
  have length := sound.rank_lt member
  rw [between, between, List.take_add_one, sound.at_rank member, Option.toList_some,
    List.drop_append_of_le_length]
  rw [List.length_take]
  omega

theorem between_isChain (lo hi : Nat) :
    (t.between lo hi).IsChain fun r s => lo ≤ r.rank ∧ s.rank = r.rank + 1 := by
  rw [List.isChain_iff_getElem]
  intro i bound
  have first := sound.rank_between (List.getElem?_eq_getElem (Nat.lt_of_succ_lt bound))
  have second := sound.rank_between (List.getElem?_eq_getElem bound)
  omega

theorem rank_of_mem_between {lo hi : Nat} {r : Release} (member : r ∈ t.between lo hi) : r.rank < hi := by
  obtain ⟨i, atIndex⟩ := List.mem_iff_getElem?.mp (List.mem_of_mem_drop member)
  rw [List.getElem?_take] at atIndex
  split at atIndex
  · rw [sound.ranked atIndex]
    assumption
  · cases atIndex

theorem rank_of_mem_pathBetween {start stop r : Release} (member : r ∈ t.pathBetween start stop) :
    r.rank ≤ stop.rank ∨ r.rank ≤ start.rank := by
  unfold pathBetween at member
  split at member
  · exact Or.inl (Nat.le_of_lt_succ (sound.rank_of_mem_between member))
  · exact Or.inr (sound.rank_of_mem_between (List.mem_reverse.mp member)).le

theorem cons_pathBetween_up {start stop : Release} (atStart : start ∈ t.releases)
    (up : start.rank ≤ stop.rank) :
    start :: t.pathBetween start stop = t.between start.rank (stop.rank + 1) := by
  rw [pathBetween_up t up, sound.between_cons atStart (Nat.lt_succ_of_le up)]

theorem cons_pathBetween_down {start stop : Release} (atStart : start ∈ t.releases)
    (down : stop.rank ≤ start.rank) :
    start :: t.pathBetween start stop = (t.between stop.rank (start.rank + 1)).reverse := by
  rw [pathBetween_down t down, sound.between_concat atStart down, List.reverse_append]
  rfl

/-- A path up goes from version to version, none of them below the start or above the end. -/
theorem pathBetween_climbs {start stop : Release} (atStart : start ∈ t.releases)
    (up : start.rank ≤ stop.rank) : (start :: t.pathBetween start stop).IsChain fun r s =>
      start.rank ≤ r.rank ∧ s.rank = r.rank + 1 ∧ s.rank ≤ stop.rank := by
  rw [sound.cons_pathBetween_up atStart up]
  refine (sound.between_isChain _ _).imp_of_mem_imp fun r s _ member hop => ⟨hop.1, hop.2, ?_⟩
  exact Nat.le_of_lt_succ (sound.rank_of_mem_between member)

/-- A path down goes from version to version. -/
theorem pathBetween_descends {start stop : Release} (atStart : start ∈ t.releases)
    (down : stop.rank ≤ start.rank) :
    (start :: t.pathBetween start stop).IsChain fun r s => r.rank = s.rank + 1 := by
  rw [sound.cons_pathBetween_down atStart down, List.isChain_reverse]
  exact (sound.between_isChain _ _).imp fun r s hop => hop.2

/-- A path goes from version to version, all the way up or all the way down. -/
theorem pathBetween_isChain {start : Release} (atStart : start ∈ t.releases) (stop : Release) :
    (start :: t.pathBetween start stop).IsChain (Hops start) := by
  rcases le_total start.rank stop.rank with up | down
  · exact (sound.pathBetween_climbs atStart up).imp fun r s hop => Or.inl ⟨hop.1, hop.2.1⟩
  · exact (sound.pathBetween_descends atStart down).imp fun r s hop => Or.inr hop

/-- A path between two versions ends in the second. -/
theorem getLast?_pathBetween {start stop : Release} (atStart : start ∈ t.releases)
    (atStop : stop ∈ t.releases) (different : start ≠ stop) :
    (t.pathBetween start stop).getLast? = some stop := by
  unfold pathBetween
  split
  · rename_i up
    rw [sound.between_concat atStop (by omega), List.getLast?_concat]
  · rename_i down
    have below : stop.rank ≠ start.rank := fun same => different (sound.eq_of_rank atStart atStop same.symm)
    rw [List.getLast?_reverse, sound.between_cons atStop (by omega)]
    rfl

/-- A path has as many steps as the ranks of its ends are apart. -/
theorem length_pathBetween {start stop : Release} (atStart : start ∈ t.releases) (atStop : stop ∈ t.releases) :
    (t.pathBetween start stop).length = max start.rank stop.rank - min start.rank stop.rank := by
  have first := sound.rank_lt atStart
  have last := sound.rank_lt atStop
  unfold pathBetween between
  split
  · rw [List.length_drop, List.length_take]
    omega
  · rw [List.length_reverse, List.length_drop, List.length_take]
    omega

/-- The way back passes the same versions in reverse. -/
theorem reverse_cons_pathBetween {start stop : Release} (atStart : start ∈ t.releases)
    (atStop : stop ∈ t.releases) :
    (start :: t.pathBetween start stop).reverse = stop :: t.pathBetween stop start := by
  rcases le_total start.rank stop.rank with up | down
  · rw [sound.cons_pathBetween_up atStart up, sound.cons_pathBetween_down atStop up]
  · rw [sound.cons_pathBetween_down atStart down, sound.cons_pathBetween_up atStop down, List.reverse_reverse]

end Sound

end Lineage.Timeline
