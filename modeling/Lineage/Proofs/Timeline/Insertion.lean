import Lineage.Proofs.Generation.Edges

namespace Lineage

/-- The release one rank later. -/
def Release.later (r : Release) : Release :=
  { r with rank := r.rank + 1 }

/-- The release of a version once another version stands after a rank. -/
def Release.movedAfter (last : Nat) (r : Release) : Release :=
  if r.rank ≤ last then r else r.later

/-- Whether one timeline is another with a further version directly after one of them. -/
structure Timeline.Inserts (t u : Timeline) (p m : Release) : Prop where
  sound : t.Sound
  result : u.Sound
  split : ∃ before after, t.releases = before ++ p :: after ∧
    u.releases = before ++ p :: m :: after.map Release.later

theorem Release.movedAfter_name (last : Nat) (r : Release) : (r.movedAfter last).name = r.name := by
  unfold movedAfter
  split <;> rfl

theorem Release.movedAfter_skipFrom (last : Nat) (r : Release) :
    (r.movedAfter last).skipFrom = r.skipFrom := by
  unfold movedAfter
  split <;> rfl

theorem Release.movedAfter_rank (last : Nat) (r : Release) :
    (r.movedAfter last).rank = if r.rank ≤ last then r.rank else r.rank + 1 := by
  unfold movedAfter
  split <;> rfl

theorem Release.movedAfter_rank_le {last : Nat} {r s : Release} (le : r.rank ≤ s.rank) :
    (r.movedAfter last).rank ≤ (s.movedAfter last).rank := by
  rw [movedAfter_rank, movedAfter_rank]
  split <;> split <;> omega

/-- Versions that follow each other still do, unless the new one stands between them. -/
theorem Direction.steps_movedAfter {d : Direction} {r s : Release} {last : Nat} (hop : d.Steps r s)
    (apart : (d.older r s).rank ≠ last) : d.Steps (r.movedAfter last) (s.movedAfter last) := by
  have one := Release.movedAfter_rank last r
  have two := Release.movedAfter_rank last s
  cases d <;> simp only [Direction.Steps, Direction.older] at hop apart ⊢ <;> rw [one, two] <;>
    split <;> split <;> omega

namespace Timeline

/-- The releases of two lists of declarations are those of the first and then those of the second. -/
theorem releasesFrom_append {front back : List Declaration}
    (parsed : ∀ d ∈ front, ∃ version, Version.parse (some d.name) = .ok version) (rank : Nat) :
    releasesFrom rank (front ++ back) = releasesFrom rank front ++ releasesFrom (rank + front.length) back := by
  induction front generalizing rank with
  | nil => rfl
  | cons d rest ih =>
    obtain ⟨version, read⟩ := parsed d (List.mem_cons_self ..)
    have onward : rank + 1 + rest.length = rank + (d :: rest).length := by
      rw [List.length_cons]
      omega
    simp only [List.cons_append, releasesFrom, read]
    rw [ih (fun d member => parsed d (List.mem_cons_of_mem _ member)), onward]

theorem releasesFrom_later (rank : Nat) (ds : List Declaration) :
    releasesFrom (rank + 1) ds = (releasesFrom rank ds).map Release.later := by
  induction ds generalizing rank with
  | nil => rfl
  | cons d rest ih =>
    unfold releasesFrom
    split
    · rw [ih, List.map_cons]
      rfl
    · exact ih rank

/-- A further declaration puts its version into the timeline and leaves the others as they are. -/
theorem exists_inserts {unsorted : Bool} {front back : List Declaration} {p m : Declaration}
    (old : checkDeclarations unsorted (front ++ p :: back) = [])
    (new : checkDeclarations unsorted (front ++ p :: m :: back) = []) :
    ∃ r s, r.name = p.name ∧ r.skipFrom = p.skipFrom ∧ s.name = m.name ∧ s.skipFrom = m.skipFrom ∧
      Inserts ⟨releasesFrom 0 (front ++ p :: back)⟩ ⟨releasesFrom 0 (front ++ p :: m :: back)⟩ r s := by
  obtain ⟨_, parsed, _⟩ := checkDeclarations_eq_nil new
  have first : ∀ d ∈ front, ∃ version, Version.parse (some d.name) = .ok version :=
    fun d member => parsed d (List.mem_append_left _ member)
  obtain ⟨version, atP⟩ := parsed p (by simp)
  obtain ⟨other, atM⟩ := parsed m (by simp)
  refine ⟨p.release (0 + front.length) version, m.release (0 + front.length + 1) other, rfl, rfl, rfl, rfl,
    (sound_of_checkDeclarations old).1, (sound_of_checkDeclarations new).1, releasesFrom 0 front,
    releasesFrom (0 + front.length + 1) back, ?_, ?_⟩
  · simp only [releasesFrom_append first, releasesFrom, atP]
  · simp only [releasesFrom_append first, releasesFrom, atP, atM, releasesFrom_later (0 + front.length + 1)]

namespace Inserts

variable {t u : Timeline} {p m r : Release} (inserts : t.Inserts u p m)
include inserts

theorem mem_old : p ∈ t.releases := by
  obtain ⟨before, after, old, _⟩ := inserts.split
  rw [old]
  exact List.mem_append_right _ (List.mem_cons_self ..)

theorem mem_new : m ∈ u.releases := by
  obtain ⟨before, after, _, new⟩ := inserts.split
  rw [new]
  exact List.mem_append_right _ (List.mem_cons_of_mem _ (List.mem_cons_self ..))

theorem rank_new : m.rank = p.rank + 1 := by
  obtain ⟨before, after, old, new⟩ := inserts.split
  have atP := (inserts.result.split_rank new).1
  have atM := (inserts.result.split_rank (new.trans (List.append_assoc before [p] _).symm)).1
  rw [List.length_append] at atM
  rw [atM, atP]
  rfl

/-- The versions before and after the place of the insertion, which is where the ranks begin to move. -/
theorem releases_eq : ∃ before after, t.releases = before ++ after ∧ before.length = p.rank + 1 ∧
    (∀ r ∈ before, r.rank ≤ p.rank) ∧ (∀ r ∈ after, p.rank < r.rank) ∧
    u.releases = before.map (Release.movedAfter p.rank) ++ m :: after.map (Release.movedAfter p.rank) := by
  obtain ⟨before, after, old, new⟩ := inserts.split
  obtain ⟨rank, below, above⟩ := inserts.sound.split_rank old
  have upTo : ∀ r ∈ before ++ [p], r.rank ≤ p.rank := by
    intro r member
    rcases List.mem_append.mp member with inside | last
    · exact (below r inside).le
    · rw [List.mem_singleton.mp last]
  have first : (before ++ [p]).map (Release.movedAfter p.rank) = (before ++ [p]).map id :=
    List.map_congr_left fun r member => if_pos (upTo r member)
  have last : after.map (Release.movedAfter p.rank) = after.map Release.later :=
    List.map_congr_left fun r member => if_neg (Nat.not_le.mpr (above r member))
  refine ⟨before ++ [p], after, ?_, ?_, upTo, above, ?_⟩
  · rw [old, List.append_assoc]
    rfl
  · rw [List.length_append, rank]
    rfl
  · rw [first, last, new, List.map_id, List.append_assoc]
    rfl

/-- The releases after an insertion are the new one and those before, moved up if they are later. -/
theorem mem_iff {s : Release} : s ∈ u.releases ↔ s = m ∨ ∃ r ∈ t.releases, s = r.movedAfter p.rank := by
  obtain ⟨before, after, old, _, _, _, new⟩ := inserts.releases_eq
  rw [old, new]
  simp only [List.mem_append, List.mem_cons, List.mem_map]
  constructor
  · rintro (⟨r, member, rfl⟩ | rfl | ⟨r, member, rfl⟩)
    · exact Or.inr ⟨r, Or.inl member, rfl⟩
    · exact Or.inl rfl
    · exact Or.inr ⟨r, Or.inr member, rfl⟩
  · rintro (rfl | ⟨r, member | member, rfl⟩)
    · exact Or.inr (Or.inl rfl)
    · exact Or.inl ⟨r, member, rfl⟩
    · exact Or.inr (Or.inr ⟨r, member, rfl⟩)

theorem mem_moved (member : r ∈ t.releases) : r.movedAfter p.rank ∈ u.releases :=
  inserts.mem_iff.mpr (Or.inr ⟨r, member, rfl⟩)

/-- The version that is inserted is not one of the others. -/
theorem name_new : m.name ∉ t.names := by
  intro among
  obtain ⟨r, member, same⟩ := List.mem_map.mp among
  have equal := inserts.result.eq_of_name (inserts.mem_moved member) inserts.mem_new
    ((Release.movedAfter_name _ _).trans same)
  have rank := Release.movedAfter_rank p.rank r
  rw [equal, inserts.rank_new] at rank
  split at rank <;> omega

theorem rankOf_moved {name : String} (declared : name ∈ t.names) :
    u.rankOf name = if t.rankOf name ≤ p.rank then t.rankOf name else t.rankOf name + 1 := by
  obtain ⟨r, member, _, rfl, rank⟩ := inserts.sound.get_of_mem declared
  have moved := inserts.result.rankOf_name (inserts.mem_moved member)
  rw [Release.movedAfter_name, Release.movedAfter_rank] at moved
  rw [moved, ← rank]

end Inserts

end Timeline

end Lineage
