import Mathlib.Data.List.Duplicate
import Mathlib.Data.List.Nodup
import Lineage.Lifecycle
import Lineage.Proofs.Text

namespace Lineage

/-- A timeline as the checks of declarations leave it: the rank of a release is its position, and no
name stands for two of them. -/
structure Timeline.Sound (t : Timeline) : Prop where
  ranked : ∀ {i : Nat} {r : Release}, t.releases[i]? = some r → r.rank = i
  distinct : t.names.Nodup

/-- The rank of a name. What is not declared comes after all versions. -/
def Timeline.rankOf (t : Timeline) (name : String) : Nat :=
  match t.find? name with
  | some r => r.rank
  | none => t.releases.length

namespace Timeline.Sound

variable {t : Timeline} (sound : t.Sound)
include sound

theorem at_rank {r : Release} (member : r ∈ t.releases) : t.releases[r.rank]? = some r := by
  obtain ⟨i, atIndex⟩ := List.mem_iff_getElem?.mp member
  rw [sound.ranked atIndex, atIndex]

theorem rank_lt {r : Release} (member : r ∈ t.releases) : r.rank < t.releases.length :=
  (List.getElem?_eq_some_iff.mp (sound.at_rank member)).1

theorem exists_rank {rank : Nat} (bound : rank < t.releases.length) :
    ∃ r ∈ t.releases, r.rank = rank := by
  have atRank := List.getElem?_eq_getElem bound
  exact ⟨_, List.mem_of_getElem? atRank, sound.ranked atRank⟩

theorem eq_of_rank {r s : Release} (left : r ∈ t.releases) (right : s ∈ t.releases)
    (same : r.rank = s.rank) : r = s := by
  have atRank := sound.at_rank left
  rw [same, sound.at_rank right] at atRank
  exact (Option.some.inj atRank).symm

theorem eq_of_name {r s : Release} (left : r ∈ t.releases) (right : s ∈ t.releases)
    (same : r.name = s.name) : r = s :=
  List.inj_on_of_nodup_map sound.distinct left right same

theorem find?_iff {name : String} {r : Release} :
    t.find? name = some r ↔ r ∈ t.releases ∧ r.name = name := by
  constructor
  · intro found
    exact ⟨List.mem_of_find?_eq_some found, name_of_find? found⟩
  · rintro ⟨member, rfl⟩
    have present : (t.find? r.name).isSome := List.find?_isSome.mpr ⟨r, member, by simp⟩
    obtain ⟨s, found⟩ := Option.isSome_iff_exists.mp present
    have same := sound.eq_of_name (List.mem_of_find?_eq_some found) member (name_of_find? found)
    rw [found, same]

theorem rankOf_name {r : Release} (member : r ∈ t.releases) : t.rankOf r.name = r.rank := by
  simp only [rankOf, sound.find?_iff.mpr ⟨member, rfl⟩]

theorem name_iff_rank {r : Release} {name : String} (member : r ∈ t.releases)
    (declared : name ∈ t.names) : r.name = name ↔ r.rank = t.rankOf name := by
  obtain ⟨s, there, rfl⟩ := List.mem_map.mp declared
  rw [sound.rankOf_name there]
  exact ⟨fun same => congrArg Release.rank (sound.eq_of_name member there same),
    fun same => congrArg Release.name (sound.eq_of_rank member there same)⟩

theorem rankOf_injective {left right : String} (atLeft : left ∈ t.names) (atRight : right ∈ t.names)
    (same : t.rankOf left = t.rankOf right) : left = right := by
  obtain ⟨r, member, rfl⟩ := List.mem_map.mp atLeft
  rw [sound.rankOf_name member] at same
  exact (sound.name_iff_rank member atRight).mpr same

theorem rankOf_lt {name : String} (declared : name ∈ t.names) : t.rankOf name < t.releases.length := by
  obtain ⟨s, there, rfl⟩ := List.mem_map.mp declared
  rw [sound.rankOf_name there]
  exact sound.rank_lt there

theorem get_name {r : Release} (member : r ∈ t.releases) : t.get r.name = .ok r :=
  get_eq_ok_iff.mpr (sound.find?_iff.mpr ⟨member, rfl⟩)

/-- A declared name leads to the release of its rank. -/
theorem get_of_mem {name : String} (declared : name ∈ t.names) :
    ∃ r ∈ t.releases, t.get name = .ok r ∧ r.name = name ∧ r.rank = t.rankOf name := by
  obtain ⟨r, member, rfl⟩ := List.mem_map.mp declared
  exact ⟨r, member, sound.get_name member, rfl, (sound.rankOf_name member).symm⟩

theorem ordered : t.releases.Pairwise (·.rank < ·.rank) := by
  rw [List.pairwise_iff_getElem]
  intro i j left right less
  rw [sound.ranked (List.getElem?_eq_getElem left), sound.ranked (List.getElem?_eq_getElem right)]
  exact less

/-- The pairs of versions that follow each other are those whose ranks do. -/
theorem mem_adjacentPairs {older newer : Release} :
    (older, newer) ∈ t.adjacentPairs ↔
      older ∈ t.releases ∧ newer ∈ t.releases ∧ newer.rank = older.rank + 1 := by
  unfold adjacentPairs
  rw [List.mem_iff_getElem?]
  constructor
  · rintro ⟨i, atIndex⟩
    rw [List.getElem?_zip_eq_some, List.getElem?_tail] at atIndex
    obtain ⟨atOlder, atNewer⟩ := atIndex
    refine ⟨List.mem_of_getElem? atOlder, List.mem_of_getElem? atNewer, ?_⟩
    rw [sound.ranked atOlder, sound.ranked atNewer]
  · rintro ⟨atOlder, atNewer, next⟩
    refine ⟨older.rank, ?_⟩
    rw [List.getElem?_zip_eq_some, List.getElem?_tail, ← next]
    exact ⟨sound.at_rank atOlder, sound.at_rank atNewer⟩

theorem previous?_eq_some {older newer : Release} (atOlder : older ∈ t.releases)
    (next : newer.rank = older.rank + 1) : t.previous? newer = some older := by
  simp only [previous?, at?, next, sound.at_rank atOlder]

theorem next?_eq_some {older newer : Release} (atNewer : newer ∈ t.releases)
    (next : newer.rank = older.rank + 1) : t.next? older = some newer := by
  rw [next?, at?, ← next, sound.at_rank atNewer]

/-- Behind the first ranks stands a release and what comes after it. -/
theorem drop_rank {r : Release} (member : r ∈ t.releases) :
    t.releases.drop r.rank = r :: t.releases.drop (r.rank + 1) := by
  have bound := sound.rank_lt member
  have atRank := sound.at_rank member
  rw [List.getElem?_eq_getElem bound] at atRank
  rw [List.drop_eq_getElem_cons bound, Option.some.inj atRank]

/-- The ranks before a release are lower than its own, and those behind it are higher. -/
theorem split_rank {done todo : List Release} {r : Release} (split : t.releases = done ++ r :: todo) :
    r.rank = done.length ∧ (∀ s ∈ done, s.rank < r.rank) ∧ ∀ s ∈ todo, r.rank < s.rank := by
  have rank : r.rank = done.length := sound.ranked (by rw [split]; simp)
  refine ⟨rank, fun s member => ?_, fun s member => ?_⟩
  · obtain ⟨i, bound, atIndex⟩ := List.mem_iff_getElem.mp member
    have before : t.releases[i]? = some s := by
      rw [split, List.getElem?_append_left bound, ← atIndex, List.getElem?_eq_getElem]
    rw [sound.ranked before, rank]
    exact bound
  · obtain ⟨i, bound, atIndex⟩ := List.mem_iff_getElem.mp member
    have after : t.releases[done.length + (i + 1)]? = some s := by
      rw [split, List.getElem?_append_right (by omega), Nat.add_sub_cancel_left,
        List.getElem?_cons_succ, List.getElem?_eq_getElem bound, atIndex]
    rw [sound.ranked after]
    omega

end Timeline.Sound

section Repeated

variable {names : List String}

theorem nodup_eraseDups (names : List String) : names.eraseDups.Nodup := by
  cases names with
  | nil => simp
  | cons name rest =>
    rw [List.eraseDups_cons, List.nodup_cons, List.mem_eraseDups]
    exact ⟨by simp, nodup_eraseDups _⟩
termination_by names.length
decreasing_by exact Nat.lt_succ_of_le (List.length_filter_le _ _)

theorem mem_repeated {name : String} : name ∈ repeated names ↔ List.Duplicate name names := by
  unfold repeated
  rw [List.mem_mergeSort, List.mem_eraseDups, List.mem_filter, decide_eq_true_iff,
    List.duplicate_iff_two_le_count]
  refine and_iff_right_of_imp fun more => ?_
  exact List.count_pos_iff.mp (by omega)

theorem repeated_ascending : (repeated names).Pairwise fun s t => Text.before s t = true := by
  have distinct : (repeated names).Nodup := by
    rw [repeated, (List.mergeSort_perm _ _).nodup_iff]
    exact nodup_eraseDups _
  have ordered : (repeated names).Pairwise fun s t => Text.inOrder s t = true := by
    rw [repeated]
    exact @List.pairwise_mergeSort String Text.inOrder (fun s t u first second =>
      Text.inOrder_trans first second) Text.inOrder_total _
  exact (ordered.and distinct).imp fun {s t} both => Text.before_iff_inOrder_and_ne.mpr both

/-- The names that stand more than once are found in ascending order, and no others. -/
theorem repeated_eq_iff {found : List String} : repeated names = found ↔
    found.Pairwise (fun s t => Text.before s t = true) ∧
      ∀ name, name ∈ found ↔ List.Duplicate name names := by
  constructor
  · rintro rfl
    exact ⟨repeated_ascending, fun name => mem_repeated⟩
  · rintro ⟨ascending, same⟩
    exact Text.eq_of_ascending repeated_ascending ascending fun name => mem_repeated.trans (same name).symm

theorem repeated_eq_nil_iff : repeated names = [] ↔ names.Nodup := by
  rw [repeated_eq_iff, List.nodup_iff_forall_not_duplicate]
  simp

end Repeated

/-- Declarations without problems are read as versions, and none is declared twice. -/
theorem checkDeclarations_eq_nil {unsorted : Bool} {ds : List Declaration}
    (clean : checkDeclarations unsorted ds = []) :
    ds ≠ [] ∧ (∀ d ∈ ds, ∃ version, Version.parse (some d.name) = .ok version) ∧
      (ds.map (·.name)).Nodup := by
  unfold checkDeclarations at clean
  split at clean
  · simp at clean
  rename_i nonempty
  simp only [List.append_eq_nil_iff] at clean
  obtain ⟨⟨invalid, twice⟩, _⟩ := clean
  refine ⟨by simpa using nonempty, ?_, ?_⟩
  · intro d member
    have read := List.filterMap_eq_nil_iff.mp invalid (d.name, Version.parse (some d.name))
      (List.mem_map.mpr ⟨d, member, rfl⟩)
    cases parsed : Version.parse (some d.name) with
    | ok version => exact ⟨version, rfl⟩
    | error fault => simp [parsed] at read
  · have single : repeated (ds.map (·.name)) = [] := by
      split at twice
      · rename_i empty
        exact List.isEmpty_iff.mp empty
      · simp at twice
    exact repeated_eq_nil_iff.mp single

namespace Timeline

theorem releasesFrom_name {ds : List Declaration}
    (parsed : ∀ d ∈ ds, ∃ version, Version.parse (some d.name) = .ok version) (rank : Nat) :
    (releasesFrom rank ds).map (·.name) = ds.map (·.name) := by
  induction ds generalizing rank with
  | nil => rfl
  | cons d rest ih =>
    obtain ⟨version, read⟩ := parsed d (List.mem_cons_self ..)
    simp only [releasesFrom, read, List.map_cons, Declaration.release]
    rw [ih fun d member => parsed d (List.mem_cons_of_mem _ member)]

/-- The rank of a release is its place in the list of declarations. -/
theorem releasesFrom_rank {ds : List Declaration}
    (parsed : ∀ d ∈ ds, ∃ version, Version.parse (some d.name) = .ok version) {rank i : Nat}
    {r : Release} (atIndex : (releasesFrom rank ds)[i]? = some r) : r.rank = rank + i := by
  induction ds generalizing rank i with
  | nil => simp [releasesFrom] at atIndex
  | cons d rest ih =>
    obtain ⟨version, read⟩ := parsed d (List.mem_cons_self ..)
    simp only [releasesFrom, read] at atIndex
    cases i with
    | zero =>
      cases Option.some.inj atIndex
      rfl
    | succ i =>
      have later := ih (fun d member => parsed d (List.mem_cons_of_mem _ member)) atIndex
      omega

/-- The timeline of declarations without problems is sound, has their names and is not empty. -/
theorem sound_of_checkDeclarations {unsorted : Bool} {ds : List Declaration}
    (clean : checkDeclarations unsorted ds = []) :
    Sound ⟨releasesFrom 0 ds⟩ ∧ names ⟨releasesFrom 0 ds⟩ = ds.map (·.name) ∧ releasesFrom 0 ds ≠ [] := by
  obtain ⟨nonempty, parsed, distinct⟩ := checkDeclarations_eq_nil clean
  have named : names ⟨releasesFrom 0 ds⟩ = ds.map (·.name) := releasesFrom_name parsed 0
  refine ⟨⟨fun atIndex => ?_, named ▸ distinct⟩, named, fun empty => nonempty ?_⟩
  · simpa using releasesFrom_rank parsed atIndex
  · rw [names, empty, List.map_nil] at named
    exact List.map_eq_nil_iff.mp named.symm

end Timeline

end Lineage
