import Mathlib.Data.List.Nodup
import Lineage.Proofs.Entries
import Lineage.Proofs.Timeline.Declarations
import Lineage.Proofs.Timeline.Path

namespace Lineage

namespace Timeline

/-- Whether versions lead from one to another: every step goes to the next rank, always up or always
down, and the last one ends there. -/
structure Route (t : Timeline) (start stop : Release) (path : List Release) : Prop where
  declared : ∀ r ∈ path, r ∈ t.releases
  length : path.length = ((start.rank : Int) - stop.rank).natAbs
  steps : (start :: path).IsChain fun r s =>
    if start.rank ≤ stop.rank then s.rank = r.rank + 1 else r.rank = s.rank + 1
  ends : start ≠ stop → path.getLast? = some stop

/-- The two ends of a path with the version where it starts. -/
def ends (e : Release × List Release) : Release × Option Release :=
  (e.1, e.2.getLast?)

/-- The names of the two ends of a path with the version where it starts. -/
def endNames? (e : Release × List Release) : Option (String × String) :=
  e.2.getLast?.map fun stop => (e.1.name, stop.name)

section Path

variable {t : Timeline} {a b : Release} {current desired : String} {path : List Release}

theorem path_eq_ok_iff : t.path current desired = .ok path ↔
    ∃ r s, t.find? current = some r ∧ t.find? desired = some s ∧ t.pathBetween r s = path := by
  unfold Timeline.path
  constructor
  · intro run
    obtain ⟨r, first, run⟩ := exists_of_bind run
    obtain ⟨s, second, run⟩ := exists_of_bind run
    exact ⟨r, s, get_eq_ok_iff.mp first, get_eq_ok_iff.mp second, Except.ok.inj run⟩
  · rintro ⟨r, s, first, second, rfl⟩
    rw [get_eq_ok_iff.mpr first, get_eq_ok_iff.mpr second]
    rfl

namespace Sound

variable (sound : t.Sound)
include sound

theorem path_name (atA : a ∈ t.releases) (atB : b ∈ t.releases) :
    t.path a.name b.name = .ok (t.pathBetween a b) :=
  path_eq_ok_iff.mpr ⟨a, b, sound.find?_iff.mpr ⟨atA, rfl⟩, sound.find?_iff.mpr ⟨atB, rfl⟩, rfl⟩

/-- The path between two versions is a route: it goes step by step from the one to the other. -/
theorem route (atA : a ∈ t.releases) (atB : b ∈ t.releases) : t.Route a b (t.pathBetween a b) where
  declared _ member := mem_pathBetween member
  length := by
    rw [sound.length_pathBetween atA atB]
    omega
  steps := by
    split
    · rename_i up
      exact (sound.pathBetween_climbs atA up).imp fun r s hop => hop.2.1
    · rename_i down
      exact sound.pathBetween_descends atA (Nat.le_of_not_le down)
  ends := sound.getLast?_pathBetween atA atB

/-- The versions other than one are those of other ranks. -/
theorem filter_rank (atA : a ∈ t.releases) :
    (t.releases.filter fun b => a.rank != b.rank) = t.releases.erase a := by
  have distinct : t.releases.Nodup := List.Nodup.of_map _ sound.distinct
  rw [distinct.erase_eq_filter]
  refine List.filter_congr fun b atB => ?_
  rw [Bool.eq_iff_iff, bne_iff_ne, bne_iff_ne]
  exact not_congr ⟨fun same => (sound.eq_of_rank atA atB same).symm, fun same => by rw [same]⟩

/-- The paths that are listed are those between any two different versions. -/
theorem mem_paths : (a, path) ∈ t.paths ↔
    a ∈ t.releases ∧ ∃ b ∈ t.releases, a ≠ b ∧ path = t.pathBetween a b := by
  have distinct : t.releases.Nodup := List.Nodup.of_map _ sound.distinct
  simp only [paths, List.mem_flatMap, List.mem_map, Prod.mk.injEq]
  constructor
  · rintro ⟨r, atR, b, other, rfl, rfl⟩
    rw [sound.filter_rank atR, distinct.mem_erase_iff] at other
    exact ⟨atR, b, other.2, Ne.symm other.1, rfl⟩
  · rintro ⟨atA, b, atB, apart, rfl⟩
    refine ⟨a, atA, b, ?_, rfl, rfl⟩
    rw [sound.filter_rank atA, distinct.mem_erase_iff]
    exact ⟨Ne.symm apart, atB⟩

theorem length_paths : t.paths.length = t.releases.length * (t.releases.length - 1) := by
  have each : ∀ a ∈ t.releases, ((t.releases.filter fun b => a.rank != b.rank).map fun b =>
      (a, t.pathBetween a b)).length = t.releases.length - 1 := by
    intro a atA
    rw [List.length_map, sound.filter_rank atA, List.length_erase_of_mem atA]
  rw [paths, List.length_flatMap, List.map_congr_left each, List.map_const', List.sum_replicate_nat]

/-- No two paths have the same ends. -/
theorem nodup_ends : (t.paths.map ends).Nodup := by
  have distinct : t.releases.Nodup := List.Nodup.of_map _ sound.distinct
  have pairs : t.paths.map ends =
      t.releases.flatMap fun a => (t.releases.erase a).map fun b => (a, some b) := by
    rw [paths, List.map_flatMap]
    refine List.flatMap_congr fun a atA => ?_
    rw [sound.filter_rank atA, List.map_map]
    refine List.map_congr_left fun b other => ?_
    obtain ⟨apart, atB⟩ := distinct.mem_erase_iff.mp other
    simp only [Function.comp_apply, ends, sound.getLast?_pathBetween atA atB (Ne.symm apart)]
  rw [pairs, List.nodup_flatMap]
  refine ⟨fun a _ => ?_, distinct.imp fun {a b} apart => ?_⟩
  · exact (distinct.erase a).map fun b c same => Option.some.inj (Prod.mk.inj same).2
  · intro e left right
    obtain ⟨_, _, rfl⟩ := List.mem_map.mp left
    obtain ⟨_, _, same⟩ := List.mem_map.mp right
    exact apart (Prod.mk.inj same).1.symm

theorem exists_path_of_mem_paths {e : Release × List Release} (member : e ∈ t.paths) :
    ∃ b, endNames? e = some (e.1.name, b) ∧ e.1.name ≠ b ∧ t.path e.1.name b = .ok e.2 := by
  obtain ⟨a, path⟩ := e
  obtain ⟨atA, b, atB, apart, rfl⟩ := sound.mem_paths.mp member
  refine ⟨b.name, ?_, fun same => apart (sound.eq_of_name atA atB same), sound.path_name atA atB⟩
  rw [endNames?, sound.getLast?_pathBetween atA atB apart]
  rfl

theorem exists_mem_paths_of_path (apart : current ≠ desired) (run : t.path current desired = .ok path) :
    ∃ e ∈ t.paths, endNames? e = some (current, desired) := by
  obtain ⟨r, s, first, second, rfl⟩ := path_eq_ok_iff.mp run
  obtain ⟨atR, rfl⟩ := sound.find?_iff.mp first
  obtain ⟨atS, rfl⟩ := sound.find?_iff.mp second
  have other : r ≠ s := fun same => apart (congrArg Release.name same)
  refine ⟨_, sound.mem_paths.mpr ⟨atR, s, atS, other, rfl⟩, ?_⟩
  rw [endNames?, sound.getLast?_pathBetween atR atS other]
  rfl

end Sound

end Path

namespace PathTable

/-- The names on the path between two names in a table. -/
def names? (table : PathTable) (start stop : String) : Option (List String) :=
  (Entries.get? table start).bind fun row => Entries.get? row stop

/-- Whether a table has every name once, under each of them every other end once, and none in vain. -/
structure Tidy (table : PathTable) : Prop where
  starts : (table.map (·.1)).Nodup
  stops : ∀ row ∈ table, (row.2.map (·.1)).Nodup
  filled : ∀ row ∈ table, row.2 ≠ []

variable {table : PathTable} {start stop : String}

/-- A path with an end is entered under the names of its two ends. -/
theorem exists_enter (table : PathTable) {e : Release × List Release} {ends : String × String}
    (named : endNames? e = some ends) : ∃ after, table.enter e = .ok after := by
  obtain ⟨r, last, _⟩ := Option.map_eq_some_iff.mp named
  exact ⟨_, by rw [enter, last]⟩

/-- Entering a path sets the names for its ends and for no others. -/
theorem names?_enter {after : PathTable} {e : Release × List Release} (entered : table.enter e = .ok after)
    (start stop : String) : names? after start stop =
      if endNames? e = some (start, stop) then some (e.2.map (·.name)) else names? table start stop := by
  unfold enter at entered
  unfold endNames?
  cases last : e.2.getLast? with
  | none =>
    rw [last] at entered
    cases entered
  | some r =>
    rw [last] at entered
    cases entered
    simp only [Option.map_some, Option.some.injEq, Prod.mk.injEq, names?]
    by_cases first : e.1.name = start
    · subst first
      rw [Entries.get?_put_self, Option.bind_some]
      by_cases second : r.name = stop
      · subst second
        rw [Entries.get?_put_self, if_pos ⟨rfl, rfl⟩]
      · rw [Entries.get?_put_of_ne _ _ (Ne.symm second), if_neg fun same => second same.2]
        cases Entries.get? table e.1.name <;> rfl
    · rw [Entries.get?_put_of_ne _ _ (Ne.symm first), if_neg fun same => first same.1]

/-- A table stays tidy when a path is entered. -/
theorem Tidy.enter {after : PathTable} (tidy : table.Tidy) {e : Release × List Release}
    (entered : table.enter e = .ok after) : after.Tidy := by
  unfold PathTable.enter at entered
  split at entered
  · rename_i r last
    cases entered
    have row : ((Entries.get? table e.1.name).getD [] |>.map (·.1)).Nodup := by
      cases found : Entries.get? table e.1.name with
      | none => exact .nil
      | some row => exact tidy.stops _ (Entries.mem_of_get? found)
    have put : ∀ other ∈ Entries.put table e.1.name
        (Entries.put ((Entries.get? table e.1.name).getD []) r.name (e.2.map (·.name))),
        other ∈ table ∨ other.2 = Entries.put ((Entries.get? table e.1.name).getD []) r.name (e.2.map (·.name)) :=
      fun other member => (Entries.mem_put member).imp_right (congrArg Prod.snd)
    refine ⟨Entries.nodup_keys_put tidy.starts, fun other member => ?_, fun other member => ?_⟩
    · rcases put other member with old | new
      · exact tidy.stops other old
      · rw [new]
        exact Entries.nodup_keys_put row
    · rcases put other member with old | new
      · exact tidy.filled other old
      · rw [new]
        exact Entries.put_ne_nil
  · cases entered

/-- Paths with ends are all entered, and under two names stands the one with these ends that was entered
last. -/
theorem exists_foldlM {paths : List (Release × List Release)} (ends : ∀ e ∈ paths, (endNames? e).isSome)
    (tidy : table.Tidy) : ∃ after, paths.foldlM enter table = .ok after ∧ after.Tidy ∧
      ∀ start stop, names? after start stop =
        ((paths.reverse.find? fun e => endNames? e = some (start, stop)).map fun e => e.2.map (·.name)).or
          (names? table start stop) := by
  induction paths generalizing table with
  | nil => exact ⟨table, rfl, tidy, fun start stop => rfl⟩
  | cons e rest ih =>
    obtain ⟨here, later⟩ := List.forall_mem_cons.mp ends
    obtain ⟨_, named⟩ := Option.isSome_iff_exists.mp here
    obtain ⟨next, entered⟩ := table.exists_enter named
    obtain ⟨after, made, tidy, found⟩ := ih later (tidy.enter entered)
    refine ⟨after, by rw [List.foldlM_cons, entered]; exact made, tidy, fun start stop => ?_⟩
    rw [found, names?_enter entered, List.reverse_cons, List.find?_append, Option.map_or, Option.or_assoc]
    congr 1
    by_cases same : endNames? e = some (start, stop)
    · simp [same]
    · simp [same]

end PathTable

/-- No path is empty, so all have places in the table. -/
theorem Sound.exists_pathTable {t : Timeline} (sound : t.Sound) : ∃ table, t.pathTable = .ok table ∧ table.Tidy ∧
    ∀ start stop names, table.names? start stop = some names ↔
      start ≠ stop ∧ ∃ path, t.path start stop = .ok path ∧ names = path.map (·.name) := by
  have inside : ∀ {start stop : String}, ∀ e ∈ t.paths, endNames? e = some (start, stop) →
      start ≠ stop ∧ t.path start stop = .ok e.2 := by
    intro start stop e member ends
    obtain ⟨b, named, apart, run⟩ := sound.exists_path_of_mem_paths member
    obtain ⟨rfl, rfl⟩ := Prod.mk.inj (Option.some.inj (named.symm.trans ends))
    exact ⟨apart, run⟩
  have ends : ∀ e ∈ t.paths, (endNames? e).isSome := by
    intro e member
    obtain ⟨b, named, _, _⟩ := sound.exists_path_of_mem_paths member
    rw [named, Option.isSome_some]
  obtain ⟨table, made, tidy, found⟩ := @PathTable.exists_foldlM [] t.paths ends ⟨.nil, nofun, nofun⟩
  refine ⟨table, made, tidy, fun start stop names => ?_⟩
  have nothing : PathTable.names? [] start stop = none := rfl
  rw [found, nothing, Option.or_none, Option.map_eq_some_iff]
  constructor
  · rintro ⟨e, found, rfl⟩
    have named : endNames? e = some (start, stop) := by simpa using List.find?_some found
    obtain ⟨apart, run⟩ := inside e (List.mem_reverse.mp (List.mem_of_find?_eq_some found)) named
    exact ⟨apart, e.2, run, rfl⟩
  · rintro ⟨apart, path, run, rfl⟩
    obtain ⟨e, member, named⟩ := sound.exists_mem_paths_of_path apart run
    have present : (t.paths.reverse.find? fun e => endNames? e = some (start, stop)).isSome :=
      List.find?_isSome.mpr ⟨e, List.mem_reverse.mpr member, by simpa using named⟩
    obtain ⟨f, found⟩ := Option.isSome_iff_exists.mp present
    have same : endNames? f = some (start, stop) := by simpa using List.find?_some found
    have other := (inside f (List.mem_reverse.mp (List.mem_of_find?_eq_some found)) same).2
    exact ⟨f, found, by rw [Except.ok.inj (other.symm.trans run)]⟩

/-- How versions are reached from each other. A path goes to the next rank at every step, in one direction,
until the other version; the way back is the reverse, and a path by way of a version in between is made up
of two. Among all paths every pair of different versions stands once, and the table has exactly these. -/
theorem paths_compose {unsorted : Bool} {container : String} {ds : List Declaration} {t : Timeline}
    (made : ofDeclarations unsorted container ds = .ok t) :
    t.names = ds.map (·.name) ∧
    (∀ a ∈ t.releases, ∀ b ∈ t.releases, ∃ forth back, t.path a.name b.name = .ok forth ∧
      t.path b.name a.name = .ok back ∧ t.Route a b forth ∧ (a :: forth).reverse = b :: back) ∧
    (∀ a ∈ t.releases, ∀ b ∈ t.releases, ∀ c ∈ t.releases,
      a.rank ≤ b.rank ∧ b.rank ≤ c.rank ∨ c.rank ≤ b.rank ∧ b.rank ≤ a.rank →
      ∃ first second, t.path a.name b.name = .ok first ∧ t.path b.name c.name = .ok second ∧
        t.path a.name c.name = .ok (first ++ second)) ∧
    t.paths.length = t.releases.length * (t.releases.length - 1) ∧ (t.paths.map ends).Nodup ∧
    (∀ a path, (a, path) ∈ t.paths ↔
      a ∈ t.releases ∧ ∃ b ∈ t.releases, a ≠ b ∧ t.path a.name b.name = .ok path) ∧
    ∃ table, t.pathTable = .ok table ∧ table.Tidy ∧
      ∀ start stop names, table.names? start stop = some names ↔
        start ≠ stop ∧ ∃ path, t.path start stop = .ok path ∧ names = path.map (·.name) := by
  obtain ⟨clean, rfl⟩ := ofDeclarations_eq_ok_iff.mp made
  obtain ⟨sound, named, _⟩ := sound_of_checkDeclarations clean
  refine ⟨named, fun a atA b atB => ?_, fun a atA b atB c atC through => ?_, sound.length_paths,
    sound.nodup_ends, fun a path => ?_, sound.exists_pathTable⟩
  · exact ⟨_, _, sound.path_name atA atB, sound.path_name atB atA, sound.route atA atB,
      sound.reverse_cons_pathBetween atA atB⟩
  · refine ⟨_, _, sound.path_name atA atB, sound.path_name atB atC, ?_⟩
    rw [sound.path_name atA atC, pathBetween_append _ through]
  · rw [sound.mem_paths]
    refine and_congr_right fun atA => exists_congr fun b => and_congr_right fun atB => and_congr_right fun _ => ?_
    rw [sound.path_name atA atB, Except.ok.injEq, eq_comm]

/-- Four stages of a version, declared without regard to their order. -/
def stages : List Declaration :=
  ["v1beta1", "v1", "v1alpha1", "v2"].map Declaration.named

theorem paths_compose_stages : ∃ t, ofDeclarations true "<versions>" stages = .ok t ∧
    t.names = ["v1beta1", "v1", "v1alpha1", "v2"] ∧ t.paths.length = 12 ∧
    ∃ table, t.pathTable = .ok table ∧
      table.names? "v2" "v1beta1" = some ["v1alpha1", "v1", "v1beta1"] := by
  have clean : checkDeclarations true stages = [] := by decide +kernel
  have made : ofDeclarations true "<versions>" stages = .ok ⟨releasesFrom 0 stages⟩ :=
    ofDeclarations_eq_ok_iff.mpr ⟨clean, rfl⟩
  obtain ⟨named, _, _, length, _, _, table, entered, _, found⟩ := paths_compose made
  refine ⟨_, made, named, length.trans ?_, table, entered, (found _ _ _).mpr ⟨by decide, ?_⟩⟩
  · decide +kernel
  · exact ⟨_, rfl, by decide +kernel⟩

end Timeline

end Lineage
