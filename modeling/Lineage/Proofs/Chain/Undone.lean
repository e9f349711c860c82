import Lineage.Proofs.History
import Lineage.Proofs.Ranked
import Lineage.Proofs.Traversal

namespace Lineage

/-- The entry of a version in the chain of an item. -/
def Item.entryIn (kind : Kind) (t : Timeline) (item : Item) (r : Release) : Int × Status :=
  (r.rank, item.statusIn kind t r)

namespace Chain

/-- The statuses and the member that are made when an item's actions are undone down to a rank: one
status for each version from that rank on in which there is an action, and no other. -/
structure Undone (kind : Kind) (t : Timeline) (item : Item) (low : Nat) (statuses : Ranked Status)
    (member : String × Option String) : Prop where
  ordered : statuses.Pairwise (·.1 < ·.1)
  entry : ∀ e ∈ statuses, ∃ r ∈ t.releases, low ≤ r.rank ∧ ¬ item.IsQuiet r ∧
    e = item.entryIn kind t r
  complete : ∀ r ∈ t.releases, low ≤ r.rank → ¬ item.IsQuiet r → item.entryIn kind t r ∈ statuses
  member_eq : member = item.undoneFrom kind t low

namespace Undone

variable {kind : Kind} {t : Timeline} {item : Item} {low : Nat} {statuses : Ranked Status}
  {member : String × Option String} (sound : t.Sound)

theorem start (kind : Kind) (t : Timeline) (item : Item) (sound : t.Sound) :
    Undone kind t item t.releases.length [] (item.name, item.type) where
  ordered := .nil
  entry := by simp
  complete r member above := absurd (sound.rank_lt member) (by omega)
  member_eq := by simp [Item.undoneFrom]

include sound

/-- Going down over versions in which nothing happens leaves the statuses of a chain as they are. -/
theorem skip (undone : Undone kind t item low statuses member) {floor : Nat} (le : floor ≤ low)
    (quiet : ∀ r ∈ t.releases, floor ≤ r.rank → r.rank < low → item.IsQuiet r) :
    Undone kind t item floor statuses member where
  ordered := undone.ordered
  entry e listed := by
    obtain ⟨r, there, above, acts, same⟩ := undone.entry e listed
    exact ⟨r, there, by omega, acts, same⟩
  complete r there above acts := by
    refine undone.complete r there ?_ acts
    by_contra below
    exact acts (quiet r there above (by omega))
  member_eq := by rw [undone.member_eq, Item.undoneFrom_of_quiet sound le quiet]

/-- The next older version with an action gets its status, and the action is undone. -/
theorem act (undone : Undone kind t item low statuses member) {r : Release} (there : r ∈ t.releases)
    (below : r.rank < low) (acts : ¬ item.IsQuiet r)
    (quiet : ∀ s ∈ t.releases, r.rank < s.rank → s.rank < low → item.IsQuiet s) :
    Undone kind t item r.rank (Ranked.insert statuses r.rank (item.statusIn kind t r))
      (item.undoIn kind r member) := by
  have next := undone.skip sound below fun s member above => quiet s member above
  have least : ∀ e ∈ statuses, (r.rank : Int) < e.1 := by
    intro e listed
    obtain ⟨s, _, above, _, rfl⟩ := next.entry e listed
    exact Int.ofNat_lt.mpr above
  rw [Ranked.insert_of_below least]
  refine ⟨List.pairwise_cons.mpr ⟨least, next.ordered⟩, ?_, ?_, ?_⟩
  · intro e listed
    rcases List.mem_cons.mp listed with rfl | older
    · exact ⟨r, there, Nat.le_refl _, acts, rfl⟩
    · obtain ⟨s, member, above, acting, same⟩ := next.entry e older
      exact ⟨s, member, by omega, acting, same⟩
  · intro s member above acting
    rcases Nat.lt_or_eq_of_le above with greater | same
    · exact List.mem_cons_of_mem _ (next.complete s member greater acting)
    · rw [sound.eq_of_rank there member same]
      exact List.mem_cons_self ..
  · rw [next.member_eq, Item.undoneFrom_rank sound there]
    rfl

section Here

variable (undone : Undone kind t item low statuses member) {r : Release} (there : r ∈ t.releases)
  (below : r.rank < low) (quiet : ∀ s ∈ t.releases, r.rank < s.rank → s.rank < low → item.IsQuiet s)
include undone there below quiet

omit there in
theorem memberIn_eq : item.memberIn kind t r = member :=
  (undone.skip sound below fun s there above => quiet s there above).member_eq.symm

theorem memberBefore_eq : item.memberBefore kind t r = item.undoIn kind r member := by
  rw [Item.memberBefore_eq sound there, Item.undoneFrom_rank sound there, undone.memberIn_eq sound below quiet]

variable (legal : item.Legal t)
include legal

theorem change {c : Change} (own : c ∈ item.changes) (here : c.since = r.name) :
    Undone kind t item r.rank (Ranked.insert statuses r.rank (if (c.undo member).2 = member.2 then
        .renamed (c.undo member).1 member.1 member.2
      else .changed (c.undo member).1 (c.undo member).2 member.1 member.2 c.upgradeWith c.downgradeWith))
      (c.undo member) := by
  obtain ⟨noAddition, noDeprecation, single⟩ := legal.alone_of_change own here
  have next := undone.act sound there below (Item.acts_of_change own here) quiet
  have undo : item.undoIn kind r member = c.undo member := by
    simp [Item.undoIn, single, noDeprecation]
  rwa [Item.statusIn_of_change sound legal there own here noAddition noDeprecation single,
    undone.memberBefore_eq sound there below quiet, undone.memberIn_eq sound below quiet, undo] at next

theorem deprecation {d : Deprecation} (own : item.deprecated = some d) (here : d.since = r.name) :
    Undone kind t item r.rank (Ranked.insert statuses r.rank
      (.deprecated (kind.unmark member.1) member.1 member.2 d.note)) (kind.unmark member.1, member.2) := by
  obtain ⟨noAddition, noChange⟩ := legal.alone_of_deprecation own here
  have next := undone.act sound there below (Item.acts_of_deprecation own here) quiet
  have undo : item.undoIn kind r member = (kind.unmark member.1, member.2) := by
    simp [Item.undoIn, noChange, Item.deprecationIn_eq_some.mpr ⟨own, here⟩]
  rwa [Item.statusIn_of_deprecation sound legal there own here noAddition,
    undone.memberBefore_eq sound there below quiet, undone.memberIn_eq sound below quiet, undo] at next

end Here

/-- The changes of an item are undone one after the other, the newest first. -/
theorem ofChanges (legal : item.Legal t) {dated : List (Nat × Change)} {floor : Nat}
    (undone : Undone kind t item low statuses member) (le : floor ≤ low)
    (descending : dated.Pairwise fun newer older => older.1 < newer.1)
    (located : ∀ e ∈ dated, floor ≤ e.1 ∧ e.1 < low ∧ e.2 ∈ item.changes ∧
      ∃ r ∈ t.releases, r.rank = e.1 ∧ r.name = e.2.since)
    (all : ∀ r ∈ t.releases, floor ≤ r.rank → r.rank < low → ¬ item.IsQuiet r →
      r.rank ∈ dated.map (·.1)) :
    Undone kind t item floor (Status.ofChanges statuses member.1 member.2 dated).1
      (Status.ofChanges statuses member.1 member.2 dated).2 := by
  -- Each change brings `low` down to its own rank, and what is older goes on from there.
  induction dated generalizing low statuses member with
  | nil =>
    refine undone.skip sound le fun r there above below => ?_
    by_contra acts
    cases all r there above below acts
  | cons e rest ih =>
    obtain ⟨rank, c⟩ := e
    obtain ⟨older, later⟩ := List.pairwise_cons.mp descending
    obtain ⟨above, below, own, r, there, rfl, name⟩ := located (rank, c) (List.mem_cons_self ..)
    have quiet : ∀ s ∈ t.releases, r.rank < s.rank → s.rank < low → item.IsQuiet s := by
      intro s member greater less
      by_contra acting
      rcases List.mem_cons.mp (all s member (by omega) less acting) with same | listed
      · change s.rank = r.rank at same
        omega
      · obtain ⟨e, listed, same⟩ := List.mem_map.mp listed
        have lower := older e listed
        omega
    refine ih (undone.change sound there below quiet legal own name.symm) above later ?_ ?_
    · intro e listed
      obtain ⟨atLeast, _, changed, s, member, rank, name⟩ := located e (List.mem_cons_of_mem _ listed)
      exact ⟨atLeast, older e listed, changed, s, member, rank, name⟩
    · intro s member atLeast less acting
      rcases List.mem_cons.mp (all s member atLeast (by omega) acting) with same | listed
      · change s.rank = r.rank at same
        omega
      · exact listed

end Undone

/-- What the deprecation of an item leaves: its status, and the name without the mark. -/
def ofDeprecation (kind : Kind) (t : Timeline) (item : Item) : Ranked Status × String :=
  match item.deprecated with
  | some d =>
    let previous := kind.unmark item.name
    (Ranked.insert [] (t.rankOf d.since) (.deprecated previous item.name item.type d.note), previous)
  | none => ([], item.name)

/-- The changes of an item with their ranks, the newest first. -/
def newestFirst (t : Timeline) (item : Item) : List (Nat × Change) :=
  (item.changes.map fun c => (t.rankOf c.since, c)).mergeSort fun a b => b.1 ≤ a.1

/-- Statuses with that of the addition of an item, if it has one. -/
def withAddition (t : Timeline) (item : Item) (undone : Ranked Status × String × Option String) :
    Ranked Status :=
  match item.added with
  | some a => undone.1.insert (t.rankOf a.since) (.added undone.2.1 undone.2.2 a)
  | none => undone.1

/-- The chain of an item with a history is built from its newest action down to its addition. -/
theorem ofItem_eq {kind : Kind} {t : Timeline} {item : Item} (sound : t.Sound)
    (legal : item.Legal t) (history : item.hasHistory = true) :
    ofItem kind t item = .ok ⟨item, some (withAddition t item (Status.ofChanges
      (ofDeprecation kind t item).1 (ofDeprecation kind t item).2 item.type (newestFirst t item))), none⟩ := by
  have dated : item.changes.mapM (fun c => do return ((← t.get c.since).rank, c)) =
      (.ok (item.changes.map fun c => (t.rankOf c.since, c)) : Except Failure _) := by
    refine mapM_eq_ok_map fun c own => ?_
    obtain ⟨r, _, found, _, rank⟩ := sound.get_of_mem (legal.change_declared own)
    rw [found, ← rank]
    rfl
  simp only [ofItem, history, dated, withAddition, ofDeprecation, newestFirst]
  cases deprecated : item.deprecated with
  | none =>
    cases added : item.added with
    | none => rfl
    | some a =>
      obtain ⟨r, _, found, _, rank⟩ := sound.get_of_mem (legal.added_declared added)
      simp only [found, ← rank]
      rfl
  | some d =>
    obtain ⟨r, _, found, _, rank⟩ := sound.get_of_mem (legal.deprecated_declared deprecated)
    simp only [found, ← rank]
    cases added : item.added with
    | none => rfl
    | some a =>
      obtain ⟨r, _, found, _, rank⟩ := sound.get_of_mem (legal.added_declared added)
      simp only [found, ← rank]
      rfl

theorem mem_newestFirst {t : Timeline} {item : Item} {e : Nat × Change} :
    e ∈ newestFirst t item ↔ ∃ c ∈ item.changes, (t.rankOf c.since, c) = e := by
  rw [newestFirst, List.mem_mergeSort, List.mem_map]

section Actions

variable {kind : Kind} {t : Timeline} {item : Item} (sound : t.Sound) (legal : item.Legal t)
include sound legal

/-- Changes are undone from the newest to the oldest. -/
theorem newestFirst_descending :
    (newestFirst t item).Pairwise fun newer older => older.1 < newer.1 := by
  have sorted : (newestFirst t item).Pairwise fun newer older => older.1 ≤ newer.1 := by
    have sorted := @List.pairwise_mergeSort _ (fun a b : Nat × Change => decide (b.1 ≤ a.1))
      (fun a b c first second => by simp at first second ⊢; omega) (fun a b => by simp; omega)
      (item.changes.map fun c => (t.rankOf c.since, c))
    exact sorted.imp fun h => by simpa using h
  have apart : (newestFirst t item).Pairwise fun newer older => newer.1 ≠ older.1 := by
    refine (List.mergeSort_perm _ _).symm.pairwise ?_ fun ne => ne.symm
    refine List.pairwise_map.mpr ((List.pairwise_map.mp legal.changes_apart).imp_of_mem ?_)
    exact fun left right different same => different
      (sound.rankOf_injective (legal.change_declared left) (legal.change_declared right) same)
  exact (sorted.and apart).imp fun ⟨le, ne⟩ => by omega

/-- Nothing happens to an item after it is deprecated. -/
theorem isQuiet_after_deprecation {r : Release} (member : r ∈ t.releases) {d : Deprecation}
    (own : item.deprecated = some d) (after : t.rankOf d.since < r.rank) : item.IsQuiet r := by
  have rank := sound.rankOf_name member
  cases legal.happens r with
  | nothing noAddition noDeprecation noChange => exact ⟨noAddition, noDeprecation, noChange⟩
  | addition a added here =>
    have ordered := legal.added_before_deprecated a added d own
    rw [here, rank] at ordered
    omega
  | deprecation d' deprecated here =>
    cases Option.some.inj (own.symm.trans deprecated)
    rw [here, rank] at after
    omega
  | change c changed here =>
    have ordered := legal.deprecated_last d own c changed
    rw [here, rank] at ordered
    omega

/-- The deprecation is the newest action, so the undoing starts with it. -/
theorem ofDeprecation_undone : ∃ low,
    Undone kind t item low (ofDeprecation kind t item).1 ((ofDeprecation kind t item).2, item.type) ∧
      (∀ r ∈ t.releases, r.rank < low → item.deprecationIn r = none) ∧
      (∀ c ∈ item.changes, t.rankOf c.since < low) ∧
      ∀ a, item.added = some a → t.rankOf a.since < low := by
  cases deprecated : item.deprecated with
  | none =>
    refine ⟨t.releases.length, ?_, ?_, ?_, ?_⟩
    · simpa only [ofDeprecation, deprecated] using Undone.start kind t item sound
    · intro r _ _
      simp [Item.deprecationIn, deprecated]
    · exact fun c own => sound.rankOf_lt (legal.change_declared own)
    · exact fun a own => sound.rankOf_lt (legal.added_declared own)
  | some d =>
    obtain ⟨r, there, _, name, rank⟩ := sound.get_of_mem (legal.deprecated_declared deprecated)
    refine ⟨r.rank, ?_, ?_, ?_, ?_⟩
    · have latest : ∀ s ∈ t.releases, r.rank < s.rank → s.rank < t.releases.length → item.IsQuiet s :=
        fun s member after _ => isQuiet_after_deprecation sound legal member deprecated (by omega)
      have next := (Undone.start kind t item sound).deprecation sound there (sound.rank_lt there) latest legal
        deprecated name.symm
      simpa only [ofDeprecation, deprecated, ← rank] using next
    · intro s member below
      refine Item.deprecationIn_eq_none sound member fun d' own => ?_
      cases Option.some.inj (deprecated.symm.trans own)
      omega
    · intro c own
      rw [rank]
      exact legal.deprecated_last d deprecated c own
    · intro a own
      rw [rank]
      exact legal.added_before_deprecated a own d deprecated

/-- An action that is neither the addition of the item nor its deprecation is a change of it. -/
theorem rank_mem_newestFirst {r : Release} (there : r ∈ t.releases) (acts : ¬ item.IsQuiet r)
    (noAddition : item.additionIn r = none) (noDeprecation : item.deprecationIn r = none) :
    r.rank ∈ (newestFirst t item).map (·.1) := by
  cases legal.happens r with
  | nothing noAddition noDeprecation noChange => exact absurd ⟨noAddition, noDeprecation, noChange⟩ acts
  | addition a own here => cases (Item.additionIn_eq_some.mpr ⟨own, here⟩).symm.trans noAddition
  | deprecation d own here => cases (Item.deprecationIn_eq_some.mpr ⟨own, here⟩).symm.trans noDeprecation
  | change c own here =>
    refine List.mem_map.mpr ⟨(t.rankOf c.since, c), mem_newestFirst.mpr ⟨c, own, rfl⟩, ?_⟩
    rw [here, sound.rankOf_name there]

/-- All actions of an item undone: the sparse chain is complete down to the first version. -/
theorem withAddition_undone : ∃ member, Undone kind t item 0
    (withAddition t item (Status.ofChanges (ofDeprecation kind t item).1 (ofDeprecation kind t item).2
      item.type (newestFirst t item))) member := by
  obtain ⟨low, undone, noDeprecation, changesBelow, additionBelow⟩ :=
    @ofDeprecation_undone kind t item sound legal
  have located : ∀ e ∈ newestFirst t item, e.1 < low ∧ e.2 ∈ item.changes ∧
      ∃ r ∈ t.releases, r.rank = e.1 ∧ r.name = e.2.since := by
    intro e listed
    obtain ⟨c, own, rfl⟩ := mem_newestFirst.mp listed
    obtain ⟨r, there, _, name, rank⟩ := sound.get_of_mem (legal.change_declared own)
    exact ⟨changesBelow c own, own, r, there, rank, name⟩
  have all : ∀ r ∈ t.releases, r.rank < low → ¬ item.IsQuiet r → item.additionIn r = none →
      r.rank ∈ (newestFirst t item).map (·.1) := fun r there below acts noAddition =>
    rank_mem_newestFirst sound legal there acts noAddition (noDeprecation r there below)
  cases added : item.added with
  | none =>
    have changed := undone.ofChanges sound legal (Nat.zero_le _) (newestFirst_descending sound legal)
      (fun e listed => ⟨Nat.zero_le _, located e listed⟩)
      (fun r there _ below acts => all r there below acts (by simp [Item.additionIn, added]))
    exact ⟨_, by simpa only [withAddition, added] using changed⟩
  | some a =>
    obtain ⟨r, there, _, name, rank⟩ := sound.get_of_mem (legal.added_declared added)
    have changed : Undone kind t item (r.rank + 1) _ _ := undone.ofChanges sound legal
      (by have := additionBelow a added; omega) (newestFirst_descending sound legal) ?_ ?_
    · have acts := Item.acts_of_addition added name.symm
      have last := changed.act sound there (Nat.lt_succ_self _) acts fun s _ above below => by omega
      have first := last.skip sound (Nat.zero_le _) fun s member _ below =>
        Item.isQuiet_of_before sound legal member
          (Item.isBeforeAddition_iff.mpr ⟨a, added, by omega⟩)
      rw [Item.statusIn_of_addition sound legal there added name.symm, Item.memberIn,
        ← changed.member_eq, rank] at first
      exact ⟨_, by simpa only [withAddition, added] using first⟩
    · intro e listed
      obtain ⟨c, own, rfl⟩ := mem_newestFirst.mp listed
      have ordered := legal.added_first a added c own
      exact ⟨by omega, located _ listed⟩
    · intro s member above below acts
      refine all s member below acts (Item.additionIn_eq_none sound member fun a' own => ?_)
      cases Option.some.inj (added.symm.trans own)
      omega

end Actions

end Chain

end Lineage
