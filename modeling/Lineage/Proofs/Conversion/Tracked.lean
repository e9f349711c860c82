import Lineage.Proofs.Conversion.Along
import Lineage.Proofs.Conversion.Kept

namespace Lineage

namespace Item

/-- The value that a map holds under the name of an item in a version. -/
def valueIn (kind : Kind) (t : Timeline) (x : Entries Value Value) (r : Release) (item : Item) :
    Option Value :=
  (item.statusIn kind t r).member?.bind fun m => Value.member? x m.1

/-- The value of an item that a conversion down to a version has dropped: the item is not there. -/
def droppedIn (kind : Kind) (t : Timeline) (value : Item → Option Value) (r : Release) (item : Item) :
    Option Value :=
  if (item.statusIn kind t r).member? = none then value item else none

theorem droppedIn_valueIn (kind : Kind) (t : Timeline) (x : Entries Value Value) (r : Release) (item : Item) :
    item.droppedIn kind t (valueIn kind t x r) r = none := by
  unfold droppedIn
  split
  · rename_i absent
    rw [valueIn, absent, Option.bind_none]
  · rfl

/-- The value of an item that a conversion up between two versions has still to restore, with items to
come. -/
def pendingIn (kind : Kind) (t : Timeline) (value : Item → Option Value) (r s : Release)
    (todo : List Item) (item : Item) : Option Value :=
  if item.name ∈ todo.map (·.name) then item.droppedIn kind t value r else item.droppedIn kind t value s

variable {kind : Kind} {t : Timeline} {value : Item → Option Value} {r s : Release}

theorem pendingIn_cons {items : List Item} (names : (items.map (·.name)).Nodup) {item other : Item}
    {rest : List Item} (suffix : item :: rest <:+ items) (there : other ∈ items) :
    other.pendingIn kind t value r s (item :: rest) =
      if other.name = item.name then item.droppedIn kind t value r
      else other.pendingIn kind t value r s rest := by
  have listed : item ∈ items := suffix.mem (List.mem_cons_self ..)
  by_cases same : other.name = item.name
  · cases List.inj_on_of_nodup_map names there listed same
    simp [pendingIn]
  · simp [pendingIn, same]

/-- An item is pending only until its turn comes. -/
theorem pendingIn_done {items : List Item} (names : (items.map (·.name)).Nodup) {item other : Item}
    {rest : List Item} (suffix : item :: rest <:+ items) (there : other ∈ items)
    (same : other.name = item.name) :
    other.pendingIn kind t value r s rest = item.droppedIn kind t value s := by
  have listed : item ∈ items := suffix.mem (List.mem_cons_self ..)
  cases List.inj_on_of_nodup_map names there listed same
  have single : ((item :: rest).map (·.name)).Nodup := names.sublist (suffix.sublist.map _)
  exact if_neg (List.nodup_cons.mp single).1

end Item

namespace Container

/-- Whether a tracker has recorded the values that a conversion down to a version has dropped. -/
def Tracks (c : Container) (t : Timeline) (path : String) (value : Item → Option Value) (r : Release)
    (tracker : Option Tracker) : Prop :=
  Tracker.Keeping c.items path (Item.droppedIn c.kind t value r) tracker

variable {c : Container} {t : Timeline}

theorem holds_valueIn (c : Container) (t : Timeline) (r : Release) (x : Entries Value Value) :
    c.Holds t (Item.valueIn c.kind t x r) r x := by
  intro item _ m present
  rw [Item.valueIn, present, Option.bind_some]

/-- An edge down drops the values of the items that the older version does not have. -/
theorem Holds.droppedEntries_eq {value : Item → Option Value} {r s : Release} {fields : Entries Value Value}
    (holds : c.Holds t value r fields) (path : String) :
    Conversion.droppedEntries path fields (c.items.filterMap fun item =>
      Dropped.ofStatuses? item (item.statusIn c.kind t s) (item.statusIn c.kind t r)) =
      c.items.filterMap fun item =>
        (if (item.statusIn c.kind t r).member? = none then none
          else item.droppedIn c.kind t value s).map (.text (item.place path), ·) := by
  rw [Conversion.droppedEntries, List.filterMap_filterMap]
  refine List.filterMap_congr fun item listed => ?_
  rw [Dropped.ofStatuses?, Item.droppedIn, Status.isPresent]
  cases target : (item.statusIn c.kind t s).member? with
  | some m => simp
  | none =>
    cases source : (item.statusIn c.kind t r).member? with
    | none => simp
    | some m => simp [← holds item listed m source, Dropped.path, Item.place, String.append_assoc]

end Container

namespace Generation.Made

open Conversion

variable {c : Container} {g : Generation} (made : Made c g) (struct : c.kind = .struct)
  (keeps : ∀ item ∈ c.items, item.KeepsType) (flat : ∀ item ∈ c.items, item.nested = false)
  {depths : Depths} {functions : Functions} {nesting : Nesting} {path : String} {value : Item → Option Value}
  {fields : Entries Value Value}
include made

/-- A map whose keys are the names of a version has the values of the instance that is made of it. -/
theorem get?_instanceIn {r : Release} (member : r ∈ g.timeline.releases) {x : Entries Value Value}
    (keys : ∀ e ∈ x, ∃ name ∈ (c.definitionIn g.timeline r).names, e.1 = .text name) (key : Value) :
    Entries.get? (c.instanceIn g.timeline (Item.valueIn c.kind g.timeline x r) r) key = Entries.get? x key := by
  have made_keys : ∀ e ∈ c.instanceIn g.timeline (Item.valueIn c.kind g.timeline x r) r,
      ∃ name ∈ (c.definitionIn g.timeline r).names, e.1 = .text name := by
    intro e entry
    obtain ⟨item, listed, own⟩ := List.mem_filterMap.mp entry
    obtain ⟨m, v, present, _, rfl⟩ := Item.keyedIn_eq_some.mp own
    exact ⟨m.1, Container.mem_names_definitionIn.mpr ⟨item, listed, m, present, rfl⟩, rfl⟩
  by_cases named : ∃ name ∈ (c.definitionIn g.timeline r).names, key = .text name
  · obtain ⟨_, among, rfl⟩ := named
    obtain ⟨item, listed, m, present, rfl⟩ := Container.mem_names_definitionIn.mp among
    exact (made.holds_instanceIn member _ item listed m present).trans
      (c.holds_valueIn g.timeline r x item listed m present).symm
  · have missing : ∀ {entries : Entries Value Value},
        (∀ e ∈ entries, ∃ name ∈ (c.definitionIn g.timeline r).names, e.1 = .text name) →
        Entries.get? entries key = none := fun keys =>
      Option.eq_none_iff_forall_not_mem.mpr fun v found => named (Entries.exists_text_of_get? keys found)
    rw [missing made_keys, missing keys]

include struct keeps flat

/-- An edge down adds to the tracker the values of the items that the older version does not have. -/
theorem applyEdge_tracked_down {r s : Release} (atR : r ∈ g.timeline.releases)
    (atS : s ∈ g.timeline.releases) (next : r.rank = s.rank + 1) {e : Edge}
    (found : g.edge? r.name s.name = some e) (holds : c.Holds g.timeline value r fields)
    (copies : c.Copies depths value) {p : Progress} (before : c.Tracks g.timeline path value r p.tracker) :
    ∃ q, applyEdge depths functions nesting e (.map fields) path p =
      (.ok (.map (c.instanceIn g.timeline value s)), q) ∧
      c.Tracks g.timeline path value s q.tracker := by
  obtain ⟨t, tracked, kept⟩ := before
  obtain ⟨q, run, left⟩ := made.applyEdge_down struct atR atS found keeps flat holds copies next p
  rw [tracked, Option.map_some, holds.droppedEntries_eq] at left
  refine ⟨q, run, _, left, (kept.record made.item_names_nodup ?_).congr ?_⟩
  · intro item _ fresh
    split at fresh
    · exact absurd rfl fresh
    · rename_i present
      exact if_neg present
  · intro item _
    by_cases absent : (item.statusIn c.kind g.timeline r).member? = none
    · have older : (item.statusIn c.kind g.timeline s).member? = none := Item.absent_of_le (by omega) absent
      simp [Item.droppedIn, absent, older]
    · simp [Item.droppedIn, absent]

/-- An edge up takes from the tracker the values of the items that the newer version adds. -/
theorem applyEdge_tracked_up {r s : Release} (atR : r ∈ g.timeline.releases)
    (atS : s ∈ g.timeline.releases) (next : s.rank = r.rank + 1) {e : Edge}
    (found : g.edge? r.name s.name = some e) (holds : c.Holds g.timeline value r fields)
    (supplied : ∀ item ∈ c.items, (item.statusIn c.kind g.timeline r).member? = none →
      (item.statusIn c.kind g.timeline s).member? ≠ none → value item ≠ none) {p : Progress}
    (before : c.Tracks g.timeline path value r p.tracker) :
    ∃ q, applyEdge depths functions nesting e (.map fields) path p =
      (.ok (.map (c.instanceIn g.timeline value s)), q) ∧
      c.Tracks g.timeline path value s q.tracker := by
  have names := made.item_names_nodup
  have start : Tracker.Keeping c.items path (Item.pendingIn c.kind g.timeline value r s c.items)
      p.tracker := by
    obtain ⟨t, tracked, kept⟩ := before
    refine ⟨t, tracked, kept.congr fun item listed => ?_⟩
    exact (if_pos (List.mem_map_of_mem listed)).symm
  have restored : ∀ tracker,
      Tracker.Keeping c.items path (Item.pendingIn c.kind g.timeline value r s []) tracker →
      c.Tracks g.timeline path value s tracker := by
    rintro tracker ⟨t, left, last⟩
    exact ⟨t, left, last.congr fun item _ => if_neg List.not_mem_nil⟩
  refine (made.applyEdge_up struct atR atS found keeps flat holds next (fun todo =>
    Tracker.Keeping c.items path (Item.pendingIn c.kind g.timeline value r s todo)) ?_ ?_ start).imp
    fun q run => ⟨run.1, restored _ run.2⟩
  · intro item rest suffix a _ absent present
    have listed : item ∈ c.items := suffix.mem (List.mem_cons_self ..)
    obtain ⟨v, own⟩ := Option.ne_none_iff_exists'.mp (supplied item listed absent present)
    refine ⟨v, own, ?_⟩
    rintro p ⟨t, tracked, pending⟩
    have waiting : t.get? (.text (item.place path)) = some v := by
      rw [pending.get?_place names listed, Item.pendingIn_cons names suffix listed, if_pos rfl,
        Item.droppedIn, if_pos absent, own]
    refine ⟨_, newValue_tracked tracked waiting, _, rfl, (pending.erase names listed).congr ?_⟩
    intro other there
    by_cases same : other.name = item.name
    · rw [if_pos same, Item.pendingIn_done names suffix there same, Item.droppedIn, if_neg present]
    · rw [if_neg same, Item.pendingIn_cons names suffix there, if_neg same]
  · rintro item rest suffix unmoved tracker ⟨t, tracked, pending⟩
    refine ⟨t, tracked, pending.congr fun other there => ?_⟩
    rw [Item.pendingIn_cons names suffix there]
    split
    · rename_i same
      rw [Item.pendingIn_done names suffix there same, Item.droppedIn, Item.droppedIn]
      simp only [unmoved]
    · rfl

section Runs

variable {ι : Type} {rt : Runtime ι} (own : rt.generation = g) (room : Nat) {lo hi : Release}
  (atLo : lo ∈ g.timeline.releases) (atHi : hi ∈ g.timeline.releases) (below : lo.rank < hi.rank)
  {edges : List Edge} {p : Progress}
include own atLo atHi below

/-- A conversion down records the values of the items that are not there at the end. -/
theorem convert_tracked_down (along : g.edgesBetween hi.name lo.name = .ok edges)
    (holds : c.Holds g.timeline value hi fields) (copies : c.Copies depths value)
    (fits : c.Tracks g.timeline path value hi p.tracker) :
    ∃ q, rt.convertOn depths room hi.name lo.name (.map fields) path p =
      (.ok (.map (c.instanceIn g.timeline value lo)), q) ∧
      c.Tracks g.timeline path value lo q.tracker := by
  have apart : hi ≠ lo := by
    rintro rfl
    omega
  refine made.convert_run own room path (c.Tracks g.timeline path value) ?_ atHi atLo apart
    (made.sound.pathBetween_descends atHi below.le) along holds fits
  intro r atR s atS next e found fields holds nesting p before
  exact made.applyEdge_tracked_down struct keeps flat atR atS next found holds copies before

/-- A conversion up takes out again what the conversion down has recorded. -/
theorem convert_tracked_up (along : g.edgesBetween lo.name hi.name = .ok edges)
    (holds : c.Holds g.timeline value lo fields)
    (supplied : ∀ item ∈ c.items, (item.statusIn c.kind g.timeline lo).member? = none →
      (item.statusIn c.kind g.timeline hi).member? ≠ none → value item ≠ none)
    (fits : c.Tracks g.timeline path value lo p.tracker) :
    ∃ q, rt.convertOn depths room lo.name hi.name (.map fields) path p =
      (.ok (.map (c.instanceIn g.timeline value hi)), q) ∧
      c.Tracks g.timeline path value hi q.tracker := by
  have apart : lo ≠ hi := by
    rintro rfl
    omega
  refine made.convert_run own room path (c.Tracks g.timeline path value) ?_ atLo atHi apart
    (made.sound.pathBetween_climbs atLo below.le) along holds fits
  rintro r atR s atS ⟨above, next, atMost⟩ e found fields holds nesting p before
  refine made.applyEdge_tracked_up struct keeps flat atR atS next found holds ?_ before
  intro item listed absent present
  refine supplied item listed (Item.absent_of_le above absent) fun missing => ?_
  exact present (Item.absent_of_le atMost missing)

/-- What a conversion down and one up with a tracker make of a map are its own values, whatever of them
the older version does not have, and nothing is left in the tracker. In between the tracker is written
and read again, and neither the older map nor what is written holds values that are deeper than before. -/
theorem convert_restores (path : String) (p : Progress)
    (down : g.edgesBetween hi.name lo.name = .ok edges) {others : List Edge}
    (up : g.edgesBetween lo.name hi.name = .ok others) {x : Entries Value Value}
    (keys : ∀ e ∈ x, ∃ name ∈ (c.definitionIn g.timeline hi).names, e.1 = .text name)
    (filled : ∀ item ∈ c.items, (item.statusIn c.kind g.timeline lo).member? = none →
      ∀ m, (item.statusIn c.kind g.timeline hi).member? = some m → Value.member? x m.1 ≠ none)
    (copies : depths.Copies (.map x)) :
    ∃ y q t w u, rt.convertOn depths room hi.name lo.name (.map x) path { p with tracker := some .empty } =
        (.ok (.map y), q) ∧
      q.tracker = some t ∧ t.toValue = .ok w ∧ Tracker.ofValue w = .ok u ∧
      Value.depth.entryDepth y ≤ Value.depth.entryDepth x ∧ w.depth ≤ Value.depth.entryDepth x + 2 ∧
      ∀ p' : Progress, ∃ z q',
        rt.convertOn depths room lo.name hi.name (.map y) path { p' with tracker := some u } =
          (.ok (.map z), q') ∧
        q'.tracker = some .empty ∧ ∀ key, Entries.get? z key = Entries.get? x key := by
  have complete : ∀ item ∈ c.items, item.droppedIn c.kind g.timeline
      (Item.valueIn c.kind g.timeline x hi) hi = none := fun item _ => item.droppedIn_valueIn ..
  have supplied : ∀ item ∈ c.items, (item.statusIn c.kind g.timeline lo).member? = none →
      (item.statusIn c.kind g.timeline hi).member? ≠ none →
      item.valueIn c.kind g.timeline x hi ≠ none := by
    intro item listed absent present
    obtain ⟨m, there⟩ := Option.ne_none_iff_exists'.mp present
    rw [Item.valueIn, there, Option.bind_some]
    exact filled item listed absent m there
  have untouched : c.Tracks g.timeline path (Item.valueIn c.kind g.timeline x hi) hi
      ({ p with tracker := some .empty } : Progress).tracker :=
    ⟨.empty, rfl, Tracker.Keeps.empty.congr fun item listed => (complete item listed).symm⟩
  have shallow : ∀ (item : Item) (v : Value), item.valueIn c.kind g.timeline x hi = some v →
      v.depth ≤ Value.depth.entryDepth x := by
    intro item v own
    obtain ⟨m, _, found⟩ := Option.bind_eq_some_iff.mp own
    have inside := Value.depth_lt_of_member? found
    simp only [Value.depth] at inside
    omega
  have parts : c.Copies depths (Item.valueIn c.kind g.timeline x hi) := by
    intro item _ v own
    refine copies.of_depth_le ?_
    have := shallow item v own
    simp only [Value.depth]
    omega
  obtain ⟨q, first, t, left, kept⟩ := made.convert_tracked_down struct keeps flat own room atLo atHi below down
    (c.holds_valueIn g.timeline hi x) parts untouched
  obtain ⟨w, u, written, loaded, again, bound⟩ := kept.reload
  refine ⟨_, q, t, w, u, first, left, written, loaded, Value.entryDepth_le ?_, bound _ ?_, fun p' => ?_⟩
  · intro e member
    obtain ⟨item, _, keyed⟩ := List.mem_filterMap.mp member
    obtain ⟨_, v, _, own, rfl⟩ := Item.keyedIn_eq_some.mp keyed
    exact shallow item v own
  · intro item _ v dropped
    rw [Item.droppedIn] at dropped
    split at dropped
    · exact shallow item v dropped
    · cases dropped
  have reread : c.Tracks g.timeline path (Item.valueIn c.kind g.timeline x hi) lo
      ({ p' with tracker := some u } : Progress).tracker :=
    ⟨u, rfl, again⟩
  obtain ⟨q', second, t', left', kept'⟩ := made.convert_tracked_up struct keeps flat own room atLo atHi below up
    (made.holds_instanceIn atLo _) supplied reread
  cases kept'.eq_empty complete
  exact ⟨_, q', second, left', made.get?_instanceIn atHi keys⟩

end Runs

end Generation.Made

end Lineage
