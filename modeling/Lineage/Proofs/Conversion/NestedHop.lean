import Lineage.Proofs.Conversion.Lowering
import Lineage.Proofs.Conversion.Tracked

namespace Lineage

namespace Drops

variable {place lead : String} {drops more : Drops} {items : List Item}

theorem behind_append : behind lead (drops ++ more) = behind lead drops ++ behind lead more :=
  List.map_append

/-- The dropped values of items, each behind the name of its item. -/
def ofItems (items : List Item) (drops : Item → Drops) : Drops :=
  items.flatMap fun item => behind ("." ++ item.name) (drops item)

theorem under_ofItems_append (done : List Item) (item : Item) (rest : List Item) (drops : Item → Drops) :
    under place (ofItems (done ++ item :: rest) drops) = under place (ofItems done drops) ++
      (under (place ++ ("." ++ item.name)) (drops item) ++ under place (ofItems rest drops)) := by
  rw [ofItems, List.flatMap_append, List.flatMap_cons, under_append, under_append, under_behind]
  rfl

theorem under_ofItems_concat (done : List Item) (item : Item) (drops : Item → Drops) :
    under place (ofItems (done ++ [item]) drops) =
      under place (ofItems done drops) ++ under (place ++ ("." ++ item.name)) (drops item) := by
  have nothing : under place (ofItems [] drops) = [] := rfl
  rw [under_ofItems_append, nothing, List.append_nil]

/-- What is dropped of an item is not dropped of the items before it, if no two values are dropped at one
path. -/
theorem not_mem_under_ofItems {done rest : List Item} {item : Item} {drops : Item → Drops}
    (distinct : (ofItems (done ++ item :: rest) drops).paths.Nodup) {e : Value × Value}
    (member : e ∈ under (place ++ ("." ++ item.name)) (drops item)) : e ∉ under place (ofItems done drops) := by
  rw [ofItems, List.flatMap_append, List.flatMap_cons, ← List.append_assoc, paths_append, List.nodup_append]
    at distinct
  rw [← under_behind] at member
  exact fun early => not_mem_under distinct.1 early member

theorem under_behind_toList (item : Item) (value : Option Value) :
    under place (behind ("." ++ item.name) (value.toList.map ("", ·))) =
      (value.map (Value.text (item.place place), ·)).toList := by
  rw [under_behind, Item.place, String.append_assoc]
  cases value with
  | none => rfl
  | some v =>
    simp only [under, Option.toList_some, List.map_cons, List.map_nil, String.append_empty, Option.map_some]

/-- It makes no difference but to their order if some values of each item are dropped after the others of
all items. -/
theorem ofItems_perm (items : List Item) (drops more : Item → Drops) :
    (ofItems items drops ++ ofItems items more).Perm (ofItems items fun item => drops item ++ more item) := by
  simp only [ofItems, behind_append]
  exact List.flatMap_append_perm ..

end Drops

/-- Whether a tracker holds what another one holds and, put behind that, the dropped values of items. -/
def Tracker.Recorded (t : Tracker) (place : String) (drops : Item → Drops) (done : List Item)
    (tracker : Option Tracker) : Prop :=
  tracker = some ⟨Entries.putAll t.values ((Drops.ofItems done drops).under place)⟩

/-- Whether a tracker is another one without the dropped values of items. -/
def Tracker.Restored (t : Tracker) (place : String) (drops : Item → Drops) (done : List Item)
    (tracker : Option Tracker) : Prop :=
  ∃ u, tracker = some u ∧ t.Frees ((Drops.ofItems done drops).under place) u

theorem Tracker.Recorded.concat {t : Tracker} {place : String} {drops : Item → Drops} {done : List Item}
    {tracker : Option Tracker} (recorded : t.Recorded place drops done tracker) (item : Item) :
    t.Recorded place drops (done ++ [item]) (tracker.map fun u =>
      ⟨Entries.putAll u.values ((drops item).under (place ++ ("." ++ item.name)))⟩) := by
  rw [recorded, Recorded, Drops.under_ofItems_concat, Entries.putAll_append, Option.map_some]

namespace Conversion.Lowers

variable {lower raise : Value → (place : String) → Run Value} {item : Item} {old new : Status}
  {value made : Option Value} {inner own : Drops}

/-- A value is dropped itself if the item is not in the version before. -/
theorem own_eq (lowers : Lowers lower raise item old new value made inner own) :
    own = (if new.member? = none then none
      else if old.member? = none then value else none).toList.map ("", ·) := by
  cases lowers with
  | absent before after => simp [after]
  | dropped before after => simp [before, after]
  | missing before after | copied before after | nested before after => simp [before, after]

end Conversion.Lowers

namespace Generation.Made

open Conversion

variable {c : Container} {g : Generation} (made : Made c g) (struct : c.kind = .struct)
  (keeps : ∀ item ∈ c.items, item.KeepsType) {older newer : Release} (atOlder : older ∈ g.timeline.releases)
  (atNewer : newer ∈ g.timeline.releases) (next : newer.rank = older.rank + 1) {functions : Functions}
  {below above : Nesting} {down up : Edge} {value lowered : Item → Option Value} {inner own : Item → Drops}
  {fields : Entries Value Value}
  (lowers : ∀ item ∈ c.items, Lowers (hintedValue .free functions below down item.type item.type item.hint)
    (hintedValue .free functions above up item.type item.type item.hint) item (item.statusIn c.kind g.timeline older)
    (item.statusIn c.kind g.timeline newer) (value item) (lowered item) (inner item) (own item))
include made struct keeps atOlder atNewer next lowers

/-- An edge down records what is dropped inside of the values of the items, and after that the values of
the items that the older version does not have. -/
theorem applyEdge_lowers (found : g.edge? newer.name older.name = some down)
    (holds : c.Holds g.timeline value newer fields) (place : String) (p : Progress) (t : Tracker)
    (tracked : p.tracker = some t) :
    ∃ q, applyEdge .free functions below down (.map fields) place p =
        (.ok (.map (c.instanceIn g.timeline lowered older)), q) ∧
      q.tracker = some ⟨Entries.putAll t.values
        ((Drops.ofItems c.items inner ++ Drops.ofItems c.items own).under place)⟩ := by
  have puts : ∀ done item rest, done ++ item :: rest = c.items → Puts .free functions below down place fields
      (t.Recorded place inner done) (t.Recorded place inner (done ++ [item]))
      (FieldStep.downgrade? item (item.statusIn c.kind g.timeline older) (item.statusIn c.kind g.timeline newer))
      (item.keyedIn c.kind g.timeline older (lowered item)) := by
    intro done item rest split
    have listed : item ∈ c.items := split ▸ List.mem_append_right _ (List.mem_cons_self ..)
    refine (lowers item listed).puts_down (made.follows atOlder atNewer next listed)
      (Item.altersType_statusIn (keeps item listed) newer)
      (fun m present => Item.type_of_statusIn (keeps item listed) present)
      (fun n present => Item.type_of_statusIn (keeps item listed) present) (holds item listed) ?_
    rintro tracker rfl
    exact ⟨_, rfl, Tracker.Recorded.concat rfl item⟩
  have steps := congrArg Edge.steps (made.edge_down struct atNewer atOlder found next)
  obtain ⟨q, run, left⟩ := made.applyEdge_of_puts_done steps (copiesDropped_free _ _) atOlder puts (p := p) tracked
  refine ⟨_, run, ?_⟩
  have entries : (Drops.ofItems c.items own).under place = droppedEntries place fields
      (c.items.filterMap fun item => Dropped.ofStatuses? item (item.statusIn c.kind g.timeline older)
        (item.statusIn c.kind g.timeline newer)) := by
    rw [holds.droppedEntries_eq, List.filterMap_eq_flatMap_toList, Drops.ofItems, Drops.under,
      List.map_flatMap]
    refine List.flatMap_congr fun item listed => ?_
    rw [(lowers item listed).own_eq, Item.droppedIn]
    exact Drops.under_behind_toList item _
  rw [Tracker.Recorded] at left
  rw [left, Drops.under_append, Entries.putAll_append, entries]
  rfl

/-- An edge up makes values again that are alike, out of values that are alike, and takes all that was
recorded out of the tracker. -/
theorem applyEdge_raises (found : g.edge? older.name newer.name = some up)
    (distinct : (Drops.ofItems c.items fun item => inner item ++ own item).paths.Nodup)
    (alike : ∀ item ∈ c.items, ∀ m, (item.statusIn c.kind g.timeline older).member? = some m →
      Option.Rel Value.Alike (Value.member? fields m.1) (lowered item)) :
    ∃ back : Item → Option Value, (∀ item ∈ c.items, Option.Rel Value.Alike (back item) (value item)) ∧
      ∀ place (p : Progress) t, p.tracker = some t → (t.values.map (·.1)).Nodup →
        (Drops.ofItems c.items fun item => inner item ++ own item).under place ⊆ t.values →
        ∃ q u, applyEdge .free functions above up (.map fields) place p =
            (.ok (.map (c.instanceIn g.timeline back newer)), q) ∧ q.tracker = some u ∧
          t.Frees ((Drops.ofItems c.items fun item => inner item ++ own item).under place) u := by
  have each := fun item (listed : item ∈ c.items) =>
    (lowers item listed).puts_up (made.follows atOlder atNewer next listed)
      (Item.altersType_statusIn (keeps item listed) newer)
      (fun m present => Item.type_of_statusIn (keeps item listed) present)
      (fun n present => Item.type_of_statusIn (keeps item listed) present) (alike item listed)
  choose! back close restores using each
  refine ⟨back, close, fun place p t tracked single inside => ?_⟩
  have puts : ∀ done item rest, done ++ item :: rest = c.items → Puts .free functions above up place fields
      (t.Restored place (fun item => inner item ++ own item) done)
      (t.Restored place (fun item => inner item ++ own item) (done ++ [item]))
      (FieldStep.upgrade? item (item.statusIn c.kind g.timeline older) (item.statusIn c.kind g.timeline newer))
      (item.keyedIn c.kind g.timeline newer (back item)) := by
    intro done item rest split
    have listed : item ∈ c.items := split ▸ List.mem_append_right _ (List.mem_cons_self ..)
    refine restores item listed place _ _ ?_
    rintro tracker ⟨u, rfl, frees⟩
    rw [← split] at distinct inside
    rw [Drops.under_ofItems_append] at inside
    refine ⟨u, rfl, frees.distinct, ?_, fun u' freed => ?_⟩
    · refine frees.subset (fun e member => inside ?_) fun e => Drops.not_mem_under_ofItems distinct
      exact List.mem_append_right _ (List.mem_append_left _ member)
    · refine ⟨u', rfl, ?_⟩
      rw [Drops.under_ofItems_concat]
      exact frees.trans freed
  have steps := congrArg Edge.steps (made.edge_up struct atOlder atNewer found next)
  obtain ⟨q, run, u, left, frees⟩ := made.applyEdge_of_puts_done steps (copiesDropped_free _ _) atNewer puts (p := p)
    ⟨t, tracked, .nothing single⟩
  exact ⟨_, u, run, by rw [left]; rfl, frees⟩

section Restores

variable {x : Entries Value Value} (single : (x.map (·.1)).Nodup)
  (keys : ∀ e ∈ x, ∃ name ∈ (c.definitionIn g.timeline newer).names, e.1 = .text name)
include single keys

omit lowers struct keeps atOlder next in
/-- An instance is alike if the values of its items are. -/
theorem alike_instanceIn {back : Item → Option Value} (close : ∀ item ∈ c.items,
      Option.Rel Value.Alike (back item) (item.valueIn c.kind g.timeline x newer)) :
    (Value.map (c.instanceIn g.timeline back newer)).Alike (.map x) := by
  have holds := made.holds_instanceIn atNewer back
  have held := c.holds_valueIn g.timeline newer x
  have both : ∀ item ∈ c.items, (∃ v, back item = some v) ↔
      ∃ v, item.valueIn c.kind g.timeline x newer = some v := by
    intro item listed
    have rel := close item listed
    generalize back item = left at rel
    generalize item.valueIn c.kind g.timeline x newer = right at rel
    cases rel <;> simp
  refine .map ((List.perm_ext_iff_of_nodup (made.instanceIn_nodup atNewer back) single).mpr fun key => ?_) ?_
  · constructor
    · intro among
      obtain ⟨e, entry, rfl⟩ := List.mem_map.mp among
      obtain ⟨item, listed, own⟩ := List.mem_filterMap.mp entry
      obtain ⟨m, v, present, there, rfl⟩ := Item.keyedIn_eq_some.mp own
      obtain ⟨w, other⟩ := (both item listed).mp ⟨v, there⟩
      have found : Entries.get? x (.text m.1) = some w := (held item listed m present).trans other
      exact List.mem_map.mpr ⟨_, (Entries.get?_text_iff single).mp found, rfl⟩
    · intro among
      obtain ⟨e, entry, rfl⟩ := List.mem_map.mp among
      obtain ⟨name, named, text⟩ := keys e entry
      obtain ⟨item, listed, m, present, rfl⟩ := Container.mem_names_definitionIn.mp named
      have found : Value.member? x m.1 = some e.2 := (Entries.get?_text_iff single).mpr (text ▸ entry)
      obtain ⟨v, there⟩ := (both item listed).mpr ⟨_, (held item listed m present).symm.trans found⟩
      have made : (Value.text m.1, v) ∈ c.instanceIn g.timeline back newer :=
        List.mem_filterMap.mpr ⟨item, listed, Item.keyedIn_eq_some.mpr ⟨m, v, present, there, rfl⟩⟩
      rw [text]
      exact List.mem_map_of_mem made
  · intro key v w here there
    obtain ⟨name, named, rfl⟩ := Entries.exists_text_of_get? keys there
    obtain ⟨item, listed, m, present, rfl⟩ := Container.mem_names_definitionIn.mp named
    have rel := close item listed
    rw [← holds item listed m present, ← held item listed m present, Value.member?, here, Value.member?, there]
      at rel
    cases rel with
    | some close => exact close

/-- Edges down and up between two versions restore an instance if the steps of its items do so. -/
theorem restores_hop (foundDown : g.edge? newer.name older.name = some down)
    (foundUp : g.edge? older.name newer.name = some up)
    (reads : value = Item.valueIn c.kind g.timeline x newer)
    (distinct : (Drops.ofItems c.items fun item => inner item ++ own item).paths.Nodup) :
    Restores (applyEdge .free functions below down) (applyEdge .free functions above up) (.map x)
      (.map (c.instanceIn g.timeline lowered older))
      (Drops.ofItems c.items inner ++ Drops.ofItems c.items own) := by
  subst reads
  have holds := c.holds_valueIn g.timeline newer x
  have reorder := Drops.ofItems_perm c.items inner own
  refine ⟨fun place p t tracked => ?_, fun w' alike => ?_⟩
  · exact made.applyEdge_lowers struct keeps atOlder atNewer next lowers foundDown holds place p t tracked
  · obtain ⟨y, rfl, entries⟩ := alike.of_map
    obtain ⟨back, close, restores⟩ := made.applyEdge_raises struct keeps atOlder atNewer next lowers foundUp
      distinct fun item listed m present => by
        rw [← made.holds_instanceIn atOlder lowered item listed m present]
        exact entries (.text m.1)
    refine ⟨_, made.alike_instanceIn atNewer single keys close, fun place p t tracked apart inside => ?_⟩
    obtain ⟨q, u, run, left, frees⟩ := restores place p t tracked apart
      fun e member => inside ((reorder.map _).mem_iff.mpr member)
    exact ⟨q, u, run, left, frees.congr fun e => (reorder.map _).mem_iff⟩

end Restores

end Generation.Made

end Lineage
