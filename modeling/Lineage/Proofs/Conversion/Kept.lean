import Lineage.Item
import Lineage.Proofs.Conversion.Tracker
import Lineage.Proofs.Entries
import Lineage.Value.Depth

namespace Lineage

/-- The path under which the value of an item is recorded when it is dropped. -/
def Item.place (path : String) (item : Item) : String :=
  path ++ "." ++ item.name

theorem Item.name_of_place {path : String} {left right : Item} (same : left.place path = right.place path) :
    left.name = right.name := by
  have cs := congrArg String.toList same
  simp only [place, String.toList_append, List.append_assoc, List.append_cancel_left_eq] at cs
  exact String.toList_injective cs

namespace Tracker

/-- Recorded values are read one after the other. -/
theorem load_texts {entries : List (Value × Value)} (texts : ∀ e ∈ entries, ∃ name, e.1 = .text name)
    (t : Tracker) :
    t.load (entries.map fun e => .object [("jsonPath", e.1), ("value", e.2)]) =
      .ok ⟨Entries.putAll t.values entries⟩ := by
  induction entries generalizing t with
  | nil => rfl
  | cons e rest ih =>
    obtain ⟨key, v⟩ := e
    obtain ⟨name, rfl⟩ : ∃ name, key = .text name := texts _ (List.mem_cons_self ..)
    have path : Value.member? [(.text "jsonPath", .text name), (.text "value", v)] "jsonPath" =
        some (.text name) := by
      simp [Value.member?, Entries.get?]
    have value : Value.member? [(.text "jsonPath", .text name), (.text "value", v)] "value" = some v := by
      simp [Value.member?, Entries.get?]
    rw [List.map_cons]
    refine (load_map t _ _).trans ?_
    simp only [List.map_cons, List.map_nil, path, value]
    exact ih (fun f member => texts f (List.mem_cons_of_mem _ member)) _

/-- Whether a tracker has recorded exactly one value for each of the items that have one. -/
structure Keeps (items : List Item) (path : String) (kept : Item → Option Value) (t : Tracker) : Prop where
  distinct : (t.values.map (·.1)).Nodup
  mem_iff : ∀ e, e ∈ t.values ↔ ∃ item ∈ items, ∃ v, kept item = some v ∧ (Value.text (item.place path), v) = e

/-- Whether there is a tracker that has recorded these values. -/
def Keeping (items : List Item) (path : String) (kept : Item → Option Value) (tracker : Option Tracker) :
    Prop :=
  ∃ t, tracker = some t ∧ t.Keeps items path kept

namespace Keeps

variable {items : List Item} {path : String} {kept fresh : Item → Option Value} {t : Tracker}

theorem congr (keeps : t.Keeps items path kept) (same : ∀ item ∈ items, kept item = fresh item) :
    t.Keeps items path fresh := by
  refine ⟨keeps.distinct, fun e => (keeps.mem_iff e).trans ?_⟩
  exact exists_congr fun item => and_congr_right fun listed => by rw [same item listed]

theorem empty : Tracker.empty.Keeps items path fun _ => none :=
  ⟨List.nodup_nil, by simp [Tracker.empty]⟩

theorem eq_empty (keeps : t.Keeps items path kept) (none : ∀ item ∈ items, kept item = none) : t = .empty := by
  cases t with
  | mk values =>
    refine congrArg Tracker.mk (List.eq_nil_iff_forall_not_mem.mpr fun e member => ?_)
    obtain ⟨item, listed, v, own, _⟩ := (keeps.mem_iff e).mp member
    cases (none item listed).symm.trans own

theorem texts (keeps : t.Keeps items path kept) : ∀ e ∈ t.values, ∃ name, e.1 = .text name := by
  intro e member
  obtain ⟨item, _, v, _, rfl⟩ := (keeps.mem_iff e).mp member
  exact ⟨_, rfl⟩

/-- A tracker is read from the list that it is written to, whatever the order of its values. The list is
two levels deeper than these at most. -/
theorem reload (keeps : t.Keeps items path kept) :
    ∃ w u, t.toValue = .ok w ∧ ofValue w = .ok u ∧ u.Keeps items path kept ∧
      ∀ n, (∀ item ∈ items, ∀ v, kept item = some v → v.depth ≤ n) → w.depth ≤ n + 2 := by
  have ordered : ∀ a b : Value × Value, (∃ s, a.1 = .text s) → (∃ s, b.1 = .text s) →
      ∃ r, a.1.less b.1 = .ok r := by
    rintro ⟨_, v⟩ ⟨_, w⟩ ⟨s, rfl⟩ ⟨s', rfl⟩
    exact ⟨_, rfl⟩
  obtain ⟨entries, run, perm⟩ := sorted_ok ordered keeps.texts
  have distinct : (entries.map (·.1)).Nodup := (perm.map _).nodup_iff.mpr keeps.distinct
  have texts : ∀ e ∈ entries, ∃ name, e.1 = .text name := fun e member =>
    keeps.texts e (perm.mem_iff.mp member)
  refine ⟨.list (entries.map fun e => .object [("jsonPath", e.1), ("value", e.2)]), ⟨entries⟩, ?_, ?_,
    ⟨distinct, fun e => perm.mem_iff.trans (keeps.mem_iff e)⟩, ?_⟩
  · rw [toValue, run]
    rfl
  · cases entries with
    | nil => rfl
    | cons e rest =>
      have loaded := load_texts texts Tracker.empty
      have whole : Entries.putAll Tracker.empty.values (e :: rest) = e :: rest :=
        @Entries.putAll_of_distinct _ [] _ texts distinct
      rw [whole] at loaded
      exact loaded
  · intro n bounded
    refine Nat.succ_le_succ (Value.itemDepth_le ?_)
    rw [List.forall_mem_map]
    intro e member
    obtain ⟨item, listed, v, own, rfl⟩ := (keeps.mem_iff e).mp (perm.mem_iff.mp member)
    refine Nat.succ_le_succ (Value.entryDepth_le ?_)
    simpa [Value.depth] using bounded item listed v own

variable (names : (items.map (·.name)).Nodup)
include names

theorem item_of_place {left right : Item} (first : left ∈ items) (second : right ∈ items)
    (same : left.place path = right.place path) : left = right :=
  List.inj_on_of_nodup_map names first second (Item.name_of_place same)

theorem get?_place (keeps : t.Keeps items path kept) {item : Item} (listed : item ∈ items) :
    t.get? (.text (item.place path)) = kept item := by
  refine Option.ext fun v => ?_
  rw [Tracker.get?, Entries.get?_text_iff keeps.distinct, keeps.mem_iff]
  constructor
  · rintro ⟨other, there, w, own, same⟩
    obtain ⟨place, rfl⟩ := Prod.mk.inj same
    rwa [← item_of_place names there listed (Value.text.inj place)]
  · intro own
    exact ⟨item, listed, v, own, rfl⟩

/-- The value of an item can be taken out. -/
theorem erase (keeps : t.Keeps items path kept) {item : Item} (listed : item ∈ items) :
    (t.erase (.text (item.place path))).Keeps items path
      fun other => if other.name = item.name then none else kept other := by
  refine ⟨keeps.distinct.sublist (List.eraseP_sublist.map _), fun e => ?_⟩
  rw [Tracker.erase, Entries.mem_erase_text keeps.distinct, keeps.mem_iff]
  constructor
  · rintro ⟨⟨other, there, v, own, rfl⟩, apart⟩
    refine ⟨other, there, v, ?_, rfl⟩
    rw [if_neg]
    · exact own
    · intro same
      cases List.inj_on_of_nodup_map names there listed same
      exact apart rfl
  · rintro ⟨other, there, v, own, rfl⟩
    split at own
    · cases own
    · rename_i different
      exact ⟨⟨other, there, v, own, rfl⟩, fun same => different (Item.name_of_place (Value.text.inj same))⟩

/-- Values of items that have none yet can be recorded. -/
theorem record (keeps : t.Keeps items path kept) (new : ∀ item ∈ items, fresh item ≠ none → kept item = none) :
    (Tracker.mk (Entries.putAll t.values (items.filterMap fun item =>
      (fresh item).map (Value.text (item.place path), ·)))).Keeps items path
      fun item => kept item <|> fresh item := by
  have mem_new : ∀ e, e ∈ (items.filterMap fun item => (fresh item).map (Value.text (item.place path), ·)) ↔
      ∃ item ∈ items, ∃ v, fresh item = some v ∧ (Value.text (item.place path), v) = e := by
    simp [List.mem_filterMap]
  have single : ((items.filterMap fun item =>
      (fresh item).map (Value.text (item.place path), ·)).map (·.1)).Nodup := by
    rw [List.Nodup, List.pairwise_map, List.pairwise_filterMap]
    refine (List.pairwise_map.mp names).imp fun {left right} apart e own f other same => apart ?_
    obtain ⟨v, _, rfl⟩ := Option.map_eq_some_iff.mp own
    obtain ⟨w, _, rfl⟩ := Option.map_eq_some_iff.mp other
    exact Item.name_of_place (Value.text.inj same)
  have distinct : ((t.values ++ items.filterMap fun item =>
      (fresh item).map (Value.text (item.place path), ·)).map (·.1)).Nodup := by
    rw [List.map_append, List.nodup_append]
    refine ⟨keeps.distinct, single, ?_⟩
    rintro _ old _ added rfl
    obtain ⟨e, member, key⟩ := List.mem_map.mp old
    obtain ⟨f, listed, same⟩ := List.mem_map.mp added
    obtain ⟨left, first, v, own, rfl⟩ := (keeps.mem_iff e).mp member
    obtain ⟨right, second, w, other, rfl⟩ := (mem_new f).mp listed
    cases item_of_place names first second (Value.text.inj (key.trans same.symm))
    cases own.symm.trans (new left first (by simp [other]))
  rw [Entries.putAll_of_distinct (fun e member => ?_) distinct]
  · refine ⟨distinct, fun e => ?_⟩
    rw [List.mem_append, keeps.mem_iff, mem_new]
    constructor
    · rintro (⟨item, listed, v, own, same⟩ | ⟨item, listed, v, own, same⟩)
      · exact ⟨item, listed, v, by simp [own], same⟩
      · exact ⟨item, listed, v, by simp [new item listed (by simp [own]), own], same⟩
    · rintro ⟨item, listed, v, own, same⟩
      cases old : kept item with
      | some w => exact Or.inl ⟨item, listed, v, by simpa [old] using own, same⟩
      | none => exact Or.inr ⟨item, listed, v, by simpa [old] using own, same⟩
  · obtain ⟨item, _, v, _, rfl⟩ := (mem_new e).mp member
    exact ⟨_, rfl⟩

end Keeps

end Tracker

end Lineage
