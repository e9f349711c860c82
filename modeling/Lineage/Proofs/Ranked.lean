import Mathlib.Data.List.Dedup
import Mathlib.Data.List.Induction
import Mathlib.Data.List.TakeWhile
import Lineage.Ranked

namespace Lineage

section Segments

variable {α : Type} {p : α → Bool} {xs : List α} {x : α}

/-- Where a property that fails once fails from there on, what comes after the first items that have it
are the items without it. -/
theorem mem_dropWhile_iff (closed : xs.Pairwise fun x y => p y = true → p x = true) :
    x ∈ xs.dropWhile p ↔ x ∈ xs ∧ p x = false := by
  induction xs with
  | nil => simp
  | cons y rest ih =>
    obtain ⟨first, closed⟩ := List.pairwise_cons.mp closed
    by_cases holds : p y = true
    · rw [List.dropWhile_cons_of_pos holds, ih closed, List.mem_cons]
      refine ⟨fun ⟨later, fails⟩ => ⟨Or.inr later, fails⟩, fun ⟨member, fails⟩ => ⟨?_, fails⟩⟩
      exact member.resolve_left fun same => by rw [same, holds] at fails; cases fails
    · rw [List.dropWhile_cons_of_neg holds]
      refine ⟨fun member => ⟨member, ?_⟩, And.left⟩
      rcases List.mem_cons.mp member with rfl | later
      · exact Bool.eq_false_iff.mpr holds
      · exact Bool.eq_false_iff.mpr fun passes => holds (first x later passes)

theorem mem_takeWhile_iff (closed : xs.Pairwise fun x y => p y = true → p x = true) :
    x ∈ xs.takeWhile p ↔ x ∈ xs ∧ p x = true := by
  refine ⟨fun member => ⟨(List.takeWhile_sublist p).mem member, List.mem_takeWhile_imp member⟩, ?_⟩
  rintro ⟨member, passes⟩
  rw [← List.takeWhile_append_dropWhile (p := p) (l := xs), List.mem_append] at member
  refine member.resolve_right fun later => ?_
  rw [(mem_dropWhile_iff closed).mp later |>.2] at passes
  cases passes

end Segments

namespace Ranked

variable {α : Type} {before after : Ranked α} {key : Int} {value : α}

/-- Below all keys a value is inserted at the start. -/
theorem insert_of_below (above : ∀ e ∈ after, key < e.1) :
    insert after key value = (key, value) :: after := by
  cases after with
  | nil => rfl
  | cons e rest => simp only [insert, above e (List.mem_cons_self ..), if_true]

theorem insert_append (below : ∀ e ∈ before, e.1 < key) :
    insert (before ++ after) key value = before ++ insert after key value := by
  induction before with
  | nil => rfl
  | cons e rest ih =>
    have less := below e (List.mem_cons_self ..)
    simp only [List.cons_append, insert, if_neg (by omega : ¬ key < e.1), if_neg (by omega : ¬ key = e.1)]
    rw [ih fun e member => below e (List.mem_cons_of_mem _ member)]

theorem has_iff {entries : Ranked α} : has entries key = true ↔ ∃ e ∈ entries, e.1 = key := by
  simp [has]

theorem has_eq_isSome_get? (entries : Ranked α) (key : Int) : has entries key = (get? entries key).isSome := by
  rw [has, get?, Option.isSome_map, Bool.eq_iff_iff, List.find?_isSome, List.any_eq_true]

theorem lower?_append (below : ∀ e ∈ before, e.1 < key) (above : ∀ e ∈ after, key < e.1) :
    lower? (before ++ after) key = before.getLast? := by
  have stops : after.takeWhile (fun e => e.1 < key) = [] := by
    cases after with
    | nil => rfl
    | cons e rest =>
      have greater := above e (List.mem_cons_self ..)
      exact List.takeWhile_cons_of_neg (by simp; omega)
  rw [lower?, List.takeWhile_append_of_pos (by simpa using below), stops, List.append_nil]

theorem upper?_append (below : ∀ e ∈ before, e.1 < key) (above : ∀ e ∈ after, key < e.1) :
    upper? (before ++ after) key = after.head? := by
  have all : after.dropWhile (fun e => e.1 ≤ key) = after := by
    cases after with
    | nil => rfl
    | cons e rest =>
      have greater := above e (List.mem_cons_self ..)
      exact List.dropWhile_cons_of_neg (by simp; omega)
  rw [upper?, List.dropWhile_append_of_pos (fun e member => by simpa using Int.le_of_lt (below e member)), all]

/-- Under a key that is not there a value is inserted behind the lower keys. -/
theorem insert_of_absent {entries : Ranked α} (absent : ∀ e ∈ entries, e.1 ≠ key) :
    insert entries key value = entries.takeWhile (fun e => decide (e.1 ≤ key)) ++
      (key, value) :: entries.dropWhile fun e => decide (e.1 ≤ key) := by
  induction entries with
  | nil => rfl
  | cons e rest ih =>
    obtain ⟨other, later⟩ := List.forall_mem_cons.mp absent
    by_cases above : key < e.1
    · simp [insert, above]
    · have atMost : e.1 ≤ key := Int.not_lt.mp above
      simp [insert, above, Ne.symm other, atMost, ih later]

theorem get?_of_mem {entries : Ranked α} (ordered : entries.Pairwise (·.1 < ·.1))
    (member : (key, value) ∈ entries) : get? entries key = some value := by
  induction entries with
  | nil => cases member
  | cons e rest ih =>
    obtain ⟨less, ordered⟩ := List.pairwise_cons.mp ordered
    rcases List.mem_cons.mp member with rfl | later
    · simp [get?]
    · have different : e.1 ≠ key := Int.ne_of_lt (less _ later)
      simpa [get?, different] using ih ordered later

section Ordered

variable {entries : Ranked α} {e f : Int × α} (ordered : entries.Pairwise (·.1 < ·.1))
include ordered

/-- What is below a key comes before all that is not. -/
theorem closed_lt (key : Int) :
    entries.Pairwise fun e f => decide (f.1 < key) = true → decide (e.1 < key) = true :=
  ordered.imp fun less => by simp only [decide_eq_true_eq]; omega

theorem closed_le (key : Int) :
    entries.Pairwise fun e f => decide (f.1 ≤ key) = true → decide (e.1 ≤ key) = true :=
  ordered.imp fun less => by simp only [decide_eq_true_eq]; omega

theorem eq_of_key (first : e ∈ entries) (second : f ∈ entries) (same : e.1 = f.1) : e = f := by
  have found := get?_of_mem ordered first
  rw [same, get?_of_mem ordered second] at found
  exact Prod.ext same (Option.some.inj found).symm

theorem get?_eq_some_iff : get? entries key = some value ↔ (key, value) ∈ entries := by
  refine ⟨fun found => ?_, get?_of_mem ordered⟩
  obtain ⟨e, first, rfl⟩ := Option.map_eq_some_iff.mp found
  have same : e.1 = key := by simpa using List.find?_some first
  exact same ▸ List.mem_of_find?_eq_some first

/-- An insertion puts one entry at its key and leaves those at other keys as they are. -/
theorem mem_insert : e ∈ insert entries key value ↔ e = (key, value) ∨ e ∈ entries ∧ e.1 ≠ key := by
  induction entries with
  | nil => simp [insert]
  | cons f rest ih =>
    obtain ⟨less, ordered⟩ := List.pairwise_cons.mp ordered
    rw [insert]
    split
    · rename_i above
      have apart : ∀ e ∈ f :: rest, e.1 ≠ key := List.forall_mem_cons.mpr
        ⟨by omega, fun e later => by have := less e later; omega⟩
      rw [List.mem_cons]
      exact or_congr_right ⟨fun member => ⟨member, apart e member⟩, And.left⟩
    split
    · rename_i same
      have apart : ∀ e ∈ rest, e.1 ≠ key := fun e later => by have := less e later; omega
      simp only [List.mem_cons]
      refine or_congr_right ⟨fun later => ⟨Or.inr later, apart e later⟩, fun both => ?_⟩
      exact both.1.resolve_left fun first => both.2 (by rw [first, same])
    · rename_i other
      rw [List.mem_cons, ih ordered, List.mem_cons]
      constructor
      · rintro (rfl | rfl | ⟨later, apart⟩)
        · exact Or.inr ⟨Or.inl rfl, Ne.symm other⟩
        · exact Or.inl rfl
        · exact Or.inr ⟨Or.inr later, apart⟩
      · rintro (rfl | ⟨rfl | later, apart⟩)
        · exact Or.inr (Or.inl rfl)
        · exact Or.inl rfl
        · exact Or.inr (Or.inr ⟨later, apart⟩)

/-- An insertion keeps the keys in ascending order. -/
theorem insert_ordered (key : Int) (value : α) : (insert entries key value).Pairwise (·.1 < ·.1) := by
  induction entries with
  | nil => exact List.pairwise_singleton ..
  | cons f rest ih =>
    obtain ⟨less, later⟩ := List.pairwise_cons.mp ordered
    rw [insert]
    split
    · rename_i above
      have lowest : ∀ e ∈ f :: rest, key < e.1 :=
        List.forall_mem_cons.mpr ⟨above, fun e member => Int.lt_trans above (less e member)⟩
      exact List.pairwise_cons.mpr ⟨lowest, ordered⟩
    split
    · rename_i same
      exact List.pairwise_cons.mpr ⟨fun e member => same ▸ less e member, later⟩
    · rename_i below other
      refine List.pairwise_cons.mpr ⟨fun e member => ?_, ih later⟩
      rcases (mem_insert later).mp member with rfl | ⟨old, _⟩
      · change f.1 < key
        omega
      · exact less e old

theorem get?_insert (key other : Int) (value : α) :
    get? (insert entries key value) other = if other = key then some value else get? entries other := by
  ext found
  rw [get?_eq_some_iff (insert_ordered ordered key value), mem_insert ordered, Prod.mk.injEq]
  split
  · rename_i same
    simp only [same, ne_eq, not_true_eq_false, and_false, or_false, true_and, Option.some.injEq]
    exact eq_comm
  · rename_i different
    simp only [different, false_and, false_or, ne_eq, not_false_eq_true, and_true,
      get?_eq_some_iff ordered]

/-- What is put in the place of another value leaves the keys as they are. -/
theorem keys_insert {old : α} (present : get? entries key = some old) :
    (insert entries key value).map (·.1) = entries.map (·.1) := by
  induction entries with
  | nil => cases present
  | cons e rest ih =>
    obtain ⟨less, later⟩ := List.pairwise_cons.mp ordered
    by_cases same : key = e.1
    · simp [insert, same]
    · have other : get? rest key = some old := by simpa [get?, Ne.symm same] using present
      have above : e.1 < key := less _ ((get?_eq_some_iff later).mp other)
      simp [insert, same, Int.not_lt.mpr (Int.le_of_lt above), ih later other]

/-- Where keys ascend, the last entry is the one with the greatest key. -/
theorem getLast?_eq_some_iff : entries.getLast? = some e ↔ e ∈ entries ∧ ∀ f ∈ entries, f.1 ≤ e.1 := by
  have last : ∀ e, entries.getLast? = some e → e ∈ entries ∧ ∀ f ∈ entries, f.1 ≤ e.1 := by
    intro e found
    obtain ⟨before, rfl⟩ := List.getLast?_eq_some_iff.mp found
    refine ⟨by simp, fun f member => ?_⟩
    rcases List.mem_append.mp member with earlier | own
    · exact Int.le_of_lt ((List.pairwise_append.mp ordered).2.2 f earlier e (List.mem_singleton_self e))
    · exact Int.le_of_eq (congrArg _ (List.mem_singleton.mp own))
  refine ⟨last e, fun ⟨member, greatest⟩ => ?_⟩
  obtain ⟨f, found⟩ := Option.isSome_iff_exists.mp (List.getLast?_isSome.mpr (List.ne_nil_of_mem member))
  obtain ⟨there, atMost⟩ := last f found
  rw [found, eq_of_key ordered there member (Int.le_antisymm (greatest f there) (atMost e member))]

theorem head?_eq_some_iff : entries.head? = some e ↔ e ∈ entries ∧ ∀ f ∈ entries, e.1 ≤ f.1 := by
  have first : ∀ e, entries.head? = some e → e ∈ entries ∧ ∀ f ∈ entries, e.1 ≤ f.1 := by
    intro e found
    obtain ⟨rest, rfl⟩ := List.head?_eq_some_iff.mp found
    refine ⟨List.mem_cons_self .., List.forall_mem_cons.mpr ⟨Int.le_refl _, fun f later => ?_⟩⟩
    exact Int.le_of_lt ((List.pairwise_cons.mp ordered).1 f later)
  refine ⟨first e, fun ⟨member, least⟩ => ?_⟩
  obtain ⟨f, found⟩ := Option.isSome_iff_exists.mp (List.isSome_head?.mpr (List.ne_nil_of_mem member))
  obtain ⟨there, atLeast⟩ := first f found
  rw [found, eq_of_key ordered there member (Int.le_antisymm (atLeast e member) (least f there))]

/-- Below a key stands the entry with the greatest of the lower keys. -/
theorem lower?_eq_some_iff : lower? entries key = some e ↔
    e ∈ entries ∧ e.1 < key ∧ ∀ f ∈ entries, f.1 < key → f.1 ≤ e.1 := by
  rw [lower?, getLast?_eq_some_iff (ordered.sublist (List.takeWhile_sublist _))]
  simp only [mem_takeWhile_iff (closed_lt ordered key), decide_eq_true_eq, and_assoc, and_imp]

/-- Above a key stands the entry with the least of the higher keys. -/
theorem upper?_eq_some_iff : upper? entries key = some e ↔
    e ∈ entries ∧ key < e.1 ∧ ∀ f ∈ entries, key < f.1 → e.1 ≤ f.1 := by
  rw [upper?, head?_eq_some_iff (ordered.sublist (List.dropWhile_sublist _))]
  simp only [mem_dropWhile_iff (closed_le ordered key), decide_eq_false_iff_not, Int.not_le, and_assoc, and_imp]

theorem lower?_eq_none_iff : lower? entries key = none ↔ ∀ e ∈ entries, key ≤ e.1 := by
  simp only [lower?, List.getLast?_eq_none_iff, List.eq_nil_iff_forall_not_mem,
    mem_takeWhile_iff (closed_lt ordered key), decide_eq_true_eq, not_and, Int.not_lt]

theorem upper?_eq_none_iff : upper? entries key = none ↔ ∀ e ∈ entries, e.1 ≤ key := by
  simp only [upper?, List.head?_eq_none_iff, List.eq_nil_iff_forall_not_mem,
    mem_dropWhile_iff (closed_le ordered key), decide_eq_false_iff_not, not_and, not_not]

end Ordered

/-- The values of pairs under their keys, put in one after the other. -/
def insertAll (entries : Ranked α) (new : List (Int × α)) : Ranked α :=
  new.foldl (fun entries e => insert entries e.1 e.2) entries

/-- Whether a value is the one that comes last with a key among pairs. -/
def IsLast (new : List (Int × α)) (key : Int) (value : α) : Prop :=
  ∃ before after, new = before ++ (key, value) :: after ∧ key ∉ after.map (·.1)

/-- The last value for a key is the new one, or the last one before if the new one has another key. -/
theorem isLast_concat {new : List (Int × α)} {e : Int × α} :
    IsLast (new ++ [e]) key value ↔ (key, value) = e ∨ IsLast new key value ∧ key ≠ e.1 := by
  constructor
  · rintro ⟨before, after, split, fresh⟩
    rcases List.eq_nil_or_concat after with rfl | ⟨after, f, rfl⟩
    · obtain ⟨_, same⟩ := List.append_inj' split rfl
      exact Or.inl (List.singleton_inj.mp same).symm
    · rw [List.concat_eq_append, ← List.cons_append, ← List.append_assoc] at split
      obtain ⟨rfl, same⟩ := List.append_inj' split rfl
      cases List.singleton_inj.mp same
      rw [List.concat_eq_append, List.map_append, List.mem_append, not_or] at fresh
      exact Or.inr ⟨⟨before, after, rfl, fresh.1⟩, fun same => fresh.2 (List.mem_singleton.mpr same)⟩
  · rintro (rfl | ⟨⟨before, after, rfl, fresh⟩, other⟩)
    · exact ⟨new, [], rfl, by simp⟩
    · exact ⟨before, after ++ [e], by simp, by simpa [other] using fresh⟩

theorem insertAll_concat (entries : Ranked α) (new : List (Int × α)) (e : Int × α) :
    insertAll entries (new ++ [e]) = insert (insertAll entries new) e.1 e.2 := by
  rw [insertAll, List.foldl_append]
  rfl

theorem insertAll_ordered {entries : Ranked α} (ordered : entries.Pairwise (·.1 < ·.1)) (new : List (Int × α)) :
    (insertAll entries new).Pairwise (·.1 < ·.1) := by
  induction new generalizing entries with
  | nil => exact ordered
  | cons e rest ih => exact ih (insert_ordered ordered e.1 e.2)

/-- Under every key stands the value that was put in last. -/
theorem mem_insertAll_iff (new : List (Int × α)) : (key, value) ∈ insertAll [] new ↔ IsLast new key value := by
  induction new using List.reverseRecOn with
  | nil => simp [insertAll, IsLast]
  | append_singleton new e ih =>
    rw [insertAll_concat, mem_insert (insertAll_ordered .nil new), ih, isLast_concat]

/-- A key is there after insertions exactly if something was inserted at it. -/
theorem mem_keys_insertAll (new : List (Int × α)) :
    key ∈ (insertAll [] new).map (·.1) ↔ key ∈ new.map (·.1) := by
  induction new using List.reverseRecOn with
  | nil => rfl
  | append_singleton new e ih =>
    have put : key ∈ (insert (insertAll [] new) e.1 e.2).map (·.1) ↔
        key = e.1 ∨ key ∈ (insertAll [] new).map (·.1) := by
      simp only [List.mem_map, mem_insert (insertAll_ordered .nil new)]
      constructor
      · rintro ⟨f, rfl | ⟨member, _⟩, rfl⟩
        · exact Or.inl rfl
        · exact Or.inr ⟨f, member, rfl⟩
      · rintro (rfl | ⟨f, member, rfl⟩)
        · exact ⟨_, Or.inl rfl, rfl⟩
        · by_cases same : f.1 = e.1
          · exact ⟨_, Or.inl rfl, same.symm⟩
          · exact ⟨f, Or.inr ⟨member, same⟩, rfl⟩
    rw [insertAll_concat, put, ih, List.map_append, List.mem_append, List.map_singleton, List.mem_singleton, or_comm]

/-- There are as many entries as there are keys. -/
theorem length_insertAll (new : List (Int × α)) : (insertAll [] new).length = (new.map (·.1)).dedup.length := by
  have distinct : ((insertAll [] new).map (·.1)).Nodup :=
    List.pairwise_map.mpr ((insertAll_ordered .nil new).imp Int.ne_of_lt)
  have same : ∀ key, key ∈ (insertAll [] new).map (·.1) ↔ key ∈ (new.map (·.1)).dedup := fun key => by
    rw [mem_keys_insertAll, List.mem_dedup]
  have perm := (List.perm_ext_iff_of_nodup distinct (List.nodup_dedup _)).mpr same
  rw [← perm.length_eq, List.length_map]

end Ranked

end Lineage
