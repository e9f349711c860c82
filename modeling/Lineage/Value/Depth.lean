import Lineage.Value.Key

namespace Lineage.Value

/-- How deeply values are nested in a value. -/
def depth : Value → Nat
  | .list items | .tuple items | .set items => itemDepth items + 1
  | .map entries => entryDepth entries + 1
  | _ => 0
where
  /-- The greatest depth of the items. -/
  itemDepth : List Value → Nat
    | [] => 0
    | v :: rest => max v.depth (itemDepth rest)
  /-- The greatest depth of the values of the entries. -/
  entryDepth : List (Value × Value) → Nat
    | [] => 0
    | (_, v) :: rest => max v.depth (entryDepth rest)

theorem depth_le_itemDepth {v : Value} {items : List Value} (member : v ∈ items) :
    v.depth ≤ depth.itemDepth items := by
  induction items with
  | nil => simp at member
  | cons w rest ih =>
    simp only [depth.itemDepth]
    rcases List.mem_cons.1 member with rfl | later
    · exact Nat.le_max_left ..
    · exact Nat.le_trans (ih later) (Nat.le_max_right ..)

theorem depth_le_entryDepth {k v : Value} {entries : List (Value × Value)}
    (member : (k, v) ∈ entries) : v.depth ≤ depth.entryDepth entries := by
  induction entries with
  | nil => simp at member
  | cons e rest ih =>
    obtain ⟨key, w⟩ := e
    simp only [depth.entryDepth]
    rcases List.mem_cons.1 member with same | later
    · cases same
      exact Nat.le_max_left ..
    · exact Nat.le_trans (ih later) (Nat.le_max_right ..)

theorem itemDepth_le {items : List Value} {n : Nat} (each : ∀ v ∈ items, v.depth ≤ n) :
    depth.itemDepth items ≤ n := by
  induction items with
  | nil => exact Nat.zero_le n
  | cons v rest ih =>
    rw [List.forall_mem_cons] at each
    exact Nat.max_le.mpr ⟨each.1, ih each.2⟩

theorem entryDepth_le {entries : List (Value × Value)} {n : Nat} (each : ∀ e ∈ entries, e.2.depth ≤ n) :
    depth.entryDepth entries ≤ n := by
  induction entries with
  | nil => exact Nat.zero_le n
  | cons e rest ih =>
    rw [List.forall_mem_cons] at each
    exact Nat.max_le.mpr ⟨each.1, ih each.2⟩

/-- A value that is put into a map makes it no deeper than the value itself does. -/
theorem entryDepth_put_le {entries : Entries Value Value} {key v : Value} {n : Nat}
    (others : depth.entryDepth entries ≤ n) (own : v.depth ≤ n) :
    depth.entryDepth (Entries.put entries key v) ≤ n := by
  induction entries with
  | nil => exact Nat.max_le.mpr ⟨own, Nat.zero_le n⟩
  | cons e rest ih =>
    obtain ⟨first, later⟩ := Nat.max_le.mp others
    rw [Entries.put]
    split
    · exact Nat.max_le.mpr ⟨own, later⟩
    · exact Nat.max_le.mpr ⟨first, ih later⟩

/-- A value that is held by a map is nested less deeply than the map. -/
theorem depth_lt_of_member? {entries : Entries Value Value} {name : String} {v : Value}
    (found : member? entries name = some v) : v.depth < (Value.map entries).depth := by
  simp only [member?, Entries.get?, Option.map_eq_some_iff] at found
  obtain ⟨⟨key, w⟩, found, rfl⟩ := found
  have := depth_le_entryDepth (List.mem_of_find?_eq_some found)
  simp only [depth]
  omega

end Lineage.Value
