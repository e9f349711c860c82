import Mathlib.Data.List.Perm.Basic
import Lineage.Proofs.History

namespace Lineage

namespace Item

/-- Whether two items differ by the order of their changes only. -/
def Reordered (item item' : Item) : Prop :=
  ∃ changes, item.changes.Perm changes ∧ item' = { item with changes := changes }

/-- No two changes of an item take effect in the same version. -/
theorem Legal.changesIn_cases {t : Timeline} {item : Item} (legal : item.Legal t) (r : Release) :
    item.changesIn r = [] ∨ ∃ c, item.changesIn r = [c] := by
  cases legal.happens r with
  | nothing _ _ noChange | addition _ _ _ _ noChange | deprecation _ _ _ _ noChange => exact .inl noChange
  | change c _ _ _ _ single => exact .inr ⟨c, single⟩

namespace Reordered

variable {item item' : Item} (reordered : item.Reordered item')
include reordered

theorem symm : item'.Reordered item := by
  obtain ⟨changes, perm, rfl⟩ := reordered
  exact ⟨item.changes, perm.symm, rfl⟩

/-- A copy with its changes in another order is well formed if the item is. -/
theorem wellFormed {versions : List String} {kind : Kind} (well : item.WellFormed versions kind) :
    item'.WellFormed versions kind := by
  obtain ⟨changes, perm, rfl⟩ := reordered
  have own : ∀ c ∈ changes, c ∈ item.changes := fun c listed => perm.mem_iff.mpr listed
  have actions : ({ item with changes := changes } : Item).actions.Perm item.actions :=
    ((perm.symm.map _).append_left _).append_right _
  exact {
    declared := fun since acts => well.declared since ((actions.map _).mem_iff.mp acts)
    added_first := fun a added c changed => well.added_first a added c (own c changed)
    deprecated_last := fun d deprecated c changed => well.deprecated_last d deprecated c (own c changed)
    added_before_deprecated := well.added_before_deprecated
    changes_apart := (perm.map _).nodup_iff.mp well.changes_apart
    marked_iff := well.marked_iff
    previous_unmarked := fun c changed => well.previous_unmarked c (own c changed)
    typed := well.typed
    alters := fun c changed => well.alters c (own c changed)
    functions_typed := fun c changed => well.functions_typed c (own c changed)
    supplier_named := well.supplier_named
    fallback_of_variant := well.fallback_of_variant }

section Statuses

variable {kind : Kind} {t : Timeline} (legal : item.Legal t)
include legal

theorem changesIn_eq (r : Release) : item'.changesIn r = item.changesIn r := by
  obtain ⟨changes, perm, rfl⟩ := reordered
  have filtered : (item.changesIn r).Perm (({ item with changes := changes } : Item).changesIn r) :=
    perm.filter _
  rcases legal.changesIn_cases r with none | ⟨c, single⟩
  · rw [none] at filtered ⊢
    exact filtered.nil_eq.symm
  · rw [single] at filtered ⊢
    exact List.perm_singleton.mp filtered.symm

theorem undoneFrom_eq (rank : Nat) : item'.undoneFrom kind t rank = item.undoneFrom kind t rank := by
  have changed := reordered.changesIn_eq legal
  obtain ⟨changes, _, rfl⟩ := reordered
  have undo : ({ item with changes := changes } : Item).undoIn kind = item.undoIn kind := by
    funext r member
    rw [undoIn, undoIn, changed]
    rfl
  rw [undoneFrom, undoneFrom, undo]

theorem memberBefore_eq (r : Release) : item'.memberBefore kind t r = item.memberBefore kind t r := by
  have undone : ∀ rank, item'.undoneFrom kind t rank = item.undoneFrom kind t rank :=
    reordered.undoneFrom_eq legal
  have changed := reordered.changesIn_eq legal r
  obtain ⟨changes, _, rfl⟩ := reordered
  simp only [memberBefore, memberIn, undone, undoIn, changed]
  rfl

/-- The status of an item in a version does not depend on the order in which its changes are told of. -/
theorem statusIn_eq (r : Release) : item'.statusIn kind t r = item.statusIn kind t r := by
  have undone : item'.undoneFrom kind t (r.rank + 1) = item.undoneFrom kind t (r.rank + 1) :=
    reordered.undoneFrom_eq legal _
  have before : item'.memberBefore kind t r = item.memberBefore kind t r := reordered.memberBefore_eq legal r
  have changed := reordered.changesIn_eq legal r
  obtain ⟨changes, _, rfl⟩ := reordered
  simp only [statusIn, memberIn, undone, before, changed]
  rfl

end Statuses

end Reordered

end Item

/-- Whether two containers differ by the order of their items, and of the changes of each, only. -/
def Container.Reordered (c c' : Container) : Prop :=
  ∃ items items', c.items.Perm items ∧ List.Forall₂ Item.Reordered items items' ∧
    c' = { c with items := items' }

namespace Container.Reordered

variable {c c' : Container} (reordered : c.Reordered c')
include reordered

theorem exists_copy {item : Item} (own : item ∈ c.items) : ∃ item' ∈ c'.items, item.Reordered item' := by
  obtain ⟨items, items', perm, each, rfl⟩ := reordered
  have listed := perm.mem_iff.mp own
  clear perm
  induction each with
  | nil => cases listed
  | cons first _ ih =>
    rcases List.mem_cons.mp listed with rfl | later
    · exact ⟨_, List.mem_cons_self .., first⟩
    · obtain ⟨item', there, copy⟩ := ih later
      exact ⟨item', List.mem_cons_of_mem _ there, copy⟩

theorem symm : c'.Reordered c := by
  obtain ⟨items, items', perm, each, rfl⟩ := reordered
  have flipped : List.Forall₂ Item.Reordered items' items := each.flip.imp fun _ _ => Item.Reordered.symm
  -- Going back, the changes come first and the items after them, so that the two have to change places.
  obtain ⟨mid, first, second⟩ : Relation.Comp List.Perm (List.Forall₂ Item.Reordered) items' c.items := by
    rw [← List.forall₂_comp_perm_eq_perm_comp_forall₂]
    exact ⟨items, flipped, perm.symm⟩
  exact ⟨mid, c.items, first, second, rfl⟩

/-- What is read off the items in the same way comes in another order only. -/
theorem filterMap_perm {α : Type} {f f' : Item → Option α}
    (same : ∀ item ∈ c.items, ∀ item', item.Reordered item' → f' item' = f item) :
    (c.items.filterMap f).Perm (c'.items.filterMap f') := by
  obtain ⟨items, items', perm, each, rfl⟩ := reordered
  have alike : items.filterMap f = items'.filterMap f' := by
    replace same : ∀ item ∈ items, ∀ item', item.Reordered item' → f' item' = f item :=
      fun item listed => same item (perm.mem_iff.mpr listed)
    clear perm
    induction each with
    | nil => rfl
    | cons first _ ih =>
      rw [List.filterMap_cons, List.filterMap_cons, same _ (List.mem_cons_self ..) _ first,
        ih fun item listed => same item (List.mem_cons_of_mem _ listed)]
  exact alike ▸ perm.filterMap f

/-- So is a container whose items are such copies. -/
theorem wellFormed {unsorted : Bool} (well : c.WellFormed unsorted) : c'.WellFormed unsorted := by
  have back := reordered.symm
  obtain ⟨_, _, _, _, rfl⟩ := reordered
  refine ⟨well.versions, fun item listed => ?_, well.storage⟩
  obtain ⟨original, own, copy⟩ := back.exists_copy listed
  exact copy.symm.wellFormed (well.items original own)

end Container.Reordered

/-- The container with its items, and the changes of each, told of in the opposite order. -/
def Container.backward (c : Container) : Container :=
  { c with items := c.items.reverse.map fun item => { item with changes := item.changes.reverse } }

theorem Container.reordered_backward (c : Container) : c.Reordered c.backward :=
  ⟨c.items.reverse, _, (List.reverse_perm _).symm, List.forall₂_map_right_iff.mpr
    (List.forall₂_same.mpr fun _ _ => ⟨_, (List.reverse_perm _).symm, rfl⟩), rfl⟩

end Lineage
