import Mathlib.Data.List.Perm.Basic
import Lineage.Proofs.Traversal
import Lineage.Value.Order

namespace Lineage

section Sorting

variable {ε α β : Type} {P : ε → Prop}

theorem bisect_errsOnly {test : α → Except ε Bool} (each : ∀ a, ErrsOnly P (test a)) (xs : Array α)
    (low high : Nat) : ErrsOnly P (bisect test xs low high) := by
  fun_induction bisect test xs low high with
  | case1 => exact .ok _
  | case2 low high below x there higher lower =>
    refine .bind (each x) fun passes => ?_
    cases passes
    · exact lower
    · exact higher
  | case3 => exact .ok _

variable {less : α → α → Except ε Bool} (each : ∀ a b, ErrsOnly P (less a b))
include each

theorem leadingRun_errsOnly (falling : Bool) (last : α) (xs : List α) :
    ErrsOnly P (leadingRun less falling last xs) := by
  induction xs generalizing last with
  | nil => exact .ok _
  | cons x rest ih =>
    refine .bind (each x last) fun lower => ?_
    split
    · exact .bind (ih x) fun _ => .ok _
    · exact .ok _

theorem insertSorted_errsOnly (xs : Array α) (x : α) : ErrsOnly P (insertSorted less xs x) := by
  refine .bind (bisect_errsOnly (fun y => ?_) _ _ _) fun _ => .ok _
  exact .bind (each x y) fun _ => .ok _

/-- A sort fails only as a comparison does. -/
theorem sorted_errsOnly (xs : List α) : ErrsOnly P (sorted less xs) := by
  have inserts : ∀ (others : List α) (start : Array α),
      ErrsOnly P (others.foldlM (insertSorted less) start) := by
    intro others
    induction others with
    | nil => exact fun _ => .ok _
    | cons y rest ih => exact fun start => .bind (insertSorted_errsOnly each start y) ih
  unfold sorted
  split
  · refine .bind (each _ _) fun falling => .bind (leadingRun_errsOnly each _ _ _) fun parts => ?_
    exact .bind (inserts _ _) fun _ => .ok _
  · exact .ok _

end Sorting

section Permutation

variable {ε α : Type}

/-- A search by halves ends at a place between its bounds if no comparison fails. -/
theorem bisect_ok {test : α → Except ε Bool} {xs : Array α} (passes : ∀ x ∈ xs, ∃ b, test x = .ok b)
    {low high : Nat} (bound : low ≤ high) : ∃ i, bisect test xs low high = .ok i ∧ i ≤ high := by
  fun_induction bisect test xs low high with
  | case1 low high => exact ⟨low, rfl, bound⟩
  | case2 low high below x there higher lower =>
    obtain ⟨b, result⟩ := passes x (Array.mem_of_getElem? there)
    cases b with
    | true =>
      obtain ⟨i, found, atMost⟩ := higher (by omega)
      refine ⟨i, ?_, atMost⟩
      rw [result]
      exact found
    | false =>
      obtain ⟨i, found, atMost⟩ := lower (by omega)
      refine ⟨i, ?_, by omega⟩
      rw [result]
      exact found
  | case3 low high => exact ⟨low, rfl, bound⟩

variable {less : α → α → Except ε Bool} {Q : α → Prop} (ordered : ∀ a b, Q a → Q b → ∃ r, less a b = .ok r)
include ordered

/-- An insertion in order keeps all elements if no comparison fails. -/
theorem insertSorted_ok {xs : Array α} {x : α} (all : ∀ y ∈ xs.toList, Q y) (own : Q x) :
    ∃ ys, insertSorted less xs x = .ok ys ∧ ys.toList.Perm (x :: xs.toList) := by
  have passes : ∀ y ∈ xs, ∃ b, (do return !(← less x y) : Except ε Bool) = .ok b := by
    intro y member
    obtain ⟨r, result⟩ := ordered x y own (all y (Array.mem_toList_iff.mpr member))
    exact ⟨!r, by rw [result]; rfl⟩
  obtain ⟨i, found, bound⟩ := bisect_ok passes (Nat.zero_le xs.size)
  refine ⟨xs.insertIdxIfInBounds i x, ?_, ?_⟩
  · rw [insertSorted, found]
    rfl
  · rw [Array.insertIdxIfInBounds, dif_pos bound, Array.toList_insertIdx]
    exact List.perm_insertIdx x xs.toList bound

/-- A leading run and the others are the whole list if no comparison fails. -/
theorem leadingRun_ok (falling : Bool) {last : α} (own : Q last) {xs : List α} (all : ∀ x ∈ xs, Q x) :
    ∃ run others, leadingRun less falling last xs = .ok (run, others) ∧ run ++ others = xs := by
  induction xs generalizing last with
  | nil => exact ⟨[], [], rfl, rfl⟩
  | cons x rest ih =>
    obtain ⟨here, later⟩ := List.forall_mem_cons.mp all
    obtain ⟨r, result⟩ := ordered x last here own
    rw [leadingRun, result]
    simp only [bind, Except.bind]
    split
    · obtain ⟨run, others, found, split⟩ := ih here later
      exact ⟨x :: run, others, by rw [found]; rfl, by rw [List.cons_append, split]⟩
    · exact ⟨[], x :: rest, rfl, rfl⟩

/-- Insertions in order keep all elements if no comparison fails. -/
theorem foldlM_insertSorted_ok {others : List α} (all : ∀ x ∈ others, Q x) {start : Array α}
    (inside : ∀ x ∈ start.toList, Q x) :
    ∃ ys, others.foldlM (insertSorted less) start = .ok ys ∧ ys.toList.Perm (start.toList ++ others) := by
  induction others generalizing start with
  | nil => exact ⟨start, rfl, by simp⟩
  | cons x rest ih =>
    obtain ⟨here, later⟩ := List.forall_mem_cons.mp all
    obtain ⟨next, inserted, perm⟩ := insertSorted_ok ordered inside here
    have within : ∀ y ∈ next.toList, Q y := by
      intro y member
      rcases List.mem_cons.mp (perm.mem_iff.mp member) with rfl | old
      · exact here
      · exact inside y old
    obtain ⟨ys, made, whole⟩ := ih later within
    refine ⟨ys, ?_, whole.trans ((perm.append_right rest).trans List.perm_middle.symm)⟩
    rw [List.foldlM_cons, inserted]
    exact made

/-- What can be compared can be sorted, and nothing is lost or added. -/
theorem sorted_ok {xs : List α} (all : ∀ x ∈ xs, Q x) : ∃ ys, sorted less xs = .ok ys ∧ ys.Perm xs := by
  match xs with
  | [] => exact ⟨[], rfl, .refl _⟩
  | [x] => exact ⟨[x], rfl, .refl _⟩
  | x :: y :: rest =>
    obtain ⟨first, others⟩ := List.forall_mem_cons.mp all
    obtain ⟨second, others⟩ := List.forall_mem_cons.mp others
    obtain ⟨falling, compared⟩ := ordered y x second first
    obtain ⟨run, later, found, split⟩ := leadingRun_ok ordered falling second others
    have start : (if falling = true then (x :: y :: run).reverse else x :: y :: run).Perm (x :: y :: run) := by
      split
      · exact List.reverse_perm _
      · exact .refl _
    subst split
    obtain ⟨ys, inserted, whole⟩ := @foldlM_insertSorted_ok _ _ _ _ ordered later
      (fun z member => others z (List.mem_append_right _ member))
      (if falling = true then (x :: y :: run).reverse else x :: y :: run).toArray (by
        intro z member
        have inRun := start.mem_iff.mp member
        exact all z (List.mem_append_left later inRun))
    refine ⟨ys.toList, ?_, whole.trans (start.append_right later)⟩
    simp only [sorted, compared, found, bind, Except.bind, inserted]
    rfl

end Permutation

section Halving

variable {ε α : Type} {test : α → Except ε Bool}

/-- Halving finds the place from which on a test fails, wherever it starts around it. -/
theorem bisect_eq_of_divided {xs : Array α} {place : Nat}
    (passes : ∀ i x, i < place → xs[i]? = some x → test x = .ok true)
    (fails : ∀ i x, place ≤ i → xs[i]? = some x → test x = .ok false) {low high : Nat}
    (above : low ≤ place) (below : place ≤ high) (inside : high ≤ xs.size) :
    bisect test xs low high = .ok place := by
  fun_induction bisect test xs low high with
  | case1 low high less absent =>
    rw [Array.getElem?_eq_none_iff] at absent
    omega
  | case2 low high less x there higher lower =>
    by_cases left : (low + high) / 2 < place
    · rw [passes _ x left there]
      exact higher (by omega) below inside
    · rw [fails _ x (Nat.not_lt.mp left) there]
      exact lower above (by omega) (by omega)
  | case3 low high empty => rw [show low = place by omega]

theorem bisect_append {front back : List α} (passes : ∀ x ∈ front, test x = .ok true)
    (fails : ∀ x ∈ back, test x = .ok false) :
    bisect test (front ++ back).toArray 0 (front ++ back).length = .ok front.length := by
  refine bisect_eq_of_divided (fun i x left there => ?_) (fun i x right there => ?_) (Nat.zero_le _) ?_ ?_
  · rw [List.getElem?_toArray, List.getElem?_append_left left] at there
    exact passes x (List.mem_of_getElem? there)
  · rw [List.getElem?_toArray, List.getElem?_append_right right] at there
    exact fails x (List.mem_of_getElem? there)
  · rw [List.length_append]
    omega
  · exact Nat.le_of_eq List.size_toArray.symm

end Halving

theorem Value.less_errsOnly (a b : Value) : ErrsOnly (fun cause => cause.family = .kind) (a.less b) := by
  unfold less
  split
  · exact .ok _
  · exact .ok _
  split
  · exact .ok _
  · intro cause fails
    cases fails
    rfl

/-- Integers are ordered as such. -/
theorem Value.less_int (i j : Int) : (Value.int i).less (.int j) = .ok (decide (i < j)) := by
  have positive : ∀ n, 0 < Nat.pow 2 n := fun n => Nat.pow_pos (by decide)
  have unit : (0 : Int) < (Nat.pow 2 1074 : Nat) := Int.natCast_pos.mpr (positive 1074)
  simp only [less, isNumber, lessNumber, scaled?, asInt?, Option.map_some]
  generalize (Nat.pow 2 1074 : Nat) = k at unit
  simp [Int.mul_lt_mul_right unit]

end Lineage
