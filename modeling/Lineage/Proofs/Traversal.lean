import Mathlib.Data.List.Forall2

namespace Lineage

variable {ε α β : Type}

theorem exists_of_isOk {result : Except ε α} (succeeds : result.isOk = true) : ∃ a, result = .ok a := by
  cases result with
  | ok a => exact ⟨a, rfl⟩
  | error e => cases succeeds

theorem ok_of_toOption {result : Except ε α} {a : α} (same : result.toOption = some a) : result = .ok a := by
  cases result with
  | error e => cases same
  | ok b => rw [Option.some.inj same]

theorem exists_of_toOption_map {f : α → β} {result : Except ε α} {b : β}
    (same : result.toOption.map f = some b) : ∃ a, result = .ok a ∧ f a = b := by
  cases result with
  | error e => cases same
  | ok a => exact ⟨a, rfl, Option.some.inj same⟩

theorem eq_error_of_map {f : α → β} {result : Except ε α} {e : ε} (same : result.map f = .error e) :
    result = .error e := by
  cases result with
  | error cause => exact congrArg Except.error (Except.error.inj same)
  | ok a => cases same

theorem exists_of_map {f : α → β} {result : Except ε α} {b : β} (same : result.map f = .ok b) :
    ∃ a, result = .ok a ∧ f a = b := by
  cases result with
  | error e => cases same
  | ok a => exact ⟨a, rfl, Except.ok.inj same⟩

theorem exists_ok_iff {result : Except ε α} : (∃ a, result = .ok a) ↔ ¬ ∃ e, result = .error e := by
  cases result <;> simp

/-- What comes of a sequence of operations comes of the second, applied to a result of the first. -/
theorem exists_of_bind {first : Except ε α} {next : α → Except ε β} {b : β}
    (run : first >>= next = .ok b) : ∃ a, first = .ok a ∧ next a = .ok b := by
  cases first with
  | ok a => exact ⟨a, rfl, run⟩
  | error e => cases run

theorem bind_eq_error_iff {first : Except ε α} {next : α → Except ε β} {e : ε} :
    first >>= next = .error e ↔ first = .error e ∨ ∃ a, first = .ok a ∧ next a = .error e := by
  cases first <;> simp [bind, Except.bind]

/-- Whether an operation has no other errors than those with a property. -/
def ErrsOnly (P : ε → Prop) (result : Except ε α) : Prop :=
  ∀ e, result = .error e → P e

theorem ErrsOnly.ok {P : ε → Prop} (a : α) : ErrsOnly P (.ok a : Except ε α) := nofun

theorem ErrsOnly.bind {P : ε → Prop} {first : Except ε α} {next : α → Except ε β}
    (only : ErrsOnly P first) (each : ∀ a, ErrsOnly P (next a)) : ErrsOnly P (first >>= next) := by
  cases first with
  | ok a => exact each a
  | error cause =>
    intro e fails
    cases fails
    exact only cause rfl

theorem ErrsOnly.ite {P : ε → Prop} {p : Prop} [Decidable p] {first second : Except ε α}
    (whenTrue : ErrsOnly P first) (whenFalse : ErrsOnly P second) :
    ErrsOnly P (if p then first else second) := by
  split
  · exact whenTrue
  · exact whenFalse

theorem ErrsOnly.map {P : ε → Prop} {m : Except ε α} (f : α → β) (only : ErrsOnly P m) :
    ErrsOnly P (f <$> m) := by
  cases m with
  | ok a => exact .ok _
  | error cause =>
    rintro _ ⟨⟩
    exact only cause rfl

theorem ErrsOnly.mapM {P : ε → Prop} {f : α → Except ε β} (each : ∀ x, ErrsOnly P (f x))
    (xs : List α) : ErrsOnly P (xs.mapM f) := by
  induction xs with
  | nil => exact .ok _
  | cons x rest ih =>
    rw [List.mapM_cons]
    exact .bind (each x) fun _ => .bind ih fun _ => .ok _

/-- Whether an element of a list is the first that has a property. -/
def IsFirst (P : α → Prop) (xs : List α) (x : α) : Prop :=
  P x ∧ ∃ before after, xs = before ++ x :: after ∧ ∀ y ∈ before, ¬ P y

section IsFirst

variable {P Q : α → Prop} {xs : List α} {x y : α}

theorem IsFirst.mem (first : IsFirst P xs x) : x ∈ xs := by
  obtain ⟨_, before, after, rfl, _⟩ := first
  simp

theorem not_isFirst_nil : ¬ IsFirst P [] x := by
  rintro ⟨_, before, after, split, _⟩
  simp at split

/-- The first element with a property is the head if it has it, and else the first one of the rest. -/
theorem isFirst_cons : IsFirst P (y :: xs) x ↔ P y ∧ x = y ∨ ¬ P y ∧ IsFirst P xs x := by
  constructor
  · rintro ⟨holds, before, after, split, none⟩
    cases before with
    | nil =>
      cases split
      exact Or.inl ⟨holds, rfl⟩
    | cons z before =>
      cases split
      obtain ⟨not, none⟩ := List.forall_mem_cons.mp none
      exact Or.inr ⟨not, holds, before, after, rfl, none⟩
  · rintro (⟨holds, rfl⟩ | ⟨not, holds, before, after, rfl, none⟩)
    · exact ⟨holds, [], xs, rfl, by simp⟩
    · exact ⟨holds, y :: before, after, rfl, List.forall_mem_cons.mpr ⟨not, none⟩⟩

theorem isFirst_congr (same : ∀ y ∈ xs, P y ↔ Q y) : IsFirst P xs x ↔ IsFirst Q xs x := by
  induction xs with
  | nil => exact iff_of_false not_isFirst_nil not_isFirst_nil
  | cons y rest ih =>
    obtain ⟨here, later⟩ := List.forall_mem_cons.mp same
    rw [isFirst_cons, isFirst_cons, ih later, here]

theorem isFirst_filter {keep : α → Bool} :
    IsFirst P (xs.filter keep) x ↔ IsFirst (fun y => keep y = true ∧ P y) xs x := by
  induction xs with
  | nil => exact iff_of_false not_isFirst_nil not_isFirst_nil
  | cons y rest ih =>
    cases kept : keep y with
    | true => rw [List.filter_cons_of_pos kept, isFirst_cons, isFirst_cons, ih, kept]; simp
    | false => rw [List.filter_cons_of_neg (by simp [kept]), isFirst_cons, ih, kept]; simp

theorem exists_isFirst : (∃ x, IsFirst P xs x) ↔ ∃ x ∈ xs, P x := by
  induction xs with
  | nil => simp [not_isFirst_nil]
  | cons y rest ih =>
    by_cases holds : P y
    · simp [isFirst_cons, holds]
    · simp [isFirst_cons, holds, ih]

end IsFirst

section Traversal

variable {f : α → Except ε β}

/-- A traversal fails as the first operation does that fails. -/
theorem mapM_eq_error_iff {xs : List α} {e : ε} :
    xs.mapM f = .error e ↔ ∃ x, IsFirst (fun y => ∃ e, f y = .error e) xs x ∧ f x = .error e := by
  induction xs with
  | nil => simp [not_isFirst_nil, pure, Except.pure]
  | cons x rest ih =>
    rw [List.mapM_cons]
    cases result : f x with
    | error cause =>
      simp [isFirst_cons, result, bind, Except.bind]
    | ok y =>
      have passed : ¬ ∃ e, f x = .error e := by simp [result]
      have later : (rest.mapM f >>= fun ys => pure (y :: ys)) = .error e ↔ rest.mapM f = .error e := by
        simp [bind_eq_error_iff, pure, Except.pure]
      simp only [isFirst_cons, passed, not_false_eq_true, false_and, true_and, false_or, ← ih, ← later]
      rfl

theorem mapM_eq_ok_map {g : α → β} {xs : List α} (all : ∀ x ∈ xs, f x = .ok (g x)) :
    xs.mapM f = .ok (xs.map g) := by
  induction xs with
  | nil => rfl
  | cons x rest ih =>
    rw [List.mapM_cons, all x (List.mem_cons_self ..),
      ih fun y member => all y (List.mem_cons_of_mem _ member)]
    rfl

/-- A traversal that succeeds has a result for every item, in their order. -/
theorem forall₂_of_mapM {xs : List α} {ys : List β} (run : xs.mapM f = .ok ys) :
    List.Forall₂ (fun x y => f x = .ok y) xs ys := by
  induction xs generalizing ys with
  | nil =>
    cases run
    exact .nil
  | cons x rest ih =>
    rw [List.mapM_cons] at run
    obtain ⟨y, first, run⟩ := exists_of_bind run
    obtain ⟨zs, later, run⟩ := exists_of_bind run
    cases run
    exact .cons first (ih later)

theorem exists_of_mem_mapM {xs : List α} {ys : List β} {y : β} (run : xs.mapM f = .ok ys)
    (member : y ∈ ys) : ∃ x ∈ xs, f x = .ok y := by
  have results := forall₂_of_mapM run
  clear run
  induction results with
  | nil => cases member
  | cons first _ ih =>
    rcases List.mem_cons.mp member with rfl | later
    · exact ⟨_, List.mem_cons_self .., first⟩
    · obtain ⟨x, there, result⟩ := ih later
      exact ⟨x, List.mem_cons_of_mem _ there, result⟩

theorem exists_mem_of_mapM {xs : List α} {ys : List β} {x : α} (run : xs.mapM f = .ok ys)
    (member : x ∈ xs) : ∃ y ∈ ys, f x = .ok y := by
  have results := forall₂_of_mapM run
  clear run
  induction results with
  | nil => cases member
  | cons first _ ih =>
    rcases List.mem_cons.mp member with rfl | later
    · exact ⟨_, List.mem_cons_self .., first⟩
    · obtain ⟨y, there, result⟩ := ih later
      exact ⟨y, List.mem_cons_of_mem _ there, result⟩

/-- If steps that succeed give what a function does, a traversal that succeeds gives what mapping it does. -/
theorem eq_map_of_mapM {g : α → β} {xs : List α} {ys : List β} (run : xs.mapM f = .ok ys)
    (each : ∀ x ∈ xs, ∀ y, f x = .ok y → y = g x) :
    ys = xs.map g ∧ ∀ x ∈ xs, f x = .ok (g x) := by
  have results := forall₂_of_mapM run
  clear run
  induction results with
  | nil => simp
  | @cons x y xs ys first later ih =>
    obtain ⟨rest, all⟩ := ih fun z member => each z (List.mem_cons_of_mem _ member)
    have same := each x (List.mem_cons_self ..) y first
    subst same rest
    refine ⟨rfl, fun z member => ?_⟩
    rcases List.mem_cons.mp member with rfl | member
    · exact first
    · exact all z member

theorem map_eq_of_mapM {γ : Type} {g : β → γ} {h : α → γ} {xs : List α} {ys : List β}
    (run : xs.mapM f = .ok ys) (each : ∀ x y, f x = .ok y → g y = h x) : ys.map g = xs.map h := by
  have results := forall₂_of_mapM run
  clear run
  induction results with
  | nil => rfl
  | cons first _ ih => rw [List.map_cons, List.map_cons, each _ _ first, ih]

/-- The results of partial operations that all succeed are those of a partial map. -/
theorem eq_map_of_forall₂ {f : α → Except ε (Option β)} {xs : List α} {ys : List (Option β)}
    (each : List.Forall₂ (fun x y => f x = .ok y) xs ys) :
    ys = xs.map (fun x => (f x).toOption.join) ∧ ∀ x ∈ xs, ∃ y, f x = .ok y := by
  induction each with
  | nil => simp
  | @cons x y xs ys first later ih =>
    obtain ⟨rest, all⟩ := ih
    refine ⟨?_, List.forall_mem_cons.mpr ⟨⟨y, first⟩, all⟩⟩
    rw [List.map_cons, first, ← rest]
    rfl

end Traversal

theorem optionRel_imp {R S : α → β → Prop} (imp : ∀ x y, R x y → S x y) {x : Option α} {y : Option β}
    (rel : Option.Rel R x y) : Option.Rel S x y := by
  cases rel with
  | some related => exact .some (imp _ _ related)
  | none => exact .none

theorem eq_none_of_optionRel {R : α → β → Prop} {x : Option α} (rel : Option.Rel R x none) : x = none := by
  cases rel
  rfl

theorem exists_of_optionRel {R : α → β → Prop} {x : Option α} {b : β} (rel : Option.Rel R x (some b)) :
    ∃ a, x = some a ∧ R a b := by
  cases rel with
  | some related => exact ⟨_, rfl, related⟩

theorem forall₂_of_map_eq {f : α → β} {xs ys : List α} (same : xs.map f = ys.map f) :
    List.Forall₂ (fun x y => f x = f y) xs ys := by
  have equal : List.Forall₂ Eq (xs.map f) (ys.map f) := by rw [List.forall₂_eq_eq_eq, same]
  exact List.forall₂_map_right_iff.mp (List.forall₂_map_left_iff.mp equal)

theorem forall₂_trans {γ : Type} {R : α → β → Prop} {S : β → γ → Prop} {T : α → γ → Prop}
    (compose : ∀ x y z, R x y → S y z → T x z) {xs : List α} {ys : List β} {zs : List γ}
    (first : List.Forall₂ R xs ys) (second : List.Forall₂ S ys zs) : List.Forall₂ T xs zs := by
  induction first generalizing zs with
  | nil =>
    cases second
    exact .nil
  | cons here _ ih =>
    cases second with
    | cons there later => exact .cons (compose _ _ _ here there) (ih later)

/-- A search in the results of a partial map finds that of the only element that is sought. -/
theorem find?_filterMap {f : α → Option β} {sought : β → Bool} {x : α} {xs : List α} (member : x ∈ xs)
    (own : ∀ y, f x = some y → sought y = true)
    (single : ∀ z ∈ xs, ∀ y, f z = some y → sought y = true → z = x) :
    (xs.filterMap f).find? sought = f x := by
  cases found : (xs.filterMap f).find? sought with
  | some y =>
    obtain ⟨z, there, result⟩ := List.mem_filterMap.mp (List.mem_of_find?_eq_some found)
    rw [← single z there y result (List.find?_some found), result]
  | none =>
    cases result : f x with
    | none => rfl
    | some y =>
      have missing := List.find?_eq_none.mp found y (List.mem_filterMap.mpr ⟨x, member, result⟩)
      exact absurd (own y result) missing

/-- If a partial function tells all that another does, what the other makes of a list is a part of what it
makes. -/
theorem filterMap_sublist {f g : α → Option β} {xs : List α}
    (told : ∀ x ∈ xs, ∀ y, f x = some y → g x = some y) : (xs.filterMap f).Sublist (xs.filterMap g) := by
  induction xs with
  | nil => exact .slnil
  | cons x rest ih =>
    have later := ih fun y member => told y (List.mem_cons_of_mem _ member)
    cases own : f x with
    | none =>
      rw [List.filterMap_cons_none own]
      exact later.trans ((List.sublist_cons_self x rest).filterMap g)
    | some y =>
      rw [List.filterMap_cons_some own, List.filterMap_cons_some (told x (List.mem_cons_self ..) y own)]
      exact later.cons_cons y

end Lineage
