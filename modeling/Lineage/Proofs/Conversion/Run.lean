import Lineage.Conversion.Run
import Mathlib.Data.List.Forall2

namespace Lineage

namespace Run

variable {α β : Type} {m : Run α} {k : α → Run β} {p q : Progress}

theorem bind_of_ok {a : α} (first : m p = (.ok a, q)) : (m >>= k) p = k a q := by
  show ExceptT.bind m k p = k a q
  simp only [ExceptT.bind, ExceptT.mk, bind, StateT.bind]
  rw [first]
  rfl

theorem bind_of_error {failure : Failure} (first : m p = (.error failure, q)) :
    (m >>= k) p = (.error failure, q) := by
  show ExceptT.bind m k p = _
  simp only [ExceptT.bind, ExceptT.mk, bind, StateT.bind]
  rw [first]
  rfl

theorem bind_eq_ok_iff {b : β} :
    (m >>= k) p = (.ok b, q) ↔ ∃ a r, m p = (.ok a, r) ∧ k a r = (.ok b, q) := by
  constructor
  · intro run
    cases first : m p with
    | mk outcome r =>
      cases outcome with
      | ok a => exact ⟨a, r, rfl, (bind_of_ok first).symm.trans run⟩
      | error failure => cases (bind_of_error first).symm.trans run
  · rintro ⟨a, r, first, second⟩
    exact (bind_of_ok first).trans second

/-- Two steps fail if the first one does, or the second one after it. -/
theorem bind_eq_error_iff {failure : Failure} :
    (m >>= k) p = (.error failure, q) ↔
      m p = (.error failure, q) ∨ ∃ a r, m p = (.ok a, r) ∧ k a r = (.error failure, q) := by
  constructor
  · intro run
    cases first : m p with
    | mk outcome r =>
      cases outcome with
      | ok a => exact Or.inr ⟨a, r, rfl, (bind_of_ok first).symm.trans run⟩
      | error cause =>
        have fails := @bind_of_error _ _ m k p r cause first
        cases fails.symm.trans run
        exact Or.inl rfl
  · rintro (fails | ⟨a, r, first, later⟩)
    · exact bind_of_error fails
    · exact (bind_of_ok first).trans later

theorem exists_bind_error (fails : ∃ failure q, m p = (.error failure, q)) :
    ∃ failure q, (m >>= k) p = (.error failure, q) := by
  obtain ⟨failure, q, fails⟩ := fails
  exact ⟨failure, q, bind_of_error fails⟩

theorem pure_apply (a : α) (p : Progress) : (pure a : Run α) p = (.ok a, p) := rfl

theorem ofExcept_apply (result : Except Failure α) (p : Progress) : ofExcept result p = (result, p) := rfl

theorem ofExcept_ok_bind (a : α) (k : α → Run β) : ofExcept (.ok a) >>= k = k a := by
  funext p
  exact bind_of_ok (ofExcept_apply (.ok a) p)

theorem ofExcept_error_bind (failure : Failure) (k : α → Run β) :
    ofExcept (.error failure) >>= k = ofExcept (.error failure) := by
  funext p
  exact bind_of_error (ofExcept_apply (.error failure) p)

theorem tryCatch_of_ok {rescue : Failure → Run α} {a : α} (first : m p = (.ok a, q)) :
    tryCatch m rescue p = (.ok a, q) := by
  show ExceptT.tryCatch m rescue p = (.ok a, q)
  simp only [ExceptT.tryCatch, ExceptT.mk, bind, StateT.bind]
  rw [first]
  rfl

theorem tryCatch_of_error {rescue : Failure → Run α} {failure : Failure}
    (first : m p = (.error failure, q)) : tryCatch m rescue p = rescue failure q := by
  show ExceptT.tryCatch m rescue p = _
  simp only [ExceptT.tryCatch, ExceptT.mk, bind, StateT.bind]
  rw [first]

theorem exists_of_fails (fails : (m p).1.isOk = false) :
    ∃ failure q, m p = (.error failure, q) := by
  cases result : m p with
  | mk outcome q =>
    cases outcome with
    | error failure => exact ⟨failure, q, rfl⟩
    | ok a =>
      rw [result] at fails
      cases fails

theorem mapM_cons_eq_ok_iff {f : α → Run β} {x : α} {xs : List α} {ys : List β} :
    (x :: xs).mapM f p = (.ok ys, q) ↔
      ∃ y r rest, f x p = (.ok y, r) ∧ xs.mapM f r = (.ok rest, q) ∧ y :: rest = ys := by
  rw [List.mapM_cons, bind_eq_ok_iff]
  constructor
  · rintro ⟨y, r, first, run⟩
    obtain ⟨rest, s, later, last⟩ := bind_eq_ok_iff.mp run
    cases last
    exact ⟨y, r, rest, first, later, rfl⟩
  · rintro ⟨y, r, rest, first, later, rfl⟩
    exact ⟨y, r, first, bind_eq_ok_iff.mpr ⟨rest, q, later, rfl⟩⟩

/-- If what a step makes of an element does not depend on the progress, then neither does what a traversal
makes of a list. -/
theorem mapM_ok_iff {f : α → Run β} {R : α → β → Prop} (each : ∀ x y p, (∃ q, f x p = (.ok y, q)) ↔ R x y)
    {xs : List α} {ys : List β} : (∃ q, xs.mapM f p = (.ok ys, q)) ↔ List.Forall₂ R xs ys := by
  induction xs generalizing ys p with
  | nil =>
    constructor
    · rintro ⟨q, run⟩
      cases run
      exact .nil
    · intro related
      cases related
      exact ⟨p, rfl⟩
  | cons x rest ih =>
    constructor
    · rintro ⟨q, run⟩
      obtain ⟨y, r, done, first, later, rfl⟩ := mapM_cons_eq_ok_iff.mp run
      exact .cons ((each x y p).mp ⟨r, first⟩) (ih.mp ⟨q, later⟩)
    · intro related
      cases related with
      | @cons _ y _ done first later =>
        obtain ⟨r, here⟩ := (each x y p).mpr first
        obtain ⟨q, there⟩ := (@ih r done).mpr later
        exact ⟨q, mapM_cons_eq_ok_iff.mpr ⟨y, r, done, here, there, rfl⟩⟩

/-- Whether all failures of a step of a conversion have a property. -/
def FailsOnly (P : Failure → Prop) (m : Run α) : Prop :=
  ∀ p failure q, m p = (.error failure, q) → P failure

/-- Whether a step of a conversion has no other failures than those with a property, and neither loses a
tracker nor sets one up. -/
structure Steady (P : Failure → Prop) (m : Run α) : Prop where
  failing : m.FailsOnly P
  keeping : ∀ p a q, m p = (.ok a, q) → q.tracker.isSome = p.tracker.isSome

namespace Steady

variable {P : Failure → Prop}

theorem of_ok (succeeds : ∀ p, ∃ a q, m p = (.ok a, q) ∧ q.tracker.isSome = p.tracker.isSome) :
    m.Steady P := by
  refine ⟨fun p failure q fails => ?_, fun p a q run => ?_⟩
  · obtain ⟨a, r, ok, _⟩ := succeeds p
    cases ok.symm.trans fails
  · obtain ⟨b, r, ok, kept⟩ := succeeds p
    cases ok.symm.trans run
    exact kept

protected theorem pure (a : α) : (pure a : Run α).Steady P :=
  of_ok fun p => ⟨a, p, rfl, rfl⟩

/-- Two steady steps are steady one after the other. -/
protected theorem bind (first : m.Steady P) (rest : ∀ a, (k a).Steady P) : (m >>= k).Steady P := by
  refine ⟨fun p failure q fails => ?_, fun p b q run => ?_⟩
  · cases result : m p with
    | mk outcome r =>
      cases outcome with
      | ok a =>
        rw [bind_of_ok result] at fails
        exact (rest a).failing r failure q fails
      | error cause =>
        rw [bind_of_error result] at fails
        cases fails
        exact first.failing p failure q result
  · obtain ⟨a, r, before, after⟩ := bind_eq_ok_iff.mp run
    exact ((rest a).keeping r b q after).trans (first.keeping p a r before)

theorem ofExcept {result : Except Failure α} (only : ∀ failure, result = .error failure → P failure) :
    (Run.ofExcept result).Steady P := by
  refine ⟨fun p failure q fails => only failure (Prod.mk.inj fails).1, fun p a q run => ?_⟩
  cases (Prod.mk.inj run).2
  rfl

theorem foldlM {γ : Type} {step : β → γ → Run β} {xs : List γ}
    (each : ∀ b, ∀ x ∈ xs, (step b x).Steady P) (b : β) : (xs.foldlM step b).Steady P := by
  induction xs generalizing b with
  | nil => exact .pure b
  | cons x rest ih =>
    rw [List.foldlM_cons]
    refine .bind (each b x (List.mem_cons_self ..)) fun c => ih ?_ c
    exact fun b y member => each b y (List.mem_cons_of_mem _ member)

end Steady

end Run

theorem Conversion.eq_map_of_variantOf? {v name payload : Value} (found : variantOf? v = some (name, some payload)) :
    v = .map [(name, payload)] := by
  unfold variantOf? at found
  split at found
  · cases found
  · cases found
    rfl
  · cases found

theorem Conversion.eq_text_of_variantOf? {v : Value} {name : String}
    (found : variantOf? v = some (.text name, none)) : v = .text name := by
  unfold variantOf? at found
  split at found
  · cases found
    rfl
  · cases found
  · cases found

end Lineage
