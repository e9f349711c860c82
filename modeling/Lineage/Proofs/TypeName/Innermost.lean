import Lineage.Proofs.TypeName.Base

namespace Lineage.TypeName

variable {cs part : List Char} {type : String}

/-- Whether a type is inside of what another one is wrapped in. -/
def Unwraps : List Char → List Char → Prop :=
  Relation.ReflTransGen fun outer inner => unwrap? outer = some inner

theorem Unwraps.peel_eq (inside : Unwraps cs part) : peel cs = peel part := by
  induction inside with
  | refl => rfl
  | tail _ step ih => rw [ih, peel_of_unwrap? step]

/-- Unwrapping a type ends with a type inside of it that is not wrapped. -/
theorem unwraps_peel (cs : List Char) : Unwraps cs (peel cs) ∧ unwrap? (peel cs) = none := by
  induction length : cs.length using Nat.strong_induction_on generalizing cs with
  | _ n ih =>
    cases found : unwrap? cs with
    | none =>
      rw [peel_of_unwrap?_none found]
      exact ⟨.refl, found⟩
    | some part =>
      obtain ⟨inside, bare⟩ := ih _ (length ▸ length_lt_of_unwrap? found) part rfl
      rw [peel_of_unwrap? found]
      exact ⟨.head found inside, bare⟩

theorem Unwraps.trim_eq (inside : Unwraps cs part) (trimmed : Text.trim cs = cs) : Text.trim part = part := by
  cases inside with
  | refl => exact trimmed
  | tail _ step =>
    obtain ⟨_, _, _, _, rfl⟩ := unwrap?_eq_some_iff.mp step
    exact Text.trim_trim _

theorem Unwraps.length_le (inside : Unwraps cs part) : part.length ≤ cs.length := by
  induction inside with
  | refl => rfl
  | tail _ step ih => exact (length_lt_of_unwrap? step).le.trans ih

theorem trim_unmarked (type : String) : Text.trim (unmarked type) = unmarked type := by
  unfold unmarked
  cases withoutNone? (Text.trim type.toList) <;> exact Text.trim_trim _

theorem trim_base (type : String) : Text.trim (base type).toList = (base type).toList := by
  rw [toList_base]
  exact (unwraps_peel _).1.trim_eq (trim_unmarked type)

/-- The base of a type is wrapped in nothing. -/
theorem unwrap?_base (type : String) : unwrap? (base type).toList = none := by
  rw [toList_base]
  exact (unwraps_peel _).2

/-- What allows null at the end of a type is no part of its base. -/
theorem length_base_lt (marked : withoutNone? (Text.trim type.toList) = some part) :
    (base type).length < type.length := by
  have shorter : (Text.trim part).length < type.toList.length :=
    (Text.length_trim_le part).trans_lt
      ((length_lt_of_withoutNone? marked).trans_le (Text.length_trim_le type.toList))
  have start : unmarked type = Text.trim part := by
    rw [unmarked, marked]
    rfl
  rw [← String.length_toList, ← String.length_toList, toList_base, start]
  exact (unwraps_peel _).1.length_le.trans_lt shorter

/-- A type is its own base exactly if it has no blanks around it, does not end with what allows null and is
wrapped in nothing. -/
theorem base_eq_self_iff : base type = type ↔
    Text.trim type.toList = type.toList ∧ withoutNone? type.toList = none ∧ unwrap? type.toList = none := by
  constructor
  · intro same
    have trimmed := trim_base type
    have bare := unwrap?_base type
    rw [same] at trimmed bare
    refine ⟨trimmed, Option.eq_none_iff_forall_not_mem.mpr fun part marked => ?_, bare⟩
    have shorter := length_base_lt (trimmed.symm ▸ marked)
    rw [same] at shorter
    exact lt_irrefl _ shorter
  · rintro ⟨trimmed, single, bare⟩
    have start : unmarked type = type.toList := by
      rw [unmarked, trimmed, single]
      rfl
    rw [← String.toList_inj, toList_base, start, peel_of_unwrap?_none bare]

theorem base_base_eq_iff : base (base type) = base type ↔ withoutNone? (base type).toList = none := by
  rw [base_eq_self_iff]
  exact ⟨fun own => own.2.1, fun single => ⟨trim_base type, single, unwrap?_base type⟩⟩

/-- The base of a type is wrapped in nothing, and it is its own base exactly if no type that is reached by
unwrapping ends with what allows null. Otherwise its own base is a shorter one. -/
theorem base_base (type : String) : unwrap? (base type).toList = none ∧
    (base (base type) = base type ↔ ∀ cs, Unwraps (unmarked type) cs → withoutNone? cs = none) ∧
    (base (base type) ≠ base type → (base (base type)).length < (base type).length) := by
  refine ⟨unwrap?_base type, base_base_eq_iff.trans ⟨fun single cs inside => ?_, fun single => ?_⟩, fun other => ?_⟩
  · -- a type that allows null at its end is wrapped in nothing, so unwrapping ends there
    refine Option.eq_none_iff_forall_not_mem.mpr fun part marked => ?_
    have last := inside.peel_eq.trans (peel_of_unwrap?_none (unwrap?_of_orNone marked))
    rw [toList_base, last] at single
    cases single.symm.trans marked
  · rw [toList_base]
    exact single _ (unwraps_peel _).1
  · obtain ⟨part, marked⟩ := Option.ne_none_iff_exists'.mp (mt base_base_eq_iff.mpr other)
    exact length_base_lt ((trim_base type).symm ▸ marked)

/-- What allows null inside of a wrapper is left in the base, but not in the base of the base. -/
theorem base_of_wrapped_orNone :
    base "List[Foo | None]" = "Foo | None" ∧ base (base "List[Foo | None]") = "Foo" := by
  have wrapped : unwrap? (unmarked "List[Foo | None]") = some "Foo | None".toList := by decide
  have marked : unmarked "Foo | None" = "Foo".toList := by decide
  have bare : unwrap? "Foo | None".toList = none ∧ unwrap? "Foo".toList = none := by decide
  have first : base "List[Foo | None]" = "Foo | None" := by
    rw [← String.toList_inj, toList_base, peel_of_unwrap? wrapped, peel_of_unwrap?_none bare.1]
  refine ⟨first, ?_⟩
  rw [first, ← String.toList_inj, toList_base, marked, peel_of_unwrap?_none bare.2]

end Lineage.TypeName
