import Lineage.Code.Expression
import Lineage.Proofs.Schema
import Lineage.Proofs.TypeName.Reading

namespace Lineage.TypeName

variable {cs inner : List Char} {name : String}

/-- Without a comma there is one argument at most. -/
theorem argumentsFrom_of_no_comma {depth : Int} {current : List Char} (free : ',' ∉ cs) :
    argumentsFrom depth current cs =
      if Text.trim (current.reverse ++ cs) = [] then [] else [Text.trim (current.reverse ++ cs)] := by
  induction cs generalizing depth current with
  | nil => simp [argumentsFrom]
  | cons c rest ih =>
    obtain ⟨other, free⟩ := not_or.mp (mt List.mem_cons.mpr free)
    simp only [argumentsFrom, Ne.symm other, false_and, if_false]
    rw [ih free, List.reverse_cons, List.append_assoc, List.singleton_append]

/-- What is wrapped is written in the brackets of a generic type with the name of a wrapper. -/
theorem unwrap?_eq_some_iff {part : List Char} : unwrap? cs = some part ↔
    ∃ head inner, generic? cs = some (head, inner) ∧ String.ofList head ∈ wrappers ∧ Text.trim inner = part := by
  unfold unwrap?
  cases found : generic? cs with
  | none => simp
  | some pair =>
    obtain ⟨head, inner⟩ := pair
    simp [and_assoc]

theorem peel_eq (cs : List Char) : peel cs =
    match unwrap? cs with
    | some part => peel part
    | none => cs := by
  rw [peel]
  split <;> simp only [*]

theorem peel_of_unwrap?_none (bare : unwrap? cs = none) : peel cs = cs := by
  rw [peel_eq, bare]

theorem peel_of_unwrap? (wrapped : unwrap? cs = some inner) : peel cs = peel inner := by
  rw [peel_eq, wrapped]

/-- A type without what allows null at its end, which may still be so before that end. -/
def unmarked (type : String) : List Char :=
  ((withoutNone? (Text.trim type.toList)).map Text.trim).getD (Text.trim type.toList)

theorem toList_base (type : String) : (base type).toList = peel (unmarked type) := by
  rw [base, String.toList_ofList]
  rfl

/-- No comma is lost with what a type is wrapped in. -/
theorem comma_mem_peel (member : ',' ∈ cs) : ',' ∈ peel cs := by
  induction length : cs.length using Nat.strong_induction_on generalizing cs with
  | _ n ih =>
    rw [peel_eq]
    cases found : unwrap? cs with
    | none => exact member
    | some part =>
      refine ih _ (length ▸ length_lt_of_unwrap? found) ?_ rfl
      obtain ⟨head, inner, generic, _, rfl⟩ := unwrap?_eq_some_iff.mp found
      obtain ⟨q, among, rfl, word⟩ := generic?_written generic
      have before : ',' ∉ q := fun inQ => absurd (List.mem_flatten_of_mem among inQ) (by decide)
      have name : ',' ∉ head := by
        intro inHead
        have comma : Text.isWord ',' = false := by decide
        cases comma.symm.trans (word _ inHead)
      refine Text.mem_trim ?_ (by decide)
      simpa [before, name] using member

theorem unwrap?_of_orNone {part : List Char} (written : withoutNone? cs = some part) : unwrap? cs = none := by
  rw [Option.eq_none_iff_forall_not_mem]
  intro inside found
  obtain ⟨head, inner, generic, _⟩ := unwrap?_eq_some_iff.mp found
  obtain ⟨q, _, whole, _⟩ := generic?_written generic
  have ends : cs = q ++ head ++ '[' :: inner ++ [']'] := by simp [whole]
  have last := congrArg List.getLast? ((Text.dropSuffix?_eq_some_iff.mp written).symm.trans ends)
  rw [List.getLast?_append_of_ne_nil _ (by simp), List.getLast?_concat] at last
  cases last

section Primitive

variable {k : Scalar} (basic : name ∈ Code.primitives) (known : scalar? name = some k)
include basic known

/-- A type that wraps a primitive one has a schema, which wraps that of the primitive type. -/
theorem schemaOf_of_peel (inside : peel (Text.trim cs) = name.toList) :
    ∃ s, schemaOf cs = .ok s ∧ s.Wraps k := by
  have plain : ∀ name ∈ Code.primitives, withoutNone? name.toList = none ∧ generic? name.toList = none ∧
      name.toList ∉ [[], "Any".toList, "object".toList] ∧ ',' ∉ name.toList := by decide
  obtain ⟨single, unwritten, needed, free⟩ := plain name basic
  induction length : cs.length using Nat.strong_induction_on generalizing cs with
  | _ n ih =>
    rw [peel_eq] at inside
    cases found : unwrap? (Text.trim cs) with
    | none =>
      simp only [found] at inside
      have solid : ¬ IsAny cs := by
        rintro (rfl | any | object)
        · exact needed (inside ▸ by simp [Text.trim, Text.trimStart, Text.trimEnd])
        · exact needed (inside ▸ by simp [any])
        · exact needed (inside ▸ by simp [object])
      refine ⟨.scalar k, ?_, .scalar⟩
      rw [schemaOf_eq, if_neg (mt isAny_iff.mp solid)]
      simp only [inside, single, unwritten, String.ofList_toList, plainSchema, known]
    | some part =>
      simp only [found] at inside
      obtain ⟨head, inner, written, wrapper, rfl⟩ := unwrap?_eq_some_iff.mp found
      have generic : Generic cs (String.ofList head) inner := by
        refine ⟨Option.eq_none_iff_forall_not_mem.mpr fun part orNone => ?_, head, written, rfl⟩
        cases (unwrap?_of_orNone orNone).symm.trans found
      have filled : Text.trim inner ≠ [] := by
        intro empty
        have bare : peel [] = [] := by
          rw [peel_eq]
          rfl
        rw [empty, bare] at inside
        exact needed (inside ▸ List.mem_cons_self ..)
      have given : arguments inner = [Text.trim inner] := by
        have single : ',' ∉ inner := fun comma =>
          free (inside ▸ comma_mem_peel (Text.mem_trim comma (by decide)))
        rw [arguments, argumentsFrom_of_no_comma single, List.reverse_nil, List.nil_append, if_neg filled]
      have shorter : (Text.trim inner).length < cs.length :=
        (length_lt_of_unwrap? found).trans_le (Text.length_trim_le cs)
      obtain ⟨s, read, wraps⟩ := ih _ (length ▸ shorter) (by rwa [Text.trim_trim]) rfl
      rcases List.mem_cons.mp wrapper with optional | items
      · rw [schemaOf_of_around (.optional (optional ▸ generic) given), read]
        exact ⟨_, rfl, .nullable wraps⟩
      · rw [schemaOf_of_around (.items generic items given), read]
        exact ⟨_, rfl, .array wraps⟩

/-- Whatever a primitive type is wrapped in, the type has a schema. -/
theorem schema_of_base {type : String} (inside : base type = name) :
    ∃ s, schema (some type) = .ok s ∧ s.Wraps k := by
  have peels : peel (unmarked type) = name.toList := by rw [← inside, toList_base]
  change ∃ s, schemaOf type.toList = .ok s ∧ s.Wraps k
  cases orNone : withoutNone? (Text.trim type.toList) with
  | none =>
    rw [unmarked, orNone] at peels
    exact schemaOf_of_peel basic known peels
  | some part =>
    rw [unmarked, orNone] at peels
    obtain ⟨s, read, wraps⟩ := schemaOf_of_peel basic known peels
    rw [schemaOf_of_around (.orNone orNone), read]
    exact ⟨_, rfl, .nullable wraps⟩

end Primitive

end Lineage.TypeName
