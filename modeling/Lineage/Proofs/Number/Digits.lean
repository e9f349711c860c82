import Mathlib.Data.List.Forall2
import Mathlib.Data.List.Induction
import Lineage.Number.Integer
import Lineage.Proofs.Text

namespace Lineage

section Digit

variable {c : Char} {d : Nat}

theorem Text.digitValue?_of_isDigit (digit : c.isDigit = true) : Text.digitValue? c = some (c.toNat - 0x30) := by
  have bounds := Char.isDigit_iff_toNat.mp digit
  rw [Text.digitValue?, if_pos (Nat.lt_of_le_of_lt bounds.2 (by decide)), if_pos digit]

theorem Text.isDigit_of_digitValue? (ascii : c.toNat < 0x80) (value : Text.digitValue? c = some d) :
    c.isDigit = true := by
  rw [← Text.isDigit_of_ascii ascii, Text.isDigit, value, Option.isSome_some]

theorem digitChar_of_isDigit (digit : c.isDigit = true) : Nat.digitChar (c.toNat - 0x30) = c := by
  have bounds : 0x30 ≤ c.toNat ∧ c.toNat ≤ 0x39 := Char.isDigit_iff_toNat.mp digit
  rw [← Char.toNat_inj, Nat.toNat_digitChar_of_lt_ten (by omega)]
  omega

/-- The value of a digit is below ten. -/
theorem Text.digitValue?_lt_ten (value : Text.digitValue? c = some d) : d < 10 := by
  by_cases ascii : c.toNat < 0x80
  · have digit := Text.isDigit_of_digitValue? ascii value
    have bounds : 0x30 ≤ c.toNat ∧ c.toNat ≤ 0x39 := Char.isDigit_iff_toNat.mp digit
    rw [Text.digitValue?_of_isDigit digit] at value
    cases value
    omega
  · rw [Text.digitValue?, if_neg ascii] at value
    obtain ⟨start, found, rfl⟩ := Option.map_eq_some_iff.mp value
    have bounds := List.find?_some found
    simp only [Bool.and_eq_true, decide_eq_true_iff] at bounds
    omega

end Digit

/-- Whether characters are decimal digits, at least one, that write a number. -/
structure Number.Written (digits : List Char) (n : Nat) : Prop where
  nonempty : digits ≠ []
  decimal : ∀ c ∈ digits, c.isDigit = true
  value : Nat.ofDigitChars 10 digits 0 = n

/-- Whether characters are decimal digits of any script that have some values, one after the other. -/
def Number.Valued (digits : List Char) (values : List Nat) : Prop :=
  List.Forall₂ (fun c d => Text.digitValue? c = some d) digits values

namespace Number

variable {digits : List Char} {values : List Nat} {n : Nat}

/-- The number that `toString` writes is the number. -/
theorem written_toString (n : Nat) : Written (toString n).toList n where
  nonempty := by
    rw [Text.toList_toString]
    exact Nat.toDigits_ne_nil
  decimal _ among := Text.isDigit_of_mem_toString among
  value := by
    rw [Text.toList_toString]
    exact Nat.ofDigitChars_toDigits (by decide) (by decide)

theorem toDigits_digit {c : Char} (digit : c.isDigit = true) : Nat.toDigits 10 (c.toNat - 0x30) = [c] := by
  have less := Text.digitValue?_lt_ten (Text.digitValue?_of_isDigit digit)
  rw [Nat.toDigits_of_lt_base less, digitChar_of_isDigit digit]

theorem toDigits_concat {c : Char} (digit : c.isDigit = true) (positive : 0 < n) :
    Nat.toDigits 10 (10 * n + (c.toNat - 0x30)) = Nat.toDigits 10 n ++ [c] := by
  have less := Text.digitValue?_lt_ten (Text.digitValue?_of_isDigit digit)
  rw [← Nat.toDigits_append_toDigits (by decide) positive less, toDigits_digit digit]

/-- A number is written as `toString` writes it, with any zeros in front. -/
theorem written_iff : Written digits n ↔ ∃ zeros, digits = List.replicate zeros '0' ++ (toString n).toList := by
  constructor
  · intro written
    rw [Text.toList_toString]
    induction digits using List.reverseRecOn generalizing n with
    | nil => exact absurd rfl written.nonempty
    | append_singleton front c ih =>
      have digit : c.isDigit = true := written.decimal c (by simp)
      have value : 10 * Nat.ofDigitChars 10 front 0 + (c.toNat - 0x30) = n := by
        simpa [Nat.ofDigitChars_append, Nat.ofDigitChars_cons] using written.value
      by_cases filled : front = []
      · exact ⟨0, by simp [filled, ← value, toDigits_digit digit]⟩
      obtain ⟨zeros, same⟩ := ih ⟨filled, fun x among => written.decimal x (by simp [among]), rfl⟩
      rcases Nat.eq_zero_or_pos (Nat.ofDigitChars 10 front 0) with zero | positive
      · -- a front that is worth nothing is all zeros, the one that `toString` writes for it too
        rw [zero, Nat.toDigits_zero, ← List.replicate_succ'] at same
        exact ⟨zeros + 1, by rw [← value, zero, Nat.mul_zero, Nat.zero_add, toDigits_digit digit, same]⟩
      · exact ⟨zeros, by rw [← value, toDigits_concat digit positive, ← List.append_assoc, ← same]⟩
  · rintro ⟨zeros, rfl⟩
    have written := written_toString n
    refine ⟨List.append_ne_nil_of_right_ne_nil _ written.nonempty, fun c among => ?_, ?_⟩
    · rcases List.mem_append.mp among with front | back
      · rw [List.eq_of_mem_replicate front]
        rfl
      · exact written.decimal c back
    · rw [Nat.ofDigitChars_append, Nat.ofDigitChars_replicate_zero, Nat.mul_zero, written.value]

namespace Valued

variable (valued : Valued digits values)
include valued

theorem lt_ten : ∀ d ∈ values, d < 10 := by
  induction valued with
  | nil => simp
  | cons value _ ih => exact List.forall_mem_cons.mpr ⟨Text.digitValue?_lt_ten value, ih⟩

theorem exists_value : ∀ c ∈ digits, ∃ d, Text.digitValue? c = some d := by
  induction valued with
  | nil => simp
  | cons value _ ih => exact List.forall_mem_cons.mpr ⟨⟨_, value⟩, ih⟩

theorem filterMap_eq : digits.filterMap Text.digitValue? = values := by
  induction valued with
  | nil => rfl
  | cons value _ ih => rw [List.filterMap_cons_some value, ih]

/-- In ASCII the digits are told by their values. -/
theorem eq_map (ascii : ∀ c ∈ digits, c.toNat < 0x80) : digits = values.map Nat.digitChar := by
  induction valued with
  | nil => rfl
  | cons value _ ih =>
    obtain ⟨first, later⟩ := List.forall_mem_cons.mp ascii
    have digit := Text.isDigit_of_digitValue? first value
    rw [Text.digitValue?_of_isDigit digit, Option.some.injEq] at value
    rw [List.map_cons, ← ih later, ← value, digitChar_of_isDigit digit]

/-- A number has the values of its digits as they are written in ASCII. -/
theorem written_map_iff : Written (values.map Nat.digitChar) n ↔ values ≠ [] ∧ ofDigits values = n := by
  have small := valued.lt_ten
  have decimal : ∀ c ∈ values.map Nat.digitChar, c.isDigit = true := by
    rw [List.forall_mem_map]
    intro d member
    rw [Nat.isDigit_digitChar, decide_eq_true (small d member)]
  have same : Nat.ofDigitChars 10 (values.map Nat.digitChar) 0 = ofDigits values := by
    rw [Nat.ofDigitChars_eq_foldl, List.foldl_map, ofDigits]
    refine List.foldl_ext _ _ _ fun total d member => ?_
    exact congrArg (10 * total + ·) (Nat.toNat_digitChar_sub_48_of_lt_ten (small d member))
  rw [← same]
  exact ⟨fun written => ⟨by simpa using written.nonempty, written.value⟩,
    fun ⟨filled, value⟩ => ⟨by simpa using filled, decimal, value⟩⟩

end Valued

theorem valued_of_decimal (decimal : ∀ c ∈ digits, c.isDigit = true) :
    Valued digits (digits.map fun c => c.toNat - 0x30) := by
  rw [Valued, List.forall₂_map_right_iff, List.forall₂_same]
  exact fun c member => Text.digitValue?_of_isDigit (decimal c member)

theorem ofDigits_filterMap (decimal : ∀ c ∈ digits, c.isDigit = true) :
    ofDigits (digits.filterMap Text.digitValue?) = Nat.ofDigitChars 10 digits 0 := by
  rw [(valued_of_decimal decimal).filterMap_eq, ofDigits, List.foldl_map]
  rfl

theorem valued_of_all {digits : List Char} (all : ∀ c ∈ digits, Text.isDigit c = true) :
    Valued digits (digits.filterMap Text.digitValue?) := by
  induction digits with
  | nil => exact .nil
  | cons c rest ih =>
    obtain ⟨first, later⟩ := List.forall_mem_cons.mp all
    obtain ⟨d, value⟩ := Option.isSome_iff_exists.mp first
    rw [List.filterMap_cons_some value]
    exact .cons value (ih later)

end Number

end Lineage
