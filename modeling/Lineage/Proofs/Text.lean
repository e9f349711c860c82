import Mathlib.Data.List.DropRight
import Mathlib.Data.List.Lex
import Mathlib.Data.List.Sort
import Mathlib.Data.Nat.Digits.Defs
import Lineage.Text.Blank
import Lineage.Text.Half

namespace Lineage.Text

section Blank

variable {cs : List Char}

theorem trimStart_eq_nil_iff : trimStart cs = [] ↔ ∀ c ∈ cs, isBlank c = true :=
  List.dropWhile_eq_nil_iff

theorem trimEnd_eq_nil_iff : trimEnd cs = [] ↔ ∀ c ∈ cs, isBlank c = true := by
  rw [trimEnd, List.reverse_eq_nil_iff, List.dropWhile_eq_nil_iff]
  simp only [List.mem_reverse]

/-- Nothing is left of a text between its blanks exactly if it has nothing but blanks. -/
theorem trim_eq_nil_iff : trim cs = [] ↔ ∀ c ∈ cs, isBlank c = true := by
  rw [trim, trimEnd_eq_nil_iff]
  constructor
  · intro all
    cases cut : trimStart cs with
    | nil => exact trimStart_eq_nil_iff.mp cut
    | cons c rest =>
      have first := all c (by rw [cut]; exact List.mem_cons_self ..)
      have stops := List.head?_dropWhile_not isBlank cs
      simp only [trimStart] at cut
      simp [cut, first] at stops
  · exact fun all c member => all c ((List.dropWhile_sublist _).mem member)

theorem mem_trimStart {c : Char} (member : c ∈ cs) (solid : isBlank c = false) : c ∈ trimStart cs := by
  rw [← List.takeWhile_append_dropWhile (p := isBlank) (l := cs), List.mem_append] at member
  rcases member with front | back
  · rw [List.mem_takeWhile_imp front] at solid
    cases solid
  · exact back

/-- Only blanks are cut off around a text. -/
theorem mem_trim {c : Char} (member : c ∈ cs) (solid : isBlank c = false) : c ∈ trim cs := by
  have reversed := mem_trimStart (List.mem_reverse.mpr (mem_trimStart member solid)) solid
  exact List.mem_reverse.mpr reversed

theorem trim_isPrefix (cs : List Char) : trim cs <+: trimStart cs := by
  rw [trim, trimEnd, ← List.reverse_suffix, List.reverse_reverse]
  exact List.dropWhile_suffix isBlank

theorem trim_isInfix (cs : List Char) : trim cs <:+: cs :=
  (trim_isPrefix cs).isInfix.trans (List.dropWhile_suffix isBlank).isInfix

/-- Trimming a trimmed text changes nothing. -/
theorem trim_trim (cs : List Char) : trim (trim cs) = trim cs := by
  have ends : trimEnd (trim cs) = trim cs := by
    simp only [trim, trimEnd, List.reverse_reverse, List.dropWhile_idempotent]
  have starts : trimStart (trim cs) = trim cs := by
    rw [trimStart, List.dropWhile_eq_self_iff]
    intro filled
    -- What the text starts with after its blanks is no blank, and it is still there.
    have solid := List.head?_dropWhile_not isBlank cs
    obtain ⟨c, rest, whole⟩ := List.exists_cons_of_length_pos filled
    obtain ⟨back, front⟩ := trim_isPrefix cs
    rw [← trimStart, ← front, whole] at solid
    simpa [whole] using solid
  rw [trim, starts, ends]

/-- Nothing is trimmed from the start exactly if the first character is no blank. -/
theorem trimStart_eq_self_iff : trimStart cs = cs ↔ ∀ c, cs.head? = some c → isBlank c = false := by
  cases cs with
  | nil => simp [trimStart]
  | cons c rest =>
    simp only [trimStart, List.head?_cons, Option.some.injEq, forall_eq']
    cases blank : isBlank c with
    | true =>
      simp only [List.dropWhile_cons_of_pos blank, Bool.true_eq_false, iff_false]
      intro same
      have shorter := (List.dropWhile_sublist isBlank (l := rest)).length_le
      rw [same, List.length_cons] at shorter
      omega
    | false => simp [blank]

theorem trimEnd_eq_self_iff : trimEnd cs = cs ↔ ∀ c, cs.getLast? = some c → isBlank c = false := by
  rw [trimEnd, List.reverse_eq_iff]
  exact trimStart_eq_self_iff.trans (by rw [List.head?_reverse])

/-- There are no blanks around a text exactly if it starts and ends with none. -/
theorem trim_eq_self_iff : trim cs = cs ↔ (∀ c, cs.head? = some c → isBlank c = false) ∧
    ∀ c, cs.getLast? = some c → isBlank c = false := by
  rw [← trimStart_eq_self_iff, ← trimEnd_eq_self_iff]
  constructor
  · intro same
    have inside : cs <+: trimStart cs := by
      have stripped := trim_isPrefix cs
      rwa [same] at stripped
    have start : trimStart cs = cs := (List.dropWhile_suffix isBlank).eq_of_length_le inside.length_le
    exact ⟨start, by rwa [trim, start] at same⟩
  · rintro ⟨start, stop⟩
    rw [trim, start, stop]

/-- A text without blanks stays as it is. -/
theorem trim_of_solid (solid : ∀ c ∈ cs, isBlank c = false) : trim cs = cs :=
  trim_eq_self_iff.mpr ⟨fun c first => solid c (List.mem_of_head? first),
    fun c last => solid c (List.mem_of_getLast? last)⟩

/-- A blank at the start of a text makes no difference. -/
theorem trim_cons_of_blank {c : Char} (blank : isBlank c = true) : trim (c :: cs) = trim cs := by
  rw [trim, trimStart, List.dropWhile_cons_of_pos blank]
  rfl

/-- A blank at the end of a text makes no difference. -/
theorem trim_concat_of_blank {c : Char} (blank : isBlank c = true) : trim (cs ++ [c]) = trim cs := by
  rw [trim, trim, trimStart, trimStart, List.dropWhile_append]
  split
  · rename_i empty
    rw [List.isEmpty_iff] at empty
    simp [empty, blank]
  · rw [trimEnd, List.reverse_concat, List.dropWhile_cons_of_pos blank]
    rfl

theorem strip_isEmpty_iff {s : String} :
    (strip s).isEmpty = true ↔ ∀ c ∈ s.toList, isBlank c = true := by
  rw [strip, String.isEmpty_iff, String.ofList_eq_empty_iff, trim_eq_nil_iff]

end Blank

theorem toList_toString (n : Nat) : (toString n).toList = Nat.toDigits 10 n := by
  rw [Nat.toString_eq_ofList_toDigits, String.toList_ofList]

/-- A number is written in digits only. -/
theorem isDigit_of_mem_toString {n : Nat} {c : Char} (among : c ∈ (toString n).toList) : c.isDigit = true := by
  rw [toList_toString] at among
  exact Nat.isDigit_of_mem_toDigits (by omega) (by omega) among

theorem toString_inj {i j : Nat} (same : (toString i).toList = (toString j).toList) : i = j := by
  rw [toList_toString, toList_toString] at same
  have values := congrArg (fun cs => Nat.ofDigitChars 10 cs 0) same
  simpa using values

theorem isHalf_toNat (c : Char) : isHalf c.toNat = false := by
  have valid : c.toNat.isValidChar := c.valid
  simp only [isHalf, Bool.and_eq_false_iff, decide_eq_false_iff_not]
  rcases valid with low | ⟨high, _⟩ <;> omega

theorem half?_eq_some {c : Char} {code : Nat} :
    half? c = some code ↔ isHalf code = true ∧ c.toNat = halfOffset + code := by
  simp only [half?, Option.ite_none_right_eq_some, Option.some.injEq]
  constructor
  · rintro ⟨half, rfl⟩
    refine ⟨half, ?_⟩
    simp only [isHalf, Bool.and_eq_true, decide_eq_true_eq] at half
    omega
  · rintro ⟨half, same⟩
    rw [same, Nat.add_sub_cancel_left]
    exact ⟨half, rfl⟩

/-- A character has no code point in common with another, because no character has that of a half. -/
theorem codePoint_injective : Function.Injective codePoint := by
  intro c d same
  unfold codePoint at same
  cases left : half? c with
  | none =>
    cases right : half? d with
    | none =>
      rw [left, right] at same
      exact Char.toNat_inj.mp same
    | some code =>
      rw [left, right] at same
      have half := (half?_eq_some.mp right).1
      rw [← show c.toNat = code from same, isHalf_toNat] at half
      cases half
  | some code =>
    obtain ⟨half, place⟩ := half?_eq_some.mp left
    cases right : half? d with
    | none =>
      rw [left, right] at same
      rw [show code = d.toNat from same, isHalf_toNat] at half
      cases half
    | some other =>
      rw [left, right] at same
      cases same
      exact Char.toNat_inj.mp (place.trans (half?_eq_some.mp right).2.symm)

theorem codePoints_injective : Function.Injective fun s : String => s.toList.map codePoint :=
  (List.map_injective_iff.mpr codePoint_injective).comp fun _ _ => String.toList_injective

theorem before_iff {s t : String} :
    before s t = true ↔ s.toList.map codePoint < t.toList.map codePoint := decide_eq_true_iff

theorem inOrder_iff {s t : String} :
    inOrder s t = true ↔ s.toList.map codePoint ≤ t.toList.map codePoint := by
  rw [inOrder, Bool.not_eq_true', ← Bool.not_eq_true, before_iff, not_lt]

theorem before_irrefl (s : String) : before s s = false := by
  rw [← Bool.not_eq_true, before_iff]
  exact lt_irrefl _

theorem inOrder_trans {s t u : String} (first : inOrder s t = true) (second : inOrder t u = true) :
    inOrder s u = true :=
  inOrder_iff.mpr ((inOrder_iff.mp first).trans (inOrder_iff.mp second))

theorem inOrder_total (s t : String) : (inOrder s t || inOrder t s) = true := by
  rw [Bool.or_eq_true, inOrder_iff, inOrder_iff]
  exact le_total _ _

theorem before_iff_inOrder_and_ne {s t : String} : before s t = true ↔ inOrder s t = true ∧ s ≠ t := by
  rw [before_iff, inOrder_iff, lt_iff_le_and_ne, ne_eq, codePoints_injective.eq_iff]

/-- Texts in ascending order are the same if each has the same elements. -/
theorem eq_of_ascending {xs ys : List String} (left : xs.Pairwise fun s t => before s t = true)
    (right : ys.Pairwise fun s t => before s t = true) (same : ∀ s, s ∈ xs ↔ s ∈ ys) : xs = ys := by
  have irreflexive : Std.Irrefl fun s t => before s t = true := ⟨fun s => by simp [before_irrefl]⟩
  have antisymmetric : Std.Antisymm fun s t => before s t = true := ⟨fun s t less greater =>
    absurd (before_iff.mp less) (before_iff.mp greater).asymm⟩
  exact left.eq_of_mem_iff right same

end Lineage.Text
