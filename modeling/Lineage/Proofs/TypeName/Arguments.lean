import Mathlib.Data.List.Basic
import Lineage.Proofs.Text
import Lineage.TypeName

namespace Lineage.TypeName

/-- How many brackets are open after a text, before which some are open already. There is none if a bracket
is closed that is not open, or if a comma stands outside of all brackets. -/
def depthAfter? (depth : Nat) : List Char → Option Nat
  | [] => some depth
  | c :: rest =>
    if c = '[' then depthAfter? (depth + 1) rest
    else if c = ']' then if depth = 0 then none else depthAfter? (depth - 1) rest
    else if c = ',' ∧ depth = 0 then none
    else depthAfter? depth rest

section Starts

variable {α : Type} {x : α} {xs : List α} {holds : List α → Prop}

theorem forall_start_cons : (∀ front, front <+: x :: xs → holds front) ↔
    holds [] ∧ ∀ front, front <+: xs → holds (x :: front) := by
  simp only [List.prefix_cons_iff, or_imp, forall_and, forall_eq, forall_exists_index, and_imp]
  exact and_congr_right' ⟨fun all front => all _ front rfl, fun all _ front same => same ▸ all front⟩

theorem forall_before_cons {y : α} : (∀ front, front ++ [y] <+: x :: xs → holds front) ↔
    (x = y → holds []) ∧ ∀ front, front ++ [y] <+: xs → holds (x :: front) := by
  constructor
  · exact fun all => ⟨fun same => all [] (by simp [same]),
      fun front start => all (x :: front) (by simpa using start)⟩
  · rintro ⟨here, later⟩ front start
    cases front with
    | nil => exact here (List.cons_prefix_cons.mp start).1.symm
    | cons z front =>
      obtain ⟨rfl, behind⟩ := List.cons_prefix_cons.mp start
      exact later front behind

end Starts

section Depth

variable {depth after : Nat} {cs rest : List Char}

theorem depthAfter?_append (depth : Nat) (cs rest : List Char) :
    depthAfter? depth (cs ++ rest) = (depthAfter? depth cs).bind fun after => depthAfter? after rest := by
  induction cs generalizing depth with
  | nil => rfl
  | cons c cs ih =>
    simp only [List.cons_append, depthAfter?, ih]
    split
    · rfl
    split
    · split <;> rfl
    split <;> rfl

/-- The brackets that are open after a text are those before it and those that it opens, without those that it
closes. No start of the text closes more than there are, and before each comma some are open. -/
theorem depthAfter?_eq_some_iff : depthAfter? depth cs = some after ↔
    (∀ front, front <+: cs → front.count ']' ≤ depth + front.count '[') ∧
      (∀ front, front ++ [','] <+: cs → front.count ']' < depth + front.count '[') ∧
      depth + cs.count '[' = after + cs.count ']' := by
  induction cs generalizing depth with
  | nil => simp [depthAfter?]
  | cons c rest ih =>
    rw [depthAfter?, forall_start_cons, forall_before_cons]
    by_cases opens : c = '['
    · simp [opens, ih, Nat.add_right_comm, Nat.add_assoc]
    by_cases closes : c = ']'
    · cases depth with
      | zero =>
        -- the start that ends here closes one more than it opens
        refine iff_of_false (by simp [closes]) fun counted => ?_
        simpa [closes] using counted.1.2 [] List.nil_prefix
      | succ depth => simp [closes, ih, Nat.add_right_comm, ← Nat.add_assoc]
    have same (front : List Char) :
        (c :: front).count '[' = front.count '[' ∧ (c :: front).count ']' = front.count ']' :=
      ⟨List.count_cons_of_ne opens, List.count_cons_of_ne closes⟩
    rw [if_neg opens, if_neg closes]
    by_cases outside : c = ',' ∧ depth = 0
    · refine iff_of_false (by simp [outside]) fun counted => ?_
      simpa [outside] using counted.2.1.1 outside.1
    · have inside : c = ',' → 0 < depth := fun comma => Nat.pos_of_ne_zero fun none => outside ⟨comma, none⟩
      simpa [outside, ih, same] using fun _ _ _ => inside

/-- Around a text more brackets may be open. -/
theorem depthAfter?_add (reads : depthAfter? depth cs = some after) (more : Nat) :
    depthAfter? (depth + more) cs = some (after + more) := by
  obtain ⟨opened, commas, closed⟩ := depthAfter?_eq_some_iff.mp reads
  refine depthAfter?_eq_some_iff.mpr ⟨fun front start => ?_, fun front start => ?_, ?_⟩
  · have fewer := opened front start
    omega
  · have fewer := commas front start
    omega
  · omega

/-- A text without brackets and commas changes nothing. -/
theorem depthAfter?_of_free (depth : Nat) (free : ∀ c ∈ cs, c ≠ '[' ∧ c ≠ ']' ∧ c ≠ ',') :
    depthAfter? depth cs = some depth := by
  induction cs with
  | nil => rfl
  | cons c rest ih =>
    obtain ⟨⟨opens, closes, comma⟩, later⟩ := List.forall_mem_cons.mp free
    rw [depthAfter?, if_neg opens, if_neg closes, if_neg fun both => comma both.1, ih later]

/-- A text that keeps its brackets and commas to itself is read into the argument that it stands in. -/
theorem argumentsFrom_append (reads : depthAfter? depth cs = some after) (current rest : List Char) :
    argumentsFrom depth current (cs ++ rest) = argumentsFrom after (cs.reverse ++ current) rest := by
  induction cs generalizing depth current with
  | nil => rw [Option.some.inj reads, List.nil_append, List.reverse_nil, List.nil_append]
  | cons c cs ih =>
    rw [List.reverse_cons, List.append_assoc, List.singleton_append, List.cons_append, argumentsFrom]
    rw [depthAfter?] at reads
    split at reads
    · rename_i opens
      simp only [opens, if_true]
      exact ih reads ('[' :: current)
    rename_i opens
    split at reads
    · rename_i closes
      split at reads
      · cases reads
      · rename_i inside
        have less : (depth : Int) - 1 = (depth - 1 : Nat) := by omega
        simp only [closes, if_true, less]
        exact ih reads (']' :: current)
    · rename_i closes
      split at reads
      · cases reads
      · rename_i comma
        have still : ¬ (c = ',' ∧ (depth : Int) = 0) := fun both => comma ⟨both.1, by omega⟩
        simp only [opens, closes, if_false, still]
        exact ih reads (c :: current)

end Depth

/-- Whether every bracket of a text is closed and none of them before it is opened, and every comma stands
between a bracket that is opened and the one that closes it. -/
structure Enclosed (cs : List Char) : Prop where
  opened : ∀ front, front <+: cs → front.count ']' ≤ front.count '['
  closed : cs.count '[' = cs.count ']'
  commas : ∀ front, front ++ [','] <+: cs → front.count ']' < front.count '['

theorem enclosed_iff {cs : List Char} : Enclosed cs ↔ depthAfter? 0 cs = some 0 := by
  simp only [depthAfter?_eq_some_iff, Nat.zero_add]
  exact ⟨fun enclosed => ⟨enclosed.opened, enclosed.commas, enclosed.closed⟩,
    fun ⟨opened, commas, closed⟩ => ⟨opened, closed, commas⟩⟩

instance : DecidablePred Enclosed :=
  fun _ => decidable_of_iff _ enclosed_iff.symm

/-- Whether a text can stand among the arguments of a generic type: it has no blanks around it, every bracket
in it is closed, and every comma is in brackets. -/
structure Argument (cs : List Char) : Prop where
  filled : cs ≠ []
  trimmed : Text.trim cs = cs
  closed : depthAfter? 0 cs = some 0

/-- The blank that may stand before an argument is no part of it. -/
theorem Argument.trim_append {part blanks : List Char} (argument : Argument part)
    (among : blanks ∈ [[], [' ']]) : Text.trim (blanks.reverse ++ part) = part := by
  simp only [List.mem_cons, List.not_mem_nil, or_false] at among
  rcases among with rfl | rfl
  · exact argument.trimmed
  · exact (Text.trim_cons_of_blank (by decide)).trans argument.trimmed

/-- Arguments with a comma and a blank between them. -/
def joined (parts : List (List Char)) : List Char :=
  [',', ' '].intercalate parts

theorem joined_cons_cons (part next : List Char) (parts : List (List Char)) :
    joined (part :: next :: parts) = part ++ ',' :: ' ' :: joined (next :: parts) := by
  rw [joined, List.intercalate_cons_cons, List.append_assoc]
  rfl

theorem joined_singleton (part : List Char) : joined [part] = part :=
  List.intercalate_singleton

theorem joined_ne_nil {part : List Char} {parts : List (List Char)} (filled : part ≠ []) :
    joined (part :: parts) ≠ [] := by
  cases parts with
  | nil => rwa [joined_singleton]
  | cons next parts =>
    rw [joined_cons_cons]
    simp

/-- What is in none of the arguments and does not separate them is not among them. -/
theorem not_mem_joined {c : Char} {parts : List (List Char)} (apart : c ∉ [',', ' '])
    (each : ∀ part ∈ parts, c ∉ part) : c ∉ joined parts := by
  induction parts with
  | nil => exact List.not_mem_nil
  | cons part parts ih =>
    obtain ⟨first, later⟩ := List.forall_mem_cons.mp each
    cases parts with
    | nil => rwa [joined_singleton]
    | cons next parts =>
      rw [joined_cons_cons]
      simp only [List.mem_cons, List.not_mem_nil, or_false, not_or] at apart
      simp [first, apart, ih later]

section Joined

variable {parts : List (List Char)} (each : ∀ part ∈ parts, Argument part)
include each

/-- Joined arguments close all brackets that they open, and no others. -/
theorem depthAfter?_joined (depth : Nat) : depthAfter? (depth + 1) (joined parts) = some (depth + 1) := by
  induction parts with
  | nil => rfl
  | cons part parts ih =>
    obtain ⟨first, later⟩ := List.forall_mem_cons.mp each
    have inside : depthAfter? (depth + 1) part = some (depth + 1) := by
      simpa using depthAfter?_add first.closed (depth + 1)
    cases parts with
    | nil => rwa [joined_singleton]
    | cons next parts =>
      rw [joined_cons_cons, depthAfter?_append, inside, Option.bind_some]
      simpa [depthAfter?] using ih later

/-- Arguments that are joined are told apart again, also behind the blank before the first of them. -/
theorem argumentsFrom_joined {blanks : List Char} (among : blanks ∈ [[], [' ']]) :
    argumentsFrom 0 blanks (joined parts) = parts := by
  induction parts generalizing blanks with
  | nil =>
    simp only [List.mem_cons, List.not_mem_nil, or_false] at among
    rcases among with rfl | rfl <;> decide
  | cons part parts ih =>
    obtain ⟨first, later⟩ := List.forall_mem_cons.mp each
    have here := first.trim_append among
    cases parts with
    | nil =>
      have read := argumentsFrom_append first.closed blanks []
      rw [List.append_nil] at read
      rw [joined_singleton, show (0 : Int) = (0 : Nat) from rfl, read]
      simp [argumentsFrom, here, first.filled]
    | cons next parts =>
      have read := argumentsFrom_append first.closed blanks (',' :: ' ' :: joined (next :: parts))
      rw [joined_cons_cons, show (0 : Int) = (0 : Nat) from rfl, read]
      have blank : [' '] ∈ [[], [' ']] := List.mem_cons_of_mem _ (List.mem_cons_self ..)
      have others := ih later blank
      simpa [argumentsFrom, here] using others

theorem arguments_joined : arguments (joined parts) = parts :=
  argumentsFrom_joined each (List.mem_cons_self ..)

end Joined

/-- The arguments of a generic type are read as they are written, however deep the brackets in them are. -/
theorem arguments_intercalate {parts : List String}
    (each : ∀ part ∈ parts, part ≠ "" ∧ Text.strip part = part ∧ Enclosed part.toList) :
    (arguments (", ".intercalate parts).toList).map String.ofList = parts := by
  have argument : ∀ cs ∈ parts.map String.toList, Argument cs := by
    rw [List.forall_mem_map]
    intro part member
    obtain ⟨filled, stripped, enclosed⟩ := each part member
    refine ⟨mt String.toList_eq_nil_iff.mp filled, ?_, enclosed_iff.mp enclosed⟩
    rw [Text.strip, ← String.toList_inj, String.toList_ofList] at stripped
    exact stripped
  have written : (", ".intercalate parts).toList = joined (parts.map String.toList) :=
    String.toList_intercalate
  rw [written, arguments_joined argument, List.map_map]
  simp

/-- A mapping that has commas of its own, and a type that allows null. -/
theorem arguments_intercalate_mapping :
    (∀ part ∈ ["Dict[str, Tuple[int, Foo]]", "Foo | None"],
      part ≠ "" ∧ Text.strip part = part ∧ Enclosed part.toList) ∧
    (arguments "Dict[str, Tuple[int, Foo]], Foo | None".toList).map String.ofList =
      ["Dict[str, Tuple[int, Foo]]", "Foo | None"] := by
  have each : ∀ part ∈ ["Dict[str, Tuple[int, Foo]]", "Foo | None"],
      part ≠ "" ∧ Text.strip part = part ∧ Enclosed part.toList := by decide
  have written : "Dict[str, Tuple[int, Foo]], Foo | None" =
      ", ".intercalate ["Dict[str, Tuple[int, Foo]]", "Foo | None"] := by decide
  exact ⟨each, written ▸ arguments_intercalate each⟩

end Lineage.TypeName
