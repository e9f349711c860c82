import Lineage.Proofs.Text
import Lineage.Proofs.Traversal
import Lineage.TypeName.Schema
import Mathlib.Logic.Relation

namespace Lineage

namespace TypeName

variable {cs part inner : List Char}

/-- There are no arguments exactly where there is nothing but blanks. -/
theorem argumentsFrom_eq_nil_iff {depth : Int} {current : List Char} :
    argumentsFrom depth current cs = [] ↔
      (∀ c ∈ current, Text.isBlank c = true) ∧ ∀ c ∈ cs, Text.isBlank c = true := by
  induction cs generalizing depth current with
  | nil =>
    have blank : Text.trim current.reverse = [] ↔ ∀ c ∈ current, Text.isBlank c = true := by
      simp only [Text.trim_eq_nil_iff, List.mem_reverse]
    simp [argumentsFrom, blank]
  | cons c rest ih =>
    simp only [argumentsFrom]
    generalize (if c = '[' then depth + 1 else if c = ']' then depth - 1 else depth) = d
    split
    · rename_i ends
      have solid : Text.isBlank ',' = false := by decide
      simp [ends.1, solid]
    · rw [ih]
      simp only [List.forall_mem_cons]
      tauto

/-- An argument is a part of the text that it is read from. -/
theorem isInfix_of_mem_argumentsFrom {depth : Int} {current : List Char}
    (member : part ∈ argumentsFrom depth current cs) : part <:+: current.reverse ++ cs := by
  induction cs generalizing depth current with
  | nil =>
    simp only [argumentsFrom] at member
    split at member
    · cases member
    · rw [List.mem_singleton] at member
      rw [member, List.append_nil]
      exact Text.trim_isInfix _
  | cons c rest ih =>
    simp only [argumentsFrom] at member
    generalize (if c = '[' then depth + 1 else if c = ']' then depth - 1 else depth) = d at member
    split at member
    · rcases List.mem_cons.mp member with rfl | later
      · exact (Text.trim_isInfix _).trans (List.prefix_append _ _).isInfix
      · exact (ih later).trans ⟨current.reverse ++ [c], [], by simp⟩
    · have inside := ih member
      rwa [List.reverse_cons, List.append_assoc] at inside

/-- The starts of generic types: the module, or nothing. -/
def qualifiers : List (List Char) :=
  [[], "typing.".toList]

theorem exists_qualifier (cs : List Char) : ∃ q ∈ qualifiers, cs = q ++ unqualified cs := by
  unfold unqualified
  cases cut : Text.dropPrefix? ['t', 'y', 'p', 'i', 'n', 'g', '.'] cs with
  | none => exact ⟨[], by simp [qualifiers], rfl⟩
  | some rest => exact ⟨_, by simp [qualifiers], Text.dropPrefix?_eq_some_iff.mp cut⟩

theorem of_bracketed? (found : bracketed? cs = some inner) : cs = '[' :: (inner ++ [']']) ∧ inner ≠ [] := by
  unfold bracketed? at found
  split at found
  · obtain ⟨ends, filled⟩ := Option.filter_eq_some_iff.mp found
    refine ⟨by rw [Text.dropSuffix?_eq_some_iff.mp ends], ?_⟩
    rintro rfl
    cases filled
  · cases found

section Written

variable {head : List Char} (written : generic? cs = some (head, inner))
include written

theorem bracketed?_of_generic? : (unqualified cs).takeWhile Text.isWord = head ∧
    bracketed? ((unqualified cs).dropWhile Text.isWord) = some inner := by
  simp only [generic?] at written
  split at written
  · cases written
  · obtain ⟨_, found, same⟩ := Option.map_eq_some_iff.mp written
    obtain ⟨rfl, rfl⟩ := Prod.mk.inj same
    exact ⟨rfl, found⟩

/-- A generic type is written with or without its module. -/
theorem generic?_written :
    ∃ q ∈ qualifiers, cs = q ++ (head ++ '[' :: (inner ++ [']'])) ∧ ∀ c ∈ head, Text.isWord c = true := by
  obtain ⟨q, among, whole⟩ := exists_qualifier cs
  obtain ⟨rfl, found⟩ := bracketed?_of_generic? written
  refine ⟨q, among, ?_, fun c member => List.mem_takeWhile_imp member⟩
  rw [← (of_bracketed? found).1, List.takeWhile_append_dropWhile]
  exact whole

/-- The text in the brackets of a generic type is a part of it, together with the brackets. -/
theorem isInfix_of_generic? : '[' :: (inner ++ [']']) <:+: cs := by
  obtain ⟨q, _, whole, _⟩ := generic?_written written
  exact ⟨q ++ head, [], by simp [whole]⟩

theorem ne_nil_of_generic? : inner ≠ [] :=
  (of_bracketed? (bracketed?_of_generic? written).2).2

end Written

/-- Whether a type is a name before brackets, in which its arguments stand. -/
structure Generic (cs : List Char) (name : String) (inner : List Char) : Prop where
  single : withoutNone? (Text.trim cs) = none
  written : ∃ head, generic? (Text.trim cs) = some (head, inner) ∧ String.ofList head = name

/-- Whether a type is made around a part of it, from whose schema its own is made. -/
inductive Around : (Schema → Schema) → List Char → List Char → Prop
  | orNone {cs part : List Char} (written : withoutNone? (Text.trim cs) = some part) :
      Around .nullable cs part
  | optional {cs inner part : List Char} {others : List (List Char)} (generic : Generic cs "Optional" inner)
      (given : arguments inner = part :: others) : Around .nullable cs part
  | items {cs inner part : List Char} {others : List (List Char)} {name : String}
      (generic : Generic cs name inner) (listed : name ∈ arrays) (given : arguments inner = part :: others) :
      Around .array cs part
  | values {cs inner key part : List Char} {name : String} (generic : Generic cs name inner)
      (listed : name ∈ mappings) (given : arguments inner = [key, part]) : Around .mapping cs part

/-- Whether a type that needs an argument has only blanks between its brackets. -/
def Hollow (cs : List Char) : Prop :=
  ∃ name inner, Generic cs name inner ∧ (name = "Optional" ∨ name ∈ arrays) ∧
    ∀ c ∈ inner, Text.isBlank c = true

theorem arguments_eq_nil_iff : arguments inner = [] ↔ ∀ c ∈ inner, Text.isBlank c = true := by
  simp [arguments, argumentsFrom_eq_nil_iff]

theorem isInfix_of_mem_arguments (member : part ∈ arguments inner) : part <:+: inner :=
  isInfix_of_mem_argumentsFrom member

/-- How a type is read, without the proof that its parts are shorter. -/
theorem schemaOf_eq (cs : List Char) : schemaOf cs =
    if cs.isEmpty || Text.trim cs == "Any".toList || Text.trim cs == "object".toList then .ok .any
    else
      match withoutNone? (Text.trim cs) with
      | some inner => (schemaOf inner).map .nullable
      | none =>
        match generic? (Text.trim cs) with
        | none => .ok (plainSchema (String.ofList (Text.trim cs)))
        | some (head, inner) =>
          match arguments inner with
          | [] =>
            if String.ofList head == "Optional" || arrays.contains (String.ofList head) then .error .beyondEnd
            else .ok .record
          | first :: rest =>
            if String.ofList head == "Optional" then (schemaOf first).map .nullable
            else if arrays.contains (String.ofList head) then (schemaOf first).map .array
            else if mappings.contains (String.ofList head) then
              match rest with
              | [second] => (schemaOf second).map .mapping
              | _ => .ok .record
            else .ok .record := by
  rw [schemaOf]
  split
  · rfl
  split
  · rename_i inner orNone
    simp only [orNone]
  · rename_i orNone
    simp only [orNone]
    split
    · rename_i found
      simp only [found]
    · rename_i head inner found
      simp only [found]
      split
      · rename_i args
        simp only [args]
      · rename_i first rest args
        simp only [args]
        cases rest with
        | nil => rfl
        | cons second others => cases others <;> rfl

/-- Whether nothing is known of the values of a type. -/
def IsAny (cs : List Char) : Prop :=
  cs = [] ∨ Text.trim cs = "Any".toList ∨ Text.trim cs = "object".toList

theorem isAny_iff : (cs.isEmpty || Text.trim cs == "Any".toList || Text.trim cs == "object".toList) = true ↔
    IsAny cs := by
  simp only [IsAny, Bool.or_eq_true, List.isEmpty_iff, beq_iff_eq, or_assoc]

/-- A type of which nothing is known has neither brackets nor null at its end. -/
theorem IsAny.plain (known : IsAny cs) :
    withoutNone? (Text.trim cs) = none ∧ generic? (Text.trim cs) = none := by
  rcases known with rfl | any | object
  · decide +kernel
  · rw [any]
    decide +kernel
  · rw [object]
    decide +kernel

theorem Generic.not_isAny {name : String} (generic : Generic cs name inner) : ¬ IsAny cs := by
  intro any
  obtain ⟨head, written, _⟩ := generic.written
  cases any.plain.2.symm.trans written

/-- The schema of a type with arguments follows from its name and the schemas of these. -/
theorem schemaOf_generic {name : String} (generic : Generic cs name inner) : schemaOf cs =
    match arguments inner with
    | [] => if name = "Optional" ∨ name ∈ arrays then .error .beyondEnd else .ok .record
    | first :: rest =>
      if name = "Optional" then (schemaOf first).map .nullable
      else if name ∈ arrays then (schemaOf first).map .array
      else if name ∈ mappings then
        match rest with
        | [second] => (schemaOf second).map .mapping
        | _ => .ok .record
      else .ok .record := by
  obtain ⟨head, written, rfl⟩ := generic.written
  rw [schemaOf_eq, if_neg (mt isAny_iff.mp generic.not_isAny)]
  simp only [generic.single, written, beq_iff_eq, Bool.or_eq_true, List.contains_iff_mem]

/-- The schema of a type around another is that of the other, wrapped. -/
theorem schemaOf_of_around {wrap : Schema → Schema} (around : Around wrap cs part) :
    schemaOf cs = (schemaOf part).map wrap := by
  cases around with
  | orNone written =>
    have known : ¬ IsAny cs := fun any => by cases any.plain.1.symm.trans written
    rw [schemaOf_eq, if_neg (mt isAny_iff.mp known)]
    simp only [written]
  | optional generic given =>
    rw [schemaOf_generic generic]
    simp only [given, if_true]
  | @items _ _ _ _ name generic listed given =>
    have other : name ≠ "Optional" := by
      rintro rfl
      exact absurd listed (by decide)
    rw [schemaOf_generic generic]
    simp only [given, other, listed, if_false, if_true]
  | @values _ _ _ _ name generic listed given =>
    have other : name ≠ "Optional" ∧ name ∉ arrays := by
      constructor
      · rintro rfl
        exact absurd listed (by decide)
      · have apart : ∀ name ∈ mappings, name ∉ arrays := by decide
        exact apart name listed
    rw [schemaOf_generic generic]
    simp only [given, other, listed, if_false, if_true]

theorem schemaOf_of_hollow (hollow : Hollow cs) : schemaOf cs = .error .beyondEnd := by
  obtain ⟨name, inner, generic, needs, blank⟩ := hollow
  rw [schemaOf_generic generic]
  simp only [arguments_eq_nil_iff.mpr blank, needs, if_true]

/-- How a type can be read: by itself, or by a part of it, unless the part is missing. -/
inductive Reading (cs : List Char) : Except Fault Schema → Prop
  | any (known : IsAny cs) : Reading cs (.ok .any)
  | plain (known : ¬ IsAny cs) (single : withoutNone? (Text.trim cs) = none)
      (unwritten : generic? (Text.trim cs) = none) :
      Reading cs (.ok (plainSchema (String.ofList (Text.trim cs))))
  | record {name : String} {inner : List Char} (generic : Generic cs name inner)
      (free : name ≠ "Optional" ∧ name ∉ arrays) : Reading cs (.ok .record)
  | hollow (hollow : Hollow cs) : Reading cs (.error .beyondEnd)
  | around {wrap : Schema → Schema} {part : List Char} (around : Around wrap cs part) :
      Reading cs ((schemaOf part).map wrap)

/-- The schema of a type is what one of the readings of its text says. -/
theorem reading_schemaOf (cs : List Char) : Reading cs (schemaOf cs) := by
  by_cases known : IsAny cs
  · rw [schemaOf_eq, if_pos (isAny_iff.mpr known)]
    exact .any known
  cases single : withoutNone? (Text.trim cs) with
  | some part =>
    rw [schemaOf_of_around (.orNone single)]
    exact .around (.orNone single)
  | none =>
    cases written : generic? (Text.trim cs) with
    | none =>
      rw [schemaOf_eq, if_neg (mt isAny_iff.mp known)]
      simp only [single, written]
      exact .plain known single written
    | some pair =>
      obtain ⟨head, inner⟩ := pair
      have generic : Generic cs (String.ofList head) inner := ⟨single, head, written, rfl⟩
      generalize String.ofList head = name at generic
      rw [schemaOf_generic generic]
      cases given : arguments inner with
      | nil =>
        by_cases needs : name = "Optional" ∨ name ∈ arrays
        · simp only [needs, if_true]
          exact .hollow ⟨name, inner, generic, needs, arguments_eq_nil_iff.mp given⟩
        · simp only [needs, if_false]
          exact .record generic (not_or.mp needs)
      | cons first rest =>
        by_cases optional : name = "Optional"
        · subst optional
          simp only [if_true]
          exact .around (.optional generic given)
        by_cases items : name ∈ arrays
        · simp only [optional, items, if_false, if_true]
          exact .around (.items generic items given)
        have record := Reading.record generic ⟨optional, items⟩
        simp only [optional, items, if_false]
        split
        · rename_i values
          split
          · exact .around (.values generic values given)
          · exact record
        · exact record

/-- Whether a type is read by way of a part of it, however deep inside. -/
def Within : List Char → List Char → Prop :=
  Relation.ReflTransGen fun cs part => ∃ wrap, Around wrap cs part

/-- Whether a type is read by way of a part of it that is hollow. -/
def IsHollow (cs : List Char) : Prop :=
  ∃ part, Within cs part ∧ Hollow part

/-- A type is a part of the text of one around it. -/
theorem Around.isInfix {wrap : Schema → Schema} (around : Around wrap cs part) : part <:+: cs := by
  have argument : ∀ {name : String} {inner : List Char}, Generic cs name inner → part ∈ arguments inner →
      part <:+: cs := by
    intro name inner generic member
    obtain ⟨head, written, _⟩ := generic.written
    have inside : inner <:+: Text.trim cs := .trans ⟨['['], [']'], rfl⟩ (isInfix_of_generic? written)
    exact (isInfix_of_mem_arguments member).trans (inside.trans (Text.trim_isInfix cs))
  cases around with
  | orNone written =>
    have start := Text.dropSuffix?_eq_some_iff.mp written
    exact .trans ⟨[], _, start.symm⟩ (Text.trim_isInfix cs)
  | optional generic given => exact argument generic (by simp [given])
  | items generic _ given => exact argument generic (by simp [given])
  | values generic _ given => exact argument generic (by simp [given])

/-- A type is shorter than one around it. -/
theorem Around.length_lt {wrap : Schema → Schema} (around : Around wrap cs part) : part.length < cs.length := by
  have argument : ∀ {name : String} {inner : List Char}, Generic cs name inner → part ∈ arguments inner →
      part.length < cs.length := by
    intro name inner generic member
    obtain ⟨head, written, _⟩ := generic.written
    exact (length_le_of_mem_arguments member).trans_lt
      ((length_lt_of_generic? written).trans_le (Text.length_trim_le cs))
  cases around with
  | orNone written => exact (length_lt_of_withoutNone? written).trans_le (Text.length_trim_le cs)
  | optional generic given => exact argument generic (by simp [given])
  | items generic _ given => exact argument generic (by simp [given])
  | values generic _ given => exact argument generic (by simp [given])

theorem Within.isInfix (within : Within cs part) : part <:+: cs := by
  induction within with
  | refl => exact List.infix_refl _
  | tail _ around ih =>
    obtain ⟨wrap, around⟩ := around
    exact around.isInfix.trans ih

/-- Where a type cannot be read, there are brackets in it with nothing but blanks between them. -/
theorem IsHollow.exists_blanks (hollow : IsHollow cs) :
    ∃ blanks, blanks ≠ [] ∧ (∀ c ∈ blanks, Text.isBlank c = true) ∧ '[' :: (blanks ++ [']']) <:+: cs := by
  obtain ⟨part, within, hollow⟩ := hollow
  obtain ⟨name, inner, generic, _, blank⟩ := hollow
  obtain ⟨head, written, _⟩ := generic.written
  have here : '[' :: (inner ++ [']']) <:+: part :=
    (isInfix_of_generic? written).trans (Text.trim_isInfix part)
  exact ⟨inner, ne_nil_of_generic? written, blank, here.trans within.isInfix⟩

/-- A type can be read unless it is hollow, and what is said of one that is hollow is always the same. -/
theorem schemaOf_eq_error_iff {fault : Fault} :
    schemaOf cs = .error fault ↔ IsHollow cs ∧ fault = .beyondEnd := by
  constructor
  · intro fails
    induction length : cs.length using Nat.strong_induction_on generalizing cs with
    | _ n ih =>
      have reading := reading_schemaOf cs
      rw [fails] at reading
      generalize read : (Except.error fault : Except Fault Schema) = result at reading
      cases reading with
      | any | plain | record => cases read
      | hollow hollow =>
        cases read
        exact ⟨⟨cs, .refl, hollow⟩, rfl⟩
      | around around =>
        obtain ⟨⟨last, within, hollow⟩, same⟩ :=
          ih _ (length ▸ around.length_lt) (eq_error_of_map read.symm) rfl
        exact ⟨⟨last, .head ⟨_, around⟩ within, hollow⟩, same⟩
  · rintro ⟨⟨part, within, hollow⟩, rfl⟩
    induction within using Relation.ReflTransGen.head_induction_on with
    | refl => exact schemaOf_of_hollow hollow
    | head around _ ih =>
      obtain ⟨wrap, around⟩ := around
      rw [schemaOf_of_around around, ih]
      rfl

end TypeName

end Lineage
