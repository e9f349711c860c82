import Lineage.Proofs.TypeName.Arguments
import Lineage.Proofs.TypeName.Default

namespace Lineage

namespace TypeName

/-- Whether a text has no blanks, brackets and commas. -/
def Solid (cs : List Char) : Prop :=
  ∀ c ∈ cs, Text.isBlank c = false ∧ c ≠ '[' ∧ c ≠ ']' ∧ c ≠ ','

instance (cs : List Char) : Decidable (Solid cs) :=
  List.decidableBAll (fun c => Text.isBlank c = false ∧ c ≠ '[' ∧ c ≠ ']' ∧ c ≠ ',') cs

/-- The name of a type. Every identifier is one. -/
structure Name where
  chars : List Char
  filled : chars ≠ []
  solid : Solid chars

/-- The names of the types of single values and their schemas. -/
def scalarTable : List (String × List (String × Document)) :=
  [("str", [("type", .text "string")]),
   ("int", [("type", .text "integer")]),
   ("float", [("type", .text "number")]),
   ("bool", [("type", .text "boolean")]),
   ("bytes", [("type", .text "string"), ("format", .text "byte")]),
   ("datetime", [("type", .text "string"), ("format", .text "date-time")]),
   ("date", [("type", .text "string"), ("format", .text "date")])]

/-- The schema of a type that is a mere name. -/
def namedEntries (name : String) : List (String × Document) :=
  match scalarTable.lookup name with
  | some row => row
  | none =>
    if name ∈ ["Any", "object"] then [preserving]
    else if name ∈ ["list", "List"] then [("type", .text "array"), ("items", .map [preserving])]
    else [("type", .text "object"), preserving]

/-- A generic type: its name, with or without the module before it, and its arguments in brackets. -/
def applied (qualifier head : List Char) (parts : List (List Char)) : List Char :=
  qualifier ++ (head ++ '[' :: (joined parts ++ [']']))

/-- The types that are made up of names and of other types. Lists and sets have one argument or more, of which
the others do not matter. -/
inductive Expression where
  | named (name : Name)
  | optional (qualifier : {q // q ∈ qualifiers}) (inner : Expression)
  | array (qualifier : {q // q ∈ qualifiers}) (head : {name // name ∈ arrays}) (items : Expression)
    (others : List Expression)
  | mapping (qualifier : {q // q ∈ qualifiers}) (head : {name // name ∈ mappings})
    (keys values : Expression)
  | orNone (inner : Expression)

namespace Expression

/-- How a type is written. -/
def chars : Expression → List Char
  | named name => name.chars
  | optional q inner => applied q.1 "Optional".toList [inner.chars]
  | array q head items others => applied q.1 head.1.toList (items.chars :: allChars others)
  | mapping q head keys values => applied q.1 head.1.toList [keys.chars, values.chars]
  | orNone inner => inner.chars ++ " | None".toList
where
  /-- How types are written. -/
  allChars : List Expression → List (List Char)
    | [] => []
    | e :: rest => e.chars :: allChars rest

/-- The schema of a type. -/
def entries : Expression → List (String × Document)
  | named name => namedEntries (String.ofList name.chars)
  | optional _ inner | orNone inner => Entries.put inner.entries "nullable" (.flag true)
  | array _ _ items _ => [("type", .text "array"), ("items", .map items.entries)]
  | mapping _ _ _ values => [("type", .text "object"), ("additionalProperties", .map values.entries)]

end Expression

/-- Whether a text is an argument on one line. -/
structure SingleLine (cs : List Char) : Prop extends Argument cs where
  line : '\n' ∉ cs

section Solid

variable {cs : List Char} (solid : Solid cs)
include solid

theorem Solid.not_mem_of_blank {c : Char} (blank : Text.isBlank c = true) : c ∉ cs := fun member => by
  cases blank.symm.trans (solid c member).1

theorem Solid.singleLine (filled : cs ≠ []) : SingleLine cs where
  filled := filled
  trimmed := Text.trim_of_solid fun c member => (solid c member).1
  closed := depthAfter?_of_free 0 fun c member => (solid c member).2
  line := solid.not_mem_of_blank (by decide)

theorem Solid.withoutNone? : withoutNone? cs = none := by
  rw [Option.eq_none_iff_forall_not_mem]
  intro inner written
  have blank : ' ' ∈ cs := by simp [Text.dropSuffix?_eq_some_iff.mp written]
  exact solid.not_mem_of_blank (by decide) blank

theorem Solid.generic? : generic? cs = none := by
  rw [Option.eq_none_iff_forall_not_mem]
  rintro ⟨head, inner⟩ written
  have bracket : '[' ∈ cs := (isInfix_of_generic? written).mem (List.mem_cons_self ..)
  exact (solid _ bracket).2.1 rfl

end Solid

theorem withoutNone?_of_getLast? {cs : List Char} (last : cs.getLast? = some ']') : withoutNone? cs = none := by
  rw [Option.eq_none_iff_forall_not_mem]
  intro inner written
  rw [Text.dropSuffix?_eq_some_iff.mp written, List.getLast?_append_of_ne_nil _ (by simp)] at last
  cases last

theorem getLast?_applied (q head : List Char) (parts : List (List Char)) :
    (applied q head parts).getLast? = some ']' := by
  rw [applied, ← List.cons_append, ← List.append_assoc, ← List.append_assoc, List.getLast?_concat]

theorem withoutNone?_orNone (cs : List Char) : withoutNone? (cs ++ " | None".toList) = some (cs ++ [' ']) := by
  rw [withoutNone?, Text.dropSuffix?_eq_some_iff, List.append_assoc]
  rfl

section Applied

/-- The names of the generic types that are known. -/
def heads : List String :=
  "Optional" :: arrays ++ mappings

theorem mem_heads_of_array {name : String} (listed : name ∈ arrays) : name ∈ heads :=
  List.mem_cons_of_mem _ (List.mem_append_left _ listed)

theorem mem_heads_of_mapping {name : String} (listed : name ∈ mappings) : name ∈ heads :=
  List.mem_cons_of_mem _ (List.mem_append_right _ listed)

/-- The name of a generic type is a word and, with or without the module before it, has no brackets. -/
theorem heads_solid {q : List Char} {name : String} (among : q ∈ qualifiers) (known : name ∈ heads) :
    name.toList ≠ [] ∧ (∀ c ∈ name.toList, Text.isWord c = true) ∧ Solid (q ++ name.toList) := by
  have all : ∀ q ∈ qualifiers, ∀ name ∈ heads,
      name.toList ≠ [] ∧ name.toList.all Text.isWord = true ∧ Solid (q ++ name.toList) := by
    decide
  obtain ⟨filled, word, solid⟩ := all q among name known
  exact ⟨filled, List.all_eq_true.mp word, solid⟩

/-- A name in front of brackets that has no dot is not qualified. -/
theorem unqualified_of_word {head rest : List Char} (word : ∀ c ∈ head, Text.isWord c = true) :
    unqualified (head ++ '[' :: rest) = head ++ '[' :: rest := by
  unfold unqualified
  cases cut : Text.dropPrefix? ['t', 'y', 'p', 'i', 'n', 'g', '.'] (head ++ '[' :: rest) with
  | none => rfl
  | some after =>
    have dot : '.' ∉ head := fun member => absurd (word _ member) (by decide)
    rcases List.append_eq_append_iff.mp (Text.dropPrefix?_eq_some_iff.mp cut) with
      ⟨more, whole, opens⟩ | ⟨more, rfl, _⟩
    · cases more with
      | nil =>
        rw [List.append_nil] at whole
        exact absurd (whole ▸ by simp) dot
      | cons c more =>
        have bracket : c = '[' := (List.cons.inj opens).1.symm
        have inside : '[' ∈ ['t', 'y', 'p', 'i', 'n', 'g', '.'] := by simp [whole, bracket]
        exact absurd inside (by decide)
    · exact absurd (by simp) dot

theorem unqualified_applied {q head rest : List Char} (among : q ∈ qualifiers)
    (word : ∀ c ∈ head, Text.isWord c = true) : unqualified (q ++ (head ++ '[' :: rest)) = head ++ '[' :: rest := by
  simp only [qualifiers, List.mem_cons, List.not_mem_nil, or_false] at among
  rcases among with rfl | rfl
  · exact unqualified_of_word word
  · rfl

variable {q : List Char} {name : String} {part : List Char} {parts : List (List Char)}
  (among : q ∈ qualifiers) (known : name ∈ heads) (each : ∀ p ∈ part :: parts, SingleLine p)
include among known each

/-- A type that is applied to others on a single line is on a single line. -/
theorem singleLine_applied : SingleLine (applied q name.toList (part :: parts)) := by
  obtain ⟨filled, _, solid⟩ := heads_solid among known
  have start := solid.singleLine fun empty => filled (List.append_eq_nil_iff.mp empty).2
  have inside := depthAfter?_joined (fun p member => (each p member).toArgument) 0
  have whole : applied q name.toList (part :: parts) =
      (q ++ name.toList) ++ '[' :: (joined (part :: parts) ++ [']']) := by
    rw [applied, List.append_assoc]
  rw [whole]
  refine ⟨⟨by simp, Text.trim_eq_self_iff.mpr ⟨fun c first => ?_, fun c last => ?_⟩, ?_⟩, ?_⟩
  · rw [List.head?_append_of_ne_nil _ start.filled] at first
    exact (Text.trim_eq_self_iff.mp start.trimmed).1 c first
  · rw [← List.cons_append, ← List.append_assoc, List.getLast?_concat] at last
    rw [← Option.some.inj last]
    decide
  · rw [depthAfter?_append, start.closed, Option.bind_some, depthAfter?, if_pos rfl, depthAfter?_append, inside]
    rfl
  · have free : '\n' ∉ joined (part :: parts) := not_mem_joined (by decide) fun p member => (each p member).line
    rw [List.mem_append, not_or]
    exact ⟨start.line, by simp [free]⟩

/-- A type that is applied to others is read as applied to them. -/
theorem generic_applied : Generic (applied q name.toList (part :: parts)) name (joined (part :: parts)) := by
  have single := singleLine_applied among known each
  obtain ⟨filled, word, _⟩ := heads_solid among known
  have content : joined (part :: parts) ≠ [] := joined_ne_nil (each part (List.mem_cons_self ..)).filled
  have free : '\n' ∉ joined (part :: parts) := not_mem_joined (by decide) fun p member => (each p member).line
  have inside : bracketed? ('[' :: (joined (part :: parts) ++ [']'])) = some (joined (part :: parts)) := by
    simp only [bracketed?, Text.dropSuffix?_eq_some_iff.mpr rfl]
    simp [content, free]
  have bracket : Text.isWord '[' = false := by decide
  refine ⟨?_, name.toList, ?_, String.ofList_toList⟩
  · rw [single.trimmed]
    exact withoutNone?_of_getLast? (getLast?_applied ..)
  · rw [single.trimmed]
    simp only [generic?, applied, unqualified_applied among word]
    rw [List.takeWhile_append_of_pos word, List.dropWhile_append_of_pos word]
    simp [bracket, filled, inside]

end Applied

/-- A type on a single line that allows null is on a single line. -/
theorem singleLine_orNone {cs : List Char} (inner : SingleLine cs) : SingleLine (cs ++ " | None".toList) where
  filled := by simp
  trimmed := by
    refine Text.trim_eq_self_iff.mpr ⟨fun c first => ?_, fun c last => ?_⟩
    · rw [List.head?_append_of_ne_nil _ inner.filled] at first
      exact (Text.trim_eq_self_iff.mp inner.trimmed).1 c first
    · rw [List.getLast?_append_of_ne_nil _ (by decide)] at last
      rw [← Option.some.inj last]
      decide
  closed := by
    rw [depthAfter?_append, inner.closed]
    decide
  line := by
    rw [List.mem_append, not_or]
    exact ⟨inner.line, by decide⟩

mutual

theorem Expression.singleLine_chars : (e : Expression) → SingleLine e.chars
  | .named name => name.solid.singleLine name.filled
  | .optional q inner =>
    singleLine_applied q.2 (List.mem_cons_self ..) (List.forall_mem_singleton.mpr inner.singleLine_chars)
  | .array q head items others =>
    singleLine_applied q.2 (mem_heads_of_array head.2)
      (List.forall_mem_cons.mpr ⟨items.singleLine_chars, singleLine_allChars others⟩)
  | .mapping q head keys values =>
    singleLine_applied q.2 (mem_heads_of_mapping head.2)
      (List.forall_mem_cons.mpr ⟨keys.singleLine_chars, List.forall_mem_singleton.mpr values.singleLine_chars⟩)
  | .orNone inner => singleLine_orNone inner.singleLine_chars

theorem Expression.singleLine_allChars : (es : List Expression) → ∀ cs ∈ Expression.chars.allChars es, SingleLine cs
  | [] => nofun
  | e :: rest => List.forall_mem_cons.mpr ⟨e.singleLine_chars, singleLine_allChars rest⟩

end

/-- Blanks around a text make no difference. -/
theorem schemaOf_of_trim {cs ds : List Char} (left : cs ≠ []) (right : ds ≠ [])
    (same : Text.trim cs = Text.trim ds) : schemaOf cs = schemaOf ds := by
  rw [schemaOf_eq cs, schemaOf_eq ds, same]
  simp only [List.isEmpty_eq_false_iff.mpr left, List.isEmpty_eq_false_iff.mpr right]

theorem entries_plainSchema {name : String} (known : name ∉ ["Any", "object"]) :
    (plainSchema name).entries = namedEntries name := by
  by_cases listed : name ∈ plainNames
  · have all : ∀ name ∈ plainNames, (plainSchema name).entries = namedEntries name := by
      simp only [plainNames, List.forall_mem_cons]
      exact ⟨rfl, rfl, rfl, rfl, rfl, rfl, rfl, rfl, rfl, List.forall_mem_nil _⟩
    exact all name listed
  · rw [plainSchema_of_not_listed listed]
    simp only [plainNames, List.mem_cons, List.not_mem_nil, or_false, not_or] at listed known
    simp [namedEntries, scalarTable, List.lookup_cons, beq_eq_false_iff_ne.mpr, listed, known, Schema.entries]

/-- A name is read by the table. -/
theorem schemaOf_name (name : Name) :
    ∃ s, schemaOf name.chars = .ok s ∧ s.entries = namedEntries (String.ofList name.chars) := by
  have single := name.solid.singleLine name.filled
  have spelled (word : String) : name.chars = word.toList ↔ String.ofList name.chars = word :=
    ⟨fun same => by rw [same, String.ofList_toList], fun same => by rw [← same, String.toList_ofList]⟩
  rw [schemaOf_eq, single.trimmed, name.solid.withoutNone?, name.solid.generic?]
  simp only [List.isEmpty_eq_false_iff.mpr name.filled, Bool.false_or, Bool.or_eq_true, beq_iff_eq, spelled]
  by_cases any : String.ofList name.chars = "Any" ∨ String.ofList name.chars = "object"
  · refine ⟨.any, if_pos any, ?_⟩
    rcases any with any | any <;> rw [any] <;> rfl
  · exact ⟨_, if_neg any, entries_plainSchema (by simpa using any)⟩

/-- A type is read as the schema that is made by its parts. -/
theorem schemaOf_chars : (e : Expression) → ∃ s, schemaOf e.chars = .ok s ∧ s.entries = e.entries
  | .named name => schemaOf_name name
  | .optional q inner => by
    obtain ⟨s, read, same⟩ := schemaOf_chars inner
    have each := List.forall_mem_singleton.mpr inner.singleLine_chars
    have generic := generic_applied q.2 (List.mem_cons_self ..) each
    have given := arguments_joined fun p member => (each p member).toArgument
    refine ⟨.nullable s, ?_, ?_⟩
    · rw [Expression.chars, schemaOf_of_around (.optional generic given), read]
      rfl
    · rw [Schema.entries, same, Expression.entries]
  | .array q head items others => by
    obtain ⟨s, read, same⟩ := schemaOf_chars items
    have each := List.forall_mem_cons.mpr ⟨items.singleLine_chars, Expression.singleLine_allChars others⟩
    have generic := generic_applied q.2 (mem_heads_of_array head.2) each
    have given := arguments_joined fun p member => (each p member).toArgument
    refine ⟨.array s, ?_, ?_⟩
    · rw [Expression.chars, schemaOf_of_around (.items generic head.2 given), read]
      rfl
    · rw [Schema.entries, same, Expression.entries]
  | .mapping q head keys values => by
    obtain ⟨s, read, same⟩ := schemaOf_chars values
    have each := List.forall_mem_cons.mpr
      ⟨keys.singleLine_chars, List.forall_mem_singleton.mpr values.singleLine_chars⟩
    have generic := generic_applied q.2 (mem_heads_of_mapping head.2) each
    have given := arguments_joined fun p member => (each p member).toArgument
    refine ⟨.mapping s, ?_, ?_⟩
    · rw [Expression.chars, schemaOf_of_around (.values generic head.2 given), read]
      rfl
    · rw [Schema.entries, same, Expression.entries]
  | .orNone inner => by
    obtain ⟨s, read, same⟩ := schemaOf_chars inner
    have single := inner.singleLine_chars
    have written : withoutNone? (Text.trim (inner.chars ++ " | None".toList)) = some (inner.chars ++ [' ']) := by
      rw [(singleLine_orNone single).trimmed, withoutNone?_orNone]
    have stripped : Text.trim (inner.chars ++ [' ']) = Text.trim inner.chars := Text.trim_concat_of_blank (by decide)
    refine ⟨.nullable s, ?_, ?_⟩
    · rw [Expression.chars, schemaOf_of_around (.orNone written),
        schemaOf_of_trim (by simp) single.filled stripped, read]
      rfl
    · rw [Schema.entries, same, Expression.entries]

/-- The schema of a type is made up like the type: names are read by the table, what may be null is marked as
such, and lists and mappings hold the schema of their first and of their second argument. -/
theorem schema_follows_expression (e : Expression) :
    (schema (some (String.ofList e.chars))).map Schema.document = .ok (.map e.entries) := by
  obtain ⟨s, read, same⟩ := schemaOf_chars e
  rw [schema, Option.getD_some, String.toList_ofList, read, ← same]
  rfl

example :
    let int : Expression := .named ⟨"int".toList, by decide, by decide⟩
    let lists := Expression.array ⟨[], by decide⟩ ⟨"List", by decide⟩ (.orNone int) []
    let table := Expression.mapping ⟨"typing.".toList, by decide⟩ ⟨"Dict", by decide⟩ int lists
    String.ofList table.chars = "typing.Dict[int, List[int | None]]" := by decide

end TypeName

end Lineage
