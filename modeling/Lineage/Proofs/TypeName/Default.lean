import Lineage.Proofs.Schema
import Lineage.Proofs.TypeName.Reading
import Lineage.TypeName.Default

namespace Lineage.TypeName

variable {cs inner head : List Char} {name : String}

/-- The start of a type, before all brackets. -/
def heading (cs : List Char) : List Char :=
  cs.takeWhile (· != '[')

/-- The name before all brackets of a type in small letters, without the module before it. -/
def smallName (heading : List Char) : String :=
  String.ofList (erasing "typing.".toList 0 (Text.lower (String.ofList heading)).toList)

/-- The heading of a generic type is its name with or without the module. -/
theorem Generic.heading_eq (generic : Generic cs name inner) :
    ∃ q ∈ qualifiers, heading (Text.trim cs) = q ++ name.toList := by
  obtain ⟨head, found, rfl⟩ := generic.written
  obtain ⟨q, among, whole, word⟩ := generic?_written found
  refine ⟨q, among, ?_⟩
  have free : ∀ c ∈ q ++ head, (c != '[') = true := by
    intro c member
    rcases List.mem_append.mp member with inQ | inHead
    · have solid : qualifiers.all (fun q => q.all (· != '[')) = true := by decide
      exact List.all_eq_true.mp (List.all_eq_true.mp solid q among) c inQ
    · rw [bne_iff_ne]
      rintro rfl
      have bracket : Text.isWord '[' = false := by decide
      cases bracket.symm.trans (word _ inHead)
  rw [heading, whole, ← List.append_assoc, List.takeWhile_append_of_pos free, String.toList_ofList]
  simp

/-- The headings of types that say that null is a value, unless they do so at their end. -/
theorem heading_of_allowsNone (single : withoutNone? cs = none) (allows : allowsNone cs = true) :
    heading cs ∈ ["Optional".toList, "typing.Optional".toList, "Any".toList, "None".toList] := by
  have begins : ∀ start : List Char, start.all (· != '[') = true → (start ++ ['[']).isPrefixOf cs = true →
      heading cs = start := by
    intro start free starts
    obtain ⟨rest, rfl⟩ := List.isPrefixOf_iff_prefix.mp starts
    rw [heading, List.append_assoc, List.takeWhile_append_of_pos (List.all_eq_true.mp free)]
    simp
  simp only [allowsNone, single, Option.isSome_none, Bool.or_false, Bool.or_eq_true, beq_iff_eq] at allows
  rcases allows with ((optional | qualified) | any) | none
  · rw [begins "Optional".toList (by decide) optional]
    simp
  · rw [begins "typing.Optional".toList (by decide) qualified]
    simp
  · rw [any]
    decide
  · rw [none]
    decide

theorem defaultValue_eq (s : String) : defaultValue (some s) =
    if allowsNone (Text.trim s.toList) then .null else emptyValue (smallName (heading (Text.trim s.toList))) :=
  rfl

section Generic

variable {s : String} (generic : Generic s.toList name inner)
include generic

/-- The default of a generic type that is known is that of its name. -/
theorem defaultValue_of_generic (listed : name ∈ arrays ++ mappings) :
    ∃ q ∈ qualifiers, defaultValue (some s) = emptyValue (smallName (q ++ name.toList)) := by
  obtain ⟨q, among, begins⟩ := generic.heading_eq
  refine ⟨q, among, ?_⟩
  have other : ∀ name ∈ arrays ++ mappings, ∀ q ∈ qualifiers, q ++ name.toList ∉
      ["Optional".toList, "typing.Optional".toList, "Any".toList, "None".toList] := by decide
  have needed : allowsNone (Text.trim s.toList) ≠ true := fun allows =>
    other name listed q among (begins ▸ heading_of_allowsNone generic.single allows)
  rw [defaultValue_eq, if_neg needed, begins]

theorem items?_defaultValue (listed : name ∈ arrays) : (defaultValue (some s)).items? = some [] := by
  obtain ⟨q, among, made⟩ := defaultValue_of_generic generic (List.mem_append_left _ listed)
  have small : ∀ q ∈ qualifiers, ∀ name ∈ arrays, smallName (q ++ name.toList) ∈
      ["list", "sequence", "set", "tuple"] := by decide +kernel
  have own := small q among name listed
  rw [made]
  generalize smallName (q ++ name.toList) = n at own
  simp only [List.mem_cons, List.not_mem_nil, or_false] at own
  rcases own with rfl | rfl | rfl | rfl <;> rfl

theorem defaultValue_mapping (listed : name ∈ mappings) : defaultValue (some s) = .map [] := by
  obtain ⟨q, among, made⟩ := defaultValue_of_generic generic (List.mem_append_right _ listed)
  have small : ∀ q ∈ qualifiers, ∀ name ∈ mappings, smallName (q ++ name.toList) ∈ ["dict", "mapping"] := by
    decide +kernel
  have own := small q among name listed
  rw [made]
  generalize smallName (q ++ name.toList) = n at own
  simp only [List.mem_cons, List.not_mem_nil, or_false] at own
  rcases own with rfl | rfl <;> rfl

omit generic in
theorem defaultValue_optional (generic : Generic s.toList "Optional" inner) : defaultValue (some s) = .null := by
  obtain ⟨head, found, same⟩ := generic.written
  obtain ⟨q, among, whole, _⟩ := generic?_written found
  have head : head = "Optional".toList := by rw [← same, String.toList_ofList]
  have allows : allowsNone (Text.trim s.toList) = true := by
    rw [whole, head]
    simp only [qualifiers, List.mem_cons, List.not_mem_nil, or_false] at among
    rcases among with rfl | rfl <;> simp [allowsNone]
  rw [defaultValue_eq, if_pos allows]

end Generic

/-- The small names of the basic types whose values are no mappings. -/
def basicNames : List String :=
  ["list", "sequence", "str", "int", "float", "bool", "bytes", "set", "tuple"]

theorem emptyValue_cases (name : String) :
    name ∈ basicNames ∨ emptyValue name = .map [] ∨ emptyValue name = .null := by
  by_cases basic : name ∈ basicNames
  · exact .inl basic
  · simp only [basicNames, List.mem_cons, List.not_mem_nil, or_false, not_or] at basic
    simp only [emptyValue, beq_iff_eq, Bool.or_eq_true, basic, or_self, if_false]
    split
    · exact .inr (.inl rfl)
    · exact .inr (.inr rfl)

/-- Whether the default of a type is that of a basic type though its schema is that of a record, because names
are read in small letters for the default only, and with fewer rules for what may stand behind them. -/
def Misnamed (type : Option String) (s : Schema) : Prop :=
  s = .record ∧ ∃ name, type = some name ∧ smallName (heading (Text.trim name.toList)) ∈ basicNames

/-- Whether nothing is known of what values of a type are by default. -/
def NoDefault (s : Schema) : Prop :=
  s = .record ∨ s = .scalar .moment ∨ s = .scalar .day

/-- How the default of a type goes with its schema: it conforms, or nothing is known of it, or it is misnamed. -/
def Suits (type : Option String) (s : Schema) : Prop :=
  s.accepts (defaultValue type) = true ∨ NoDefault s ∧ defaultValue type = .null ∨ Misnamed type s

/-- Whatever a type defaults to suits a schema of records, if it is a map or null. -/
theorem suits_record (s : String) : Suits (some s) .record := by
  unfold Suits
  by_cases allows : allowsNone (Text.trim s.toList) = true
  · rw [defaultValue_eq, if_pos allows]
    exact .inr (.inl ⟨.inl rfl, rfl⟩)
  · rw [defaultValue_eq, if_neg allows]
    rcases emptyValue_cases (smallName (heading (Text.trim s.toList))) with basic | map | null
    · exact .inr (.inr ⟨rfl, s, rfl, basic⟩)
    · rw [map]
      exact .inl rfl
    · rw [null]
      exact .inr (.inl ⟨.inl rfl, rfl⟩)

/-- The names that stand for a type of values other than mappings by themselves. -/
def plainNames : List String :=
  ["str", "int", "float", "bool", "bytes", "list", "List", "datetime", "date"]

/-- The default of a type that is such a name. -/
theorem defaultValue_of_name {s : String} (trimmed : Text.trim s.toList = name.toList) (listed : name ∈ plainNames) :
    defaultValue (some s) = emptyValue (Text.lower name) := by
  have known : ∀ name ∈ plainNames, allowsNone name.toList = false ∧ smallName (heading name.toList) =
      Text.lower name := by decide +kernel
  obtain ⟨never, small⟩ := known name listed
  rw [defaultValue_eq, trimmed, never, small]
  rfl

theorem plainSchema_of_not_listed (unlisted : name ∉ plainNames) : plainSchema name = .record := by
  simp only [plainNames, List.mem_cons, List.not_mem_nil, or_false, not_or] at unlisted
  simp [plainSchema, scalar?, unlisted]

/-- What a type without arguments defaults to suits its schema. -/
theorem suits_plain (s : String) : Suits (some s) (plainSchema (String.ofList (Text.trim s.toList))) := by
  generalize named : String.ofList (Text.trim s.toList) = name
  have trimmed : Text.trim s.toList = name.toList := by rw [← named, String.toList_ofList]
  by_cases listed : name ∈ plainNames
  · unfold Suits
    rw [defaultValue_of_name trimmed listed]
    -- Days and moments alone have no default.
    have timeless : ∀ name ∈ plainNames, (plainSchema name).accepts (emptyValue (Text.lower name)) = true ∨
        name = "datetime" ∨ name = "date" := by decide +kernel
    rcases timeless name listed with accepts | rfl | rfl
    · exact .inl accepts
    · exact .inr (.inl ⟨.inr (.inl rfl), rfl⟩)
    · exact .inr (.inl ⟨.inr (.inr rfl), rfl⟩)
  · rw [plainSchema_of_not_listed listed]
    exact suits_record s

/-- The default of a type suits its schema. -/
theorem suits_schema {type : Option String} {s : Schema} (read : schema type = .ok s) : Suits type s := by
  cases type with
  | none =>
    have any : schema none = .ok .any := by
      rw [schema, schemaOf_eq]
      rfl
    cases any.symm.trans read
    exact .inl rfl
  | some name =>
    have reading := reading_schemaOf name.toList
    rw [show schemaOf name.toList = .ok s from read] at reading
    generalize same : (Except.ok s : Except Fault Schema) = result at reading
    cases reading with
    | any =>
      cases same
      exact .inl rfl
    | plain =>
      cases same
      exact suits_plain name
    | record =>
      cases same
      exact suits_record name
    | hollow => cases same
    | around around =>
      obtain ⟨inner, _, rfl⟩ := exists_of_map same.symm
      cases around with
      | orNone orNone =>
        have allows : allowsNone (Text.trim name.toList) = true := by simp [allowsNone, orNone]
        refine .inl ?_
        rw [defaultValue_eq, if_pos allows]
        rfl
      | optional generic =>
        refine .inl ?_
        rw [defaultValue_optional generic]
        rfl
      | items generic listed =>
        exact .inl (Schema.accepts_array_iff.mpr ⟨[], items?_defaultValue generic listed, nofun⟩)
      | values generic listed =>
        exact .inl (Schema.accepts_mapping_iff.mpr ⟨[], defaultValue_mapping generic listed, nofun⟩)

end Lineage.TypeName
