import Lineage.Schema
import Lineage.Value

namespace Lineage

namespace Value

/-- The items of a value that is written as a list. -/
def items? : Value → Option (List Value)
  | .list items | .tuple items | .set items => some items
  | _ => none

/-- Whether a single value is written as one of a type of schemas. What has no type of its own there is written
as a text, and integers are numbers. -/
def isOf (type : String) : Value → Bool
  | .bool _ => type == "boolean"
  | .int _ => type == "integer" || type == "number"
  | .float _ => type == "number"
  | .text _ | .bytes _ | .date _ | .moment _ => type == "string"
  | _ => false

end Value

/-- Whether a value conforms to a schema, of which the types of values, of items and of additional fields are
read and whether null is allowed. -/
inductive Document.Accepts : Document → Value → Prop
  | null {entries : Entries String Document} (allowed : Entries.get? entries "nullable" = some (.flag true)) :
      Accepts (.map entries) .null
  | untyped {entries : Entries String Document} {v : Value} (free : Entries.get? entries "type" = none) :
      Accepts (.map entries) v
  | single {entries : Entries String Document} {v : Value} {type : String}
      (typed : Entries.get? entries "type" = some (.text type)) (written : v.isOf type = true) :
      Accepts (.map entries) v
  | array {entries : Entries String Document} {v : Value} {xs : List Value}
      (typed : Entries.get? entries "type" = some (.text "array")) (elements : v.items? = some xs)
      (each : ∀ items, Entries.get? entries "items" = some items → ∀ x ∈ xs, Accepts items x) :
      Accepts (.map entries) v
  | object {entries : Entries String Document} {fields : Entries Value Value}
      (typed : Entries.get? entries "type" = some (.text "object"))
      (each : ∀ values, Entries.get? entries "additionalProperties" = some values →
        ∀ field ∈ fields, Accepts values field.2) : Accepts (.map entries) (.map fields)

namespace Document

variable {entries entries' : Entries String Document} {v : Value}

/-- What is read of a schema decides what it accepts. -/
theorem Accepts.of_same (same : ∀ key ∈ ["type", "items", "additionalProperties"],
      Entries.get? entries' key = Entries.get? entries key)
    (allows : v = .null → Entries.get? entries "nullable" = some (.flag true) →
      Entries.get? entries' "nullable" = some (.flag true)) (accepts : (map entries).Accepts v) :
    (map entries').Accepts v := by
  generalize whole : map entries = d at accepts
  cases accepts with
  | null allowed =>
    cases whole
    exact .null (allows rfl allowed)
  | untyped free =>
    cases whole
    exact .untyped ((same _ (by simp)).trans free)
  | single typed written =>
    cases whole
    exact .single ((same _ (by simp)).trans typed) written
  | array typed elements each =>
    cases whole
    exact .array ((same _ (by simp)).trans typed) elements
      fun items given => each items ((same _ (by simp)).symm.trans given)
  | object typed each =>
    cases whole
    exact .object ((same _ (by simp)).trans typed)
      fun values given => each values ((same _ (by simp)).symm.trans given)

/-- What a schema with a type accepts if null is not allowed besides. -/
theorem accepts_iff_of_typed {type : String} (typed : Entries.get? entries "type" = some (.text type))
    (never : Entries.get? entries "nullable" = none) : (map entries).Accepts v ↔
      v.isOf type = true ∨
      (type = "array" ∧ ∃ xs, v.items? = some xs ∧
        ∀ items, Entries.get? entries "items" = some items → ∀ x ∈ xs, items.Accepts x) ∨
      (type = "object" ∧ ∃ fields, v = .map fields ∧
        ∀ values, Entries.get? entries "additionalProperties" = some values →
          ∀ field ∈ fields, values.Accepts field.2) := by
  constructor
  · intro accepts
    generalize whole : map entries = d at accepts
    cases accepts with
    | null allowed =>
      cases whole
      cases never.symm.trans allowed
    | untyped free =>
      cases whole
      cases typed.symm.trans free
    | single other written =>
      cases whole
      cases typed.symm.trans other
      exact .inl written
    | array other elements each =>
      cases whole
      have same := text.inj (Option.some.inj (typed.symm.trans other))
      exact .inr (.inl ⟨same, _, elements, each⟩)
    | object other each =>
      cases whole
      have same := text.inj (Option.some.inj (typed.symm.trans other))
      exact .inr (.inr ⟨same, _, rfl, each⟩)
  · rintro (written | ⟨rfl, xs, elements, each⟩ | ⟨rfl, fields, rfl, each⟩)
    · exact .single typed written
    · exact .array typed elements each
    · exact .object typed each

end Document

/-- The name of the type of single values in schemas. -/
def Scalar.typeName : Scalar → String
  | string | binary | moment | day => "string"
  | integer => "integer"
  | number => "number"
  | boolean => "boolean"

namespace Schema

/-- Whether a value conforms to a schema. -/
def accepts : Schema → Value → Bool
  | any, _ => true
  | scalar type, v => v.isOf type.typeName
  | array items, v => v.items?.any fun xs => xs.all items.accepts
  | mapping values, v =>
    match v with
    | .map fields => fields.all fun field => values.accepts field.2
    | _ => false
  | record, v =>
    match v with
    | .map _ => true
    | _ => false
  | nullable inner, v =>
    match v with
    | .null => true
    | v => inner.accepts v

variable {v : Value}

theorem accepts_array_iff {items : Schema} :
    (array items).accepts v = true ↔ ∃ xs, v.items? = some xs ∧ ∀ x ∈ xs, items.accepts x = true := by
  simp [accepts, Option.any_eq_true]

theorem accepts_mapping_iff {values : Schema} : (mapping values).accepts v = true ↔
    ∃ fields, v = .map fields ∧ ∀ field ∈ fields, values.accepts field.2 = true := by
  cases v <;> simp [accepts]

theorem accepts_record_iff : record.accepts v = true ↔ ∃ fields, v = .map fields := by
  cases v <;> simp [accepts]

theorem accepts_nullable_iff {inner : Schema} :
    (nullable inner).accepts v = true ↔ v = .null ∨ inner.accepts v = true := by
  cases v <;> simp [accepts]

theorem not_isOf_array : v.isOf "array" = false := by
  cases v <;> rfl

theorem not_isOf_object : v.isOf "object" = false := by
  cases v <;> rfl

/-- What is read of the document of a schema in which null is allowed besides. -/
theorem get?_entries_nullable (inner : Schema) :
    Entries.get? (nullable inner).entries "nullable" = some (.flag true) ∧
      ∀ key ≠ "nullable", Entries.get? (nullable inner).entries key = Entries.get? inner.entries key :=
  ⟨Entries.get?_put_self .., fun _ other => Entries.get?_put_of_ne _ _ other⟩

/-- A schema accepts what its document does. -/
theorem document_accepts_iff {s : Schema} : s.document.Accepts v ↔ s.accepts v = true := by
  unfold document
  induction s generalizing v with
  | any => exact iff_of_true (.untyped rfl) rfl
  | scalar k =>
    have typed : Entries.get? k.entries "type" = some (.text k.typeName) := by cases k <;> rfl
    have never : Entries.get? k.entries "nullable" = none := by cases k <;> rfl
    have single : k.typeName ≠ "array" ∧ k.typeName ≠ "object" := by cases k <;> decide
    rw [entries, Document.accepts_iff_of_typed typed never]
    simp only [single.1, single.2, false_and, or_false]
    rfl
  | array items ih =>
    rw [Document.accepts_iff_of_typed rfl rfl, accepts_array_iff]
    simp [not_isOf_array, entries, Entries.get?, ih]
  | mapping values ih =>
    rw [Document.accepts_iff_of_typed rfl rfl, accepts_mapping_iff]
    simp [not_isOf_object, entries, Entries.get?, ih]
  | record =>
    rw [Document.accepts_iff_of_typed rfl rfl, accepts_record_iff]
    simp [not_isOf_object, entries, Entries.get?, preserving]
  | nullable inner ih =>
    obtain ⟨allowed, others⟩ := get?_entries_nullable inner
    have same : ∀ key ∈ ["type", "items", "additionalProperties"], Entries.get? (nullable inner).entries key =
        Entries.get? inner.entries key := fun key member => others key (by rintro rfl; simp at member)
    rw [accepts_nullable_iff, ← ih]
    constructor
    · intro accepts
      by_cases null : v = .null
      · exact .inl null
      · exact .inr (accepts.of_same (fun key member => (same key member).symm) fun is => absurd is null)
    · rintro (rfl | accepts)
      · exact .null allowed
      · exact accepts.of_same same fun _ _ => allowed

/-- Whether a schema is that of single values of a type, or made of it by lists and by allowing null. -/
inductive Wraps (type : Scalar) : Schema → Prop
  | scalar : Wraps type (scalar type)
  | array {items : Schema} (inside : Wraps type items) : Wraps type (array items)
  | nullable {inner : Schema} (inside : Wraps type inner) : Wraps type (nullable inner)

/-- Whether a schema is that of single values of a type, or of these and null. -/
def isSingle : Schema → Bool
  | scalar _ => true
  | nullable inner => inner.isSingle
  | _ => false

section Wraps

variable {s : Schema} {type : Scalar} (wraps : s.Wraps type)
include wraps

theorem Wraps.accepts (single : s.isSingle = true) (written : v.isOf type.typeName = true) :
    s.accepts v = true := by
  induction wraps with
  | scalar => exact written
  | array => cases single
  | nullable inside ih => exact accepts_nullable_iff.mpr (.inr (ih single))

/-- What such a schema accepts besides null is a single value of the type or a list. -/
theorem Wraps.of_accepts (there : v ≠ .null) (accepted : s.accepts v = true) :
    v.isOf type.typeName = true ∨ ∃ xs, v.items? = some xs := by
  induction wraps with
  | scalar => exact .inl accepted
  | array =>
    obtain ⟨xs, items, _⟩ := accepts_array_iff.mp accepted
    exact .inr ⟨xs, items⟩
  | nullable inside ih => exact ih ((accepts_nullable_iff.mp accepted).resolve_left there)

end Wraps

end Schema

end Lineage
