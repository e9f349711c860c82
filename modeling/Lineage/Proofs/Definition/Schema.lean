import Lineage.Definition.Schema
import Lineage.Proofs.Entries
import Lineage.Proofs.Schema
import Lineage.Proofs.TypeName.Reading

namespace Lineage

variable {ε α β : Type} {e : ε} {P : Prop}

/-- Whether an operation fails exactly under a condition, and always with the same error. -/
def FailsWith (e : ε) (P : Prop) (result : Except ε α) : Prop :=
  ∀ cause, result = .error cause ↔ P ∧ cause = e

namespace FailsWith

theorem exists_ok_iff {result : Except ε α} (fails : FailsWith e P result) : (∃ a, result = .ok a) ↔ ¬ P := by
  rw [Lineage.exists_ok_iff]
  simp only [fails _, exists_and_left, exists_eq, and_true]

theorem bind {result : Except ε α} (fails : FailsWith e P result) {next : α → Except ε β}
    (total : ∀ a, ∃ b, next a = .ok b) : FailsWith e P (result >>= next) := by
  intro cause
  rw [bind_eq_error_iff, ← fails cause, or_iff_left]
  rintro ⟨a, _, later⟩
  obtain ⟨b, run⟩ := total a
  cases run.symm.trans later

/-- A traversal fails in one way if each of its steps does, exactly if one of its elements makes it. -/
theorem mapM {f : α → Except ε β} {Q : α → Prop} (xs : List α) (each : ∀ x ∈ xs, FailsWith e (Q x) (f x)) :
    FailsWith e (∃ x ∈ xs, Q x) (xs.mapM f) := by
  have first : ∀ x ∈ xs, (∃ cause, f x = .error cause) ↔ Q x := by
    intro x member
    simp only [each x member _, exists_and_left, exists_eq, and_true]
  intro cause
  rw [mapM_eq_error_iff, ← exists_isFirst]
  simp only [isFirst_congr first]
  constructor
  · rintro ⟨x, least, fails⟩
    exact ⟨⟨x, least⟩, ((each x least.mem _).mp fails).2⟩
  · rintro ⟨⟨x, least⟩, rfl⟩
    exact ⟨x, least, (each x least.mem _).mpr ⟨least.1, rfl⟩⟩

theorem lift {fault : Fault} {result : Except Fault α} (fails : FailsWith fault P result) :
    FailsWith (Failure.fault fault) P (liftM result : Except Failure α) := by
  intro cause
  cases result with
  | ok a =>
    have never := fails.exists_ok_iff.mp ⟨a, rfl⟩
    exact iff_of_false nofun fun ⟨holds, _⟩ => never holds
  | error first =>
    obtain ⟨holds, rfl⟩ := (fails first).mp rfl
    rw [and_iff_right holds]
    exact ⟨fun same => (Except.error.inj same).symm, fun same => same ▸ rfl⟩

end FailsWith

/-- Whether the type of a member cannot be read, because it is hollow. -/
def Member.IsHollow (m : Member) : Prop :=
  TypeName.IsHollow (m.type.getD "").toList

/-- Whether the type of some member of a definition cannot be read. -/
def Definition.IsHollow (d : Definition) : Prop :=
  ∃ m ∈ d.members, m.IsHollow

namespace Member

variable (m : Member)

theorem schema_type_fails : FailsWith .beyondEnd m.IsHollow (TypeName.schema m.type) :=
  fun _ => TypeName.schemaOf_eq_error_iff

theorem schema_fails : FailsWith .beyondEnd m.IsHollow m.schema :=
  (schema_type_fails m).bind fun _ => ⟨_, rfl⟩

theorem document_fails : FailsWith .beyondEnd m.IsHollow m.document :=
  (schema_fails m).bind fun _ => ⟨_, rfl⟩

theorem exists_document {m : Member} {s : Schema} (read : m.schema = .ok s) : ∃ d, m.document = .ok d := by
  rw [document, read]
  exact ⟨_, rfl⟩

/-- What else is known of a member does not matter for the values that its schema accepts. -/
theorem document_accepts_iff {m : Member} {s : Schema} {d : Document} (read : m.schema = .ok s)
    (written : m.document = .ok d) {v : Value} : d.Accepts v ↔ s.accepts v = true := by
  have noted : ∃ known : Entries String Document, d = .map (s.entries ++ known) ∧
      ∀ key ∈ ["type", "items", "additionalProperties", "nullable"], Entries.get? known key = none := by
    simp only [document, read, bind, Except.bind] at written
    cases written
    refine ⟨_, congrArg Document.map (List.append_assoc ..), fun key among => ?_⟩
    have other : key ≠ "description" ∧ key ≠ "deprecated" := by
      simp only [List.mem_cons, List.not_mem_nil, or_false] at among
      rcases among with rfl | rfl | rfl | rfl <;> decide
    rw [Entries.get?_append, Option.or_eq_none_iff]
    constructor
    · cases m.doc.filter fun doc => !doc.isEmpty <;> simp [Entries.get?, other.1.symm]
    · cases m.deprecated <;> simp [Entries.get?, other.2.symm]
  obtain ⟨known, rfl, free⟩ := noted
  have same : ∀ key ∈ ["type", "items", "additionalProperties", "nullable"],
      Entries.get? (s.entries ++ known) key = Entries.get? s.entries key := by
    intro key among
    rw [Entries.get?_append, free key among, Option.or_none]
  have types : ∀ key ∈ ["type", "items", "additionalProperties"],
      key ∈ ["type", "items", "additionalProperties", "nullable"] :=
    fun _ among => List.mem_append_left ["nullable"] among
  rw [← Schema.document_accepts_iff]
  constructor
  · exact Document.Accepts.of_same (fun key among => (same key (types key among)).symm)
      fun _ allowed => (same _ (by simp)).symm.trans allowed
  · exact Document.Accepts.of_same (fun key among => same key (types key among))
      fun _ allowed => (same _ (by simp)).trans allowed

theorem not_isHollow_of_unit {m : Member} (unit : m.type = none) : ¬ m.IsHollow := by
  rw [IsHollow, unit]
  intro hollow
  obtain ⟨_, _, _, bracket⟩ := hollow.exists_blanks
  have inside := bracket.sublist.length_le
  simp at inside

end Member

namespace Definition

variable (d : Definition)

theorem structDocument_fails : FailsWith .beyondEnd d.IsHollow d.structDocument :=
  (FailsWith.mapM d.members fun m _ => (m.document_fails).bind fun _ => ⟨_, rfl⟩).bind fun _ => ⟨_, rfl⟩

theorem variantDocument_fails (m : Member) : FailsWith .beyondEnd m.IsHollow (variantDocument m) :=
  m.schema_type_fails.bind fun _ => ⟨_, rfl⟩

/-- The schema of an enum is not written exactly if the type of a variant is hollow. -/
theorem enumDocument_fails : FailsWith .beyondEnd d.IsHollow d.enumDocument := by
  -- Variants without a payload are not read, but there is nothing hollow in them either.
  have payloads : d.IsHollow ↔ ∃ m ∈ d.members.filter fun m => m.type.isSome, m.IsHollow := by
    constructor
    · rintro ⟨m, member, hollow⟩
      have carries : m.type ≠ none := fun unit => Member.not_isHollow_of_unit unit hollow
      exact ⟨m, List.mem_filter.mpr ⟨member, Option.isSome_iff_ne_none.mpr carries⟩, hollow⟩
    · rintro ⟨m, member, hollow⟩
      exact ⟨m, (List.mem_filter.mp member).1, hollow⟩
  have alternatives := FailsWith.mapM (d.members.filter fun m => m.type.isSome)
    fun m _ => variantDocument_fails m
  rw [← payloads] at alternatives
  unfold enumDocument
  split
  · rename_i none
    rw [none] at payloads
    exact fun _ => iff_of_false nofun fun ⟨hollow, _⟩ => by simpa using payloads.mp hollow
  · exact alternatives.bind fun _ => ⟨_, rfl⟩

theorem schemaDocument_fails : FailsWith .beyondEnd d.IsHollow d.schemaDocument := by
  unfold schemaDocument
  split
  · exact d.enumDocument_fails
  · exact d.structDocument_fails

theorem document_fails : FailsWith .beyondEnd d.IsHollow d.document :=
  d.schemaDocument_fails.bind fun _ => ⟨_, rfl⟩

end Definition

end Lineage
