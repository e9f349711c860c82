import Lineage.Conversion.Tracker
import Lineage.Proofs.Value.Order

namespace Lineage

/-- Whether a tracker can be loaded from a list with an entry: the path of a map, if it has one, must
be able to be a key, and in all else the name of the path can be sought and is not found. -/
def Value.Recordable : Value → Prop
  | .map fields => ∀ path, member? fields "jsonPath" = some path → path.unhashable? = none
  | v => v.holds "jsonPath" = .ok false

/-- Whether a tracker can be loaded from recorded values: there are none, or they can be gone through
one after the other, and each of them can be recorded. -/
def Tracker.Loadable (v : Value) : Prop :=
  v.truthy = true → ∃ entries, v.elements? = some entries ∧ ∀ entry ∈ entries, entry.Recordable

namespace Value

theorem kind_of_holds_error {v : Value} {name : String} {cause : Fault}
    (fails : v.holds name = .error cause) : cause.family = .kind := by
  unfold holds at fails
  split at fails <;> cases fails <;> rfl

theorem item_text_error {v : Value} {name : String} (found : v.holds name = .ok true)
    (noMap : ∀ fields, v ≠ .map fields) :
    ∃ cause, v.item (.text name) = .error cause ∧ cause.family = .kind := by
  cases v with
  | map fields => exact absurd rfl (noMap fields)
  | null | bool | int | float | bytes | date | moment => cases found
  | text | list | tuple | set => exact ⟨_, rfl, rfl⟩

end Value

namespace Tracker

theorem load_map (t : Tracker) (fields : Entries Value Value) (rest : List Value) :
    t.load (.map fields :: rest) =
      match Value.member? fields "jsonPath" with
      | none => t.load rest
      | some path =>
        path.checkKey >>= fun _ => (t.record path ((Value.member? fields "value").getD .null)).load rest := by
  have key : (Value.text "jsonPath").checkKey = .ok () := rfl
  rw [load, Value.holds, Entries.has_eq_isSome_get?]
  simp only [Value.item, key, Value.get?, Value.member?, bind, Except.bind]
  cases Entries.get? fields (.text "jsonPath") <;> rfl

/-- One entry of a list is loaded, or else the loading fails there whatever comes after it. -/
theorem load_cons (t : Tracker) (entry : Value) :
    (entry.Recordable ∧ ∃ u : Tracker, ∀ rest, t.load (entry :: rest) = u.load rest) ∨
      (¬ entry.Recordable ∧ ∃ cause, cause.family = .kind ∧
        ∀ rest, t.load (entry :: rest) = .error cause) := by
  -- Only a map has the path as a field; in all else its name is sought among the elements.
  by_cases map : ∃ fields, entry = .map fields
  · obtain ⟨fields, rfl⟩ := map
    cases present : Value.member? fields "jsonPath" with
    | none =>
      refine Or.inl ⟨fun path own => ?_, t, fun rest => ?_⟩
      · cases present.symm.trans own
      · rw [load_map, present]
    | some path =>
      cases hashable : path.unhashable? with
      | none =>
        refine Or.inl ⟨fun other own => ?_,
          t.record path ((Value.member? fields "value").getD .null), fun rest => ?_⟩
        · cases present.symm.trans own
          exact hashable
        · simp only [load_map, present, Value.checkKey, hashable]
          rfl
      | some kind =>
        refine Or.inr ⟨fun fits => ?_, .unhashable kind, rfl, fun rest => ?_⟩
        · cases (fits path present).symm.trans hashable
        · simp only [load_map, present, Value.checkKey, hashable]
          rfl
  · have noMap : ∀ fields, entry ≠ .map fields := fun fields same => map ⟨fields, same⟩
    have fits : entry.Recordable ↔ entry.holds "jsonPath" = .ok false := by
      cases entry with
      | map fields => exact absurd rfl (noMap fields)
      | _ => exact Iff.rfl
    rw [fits]
    cases held : entry.holds "jsonPath" with
    | error cause =>
      refine Or.inr ⟨nofun, cause, Value.kind_of_holds_error held, fun rest => ?_⟩
      rw [load, held]
      rfl
    | ok found =>
      cases found with
      | false =>
        refine Or.inl ⟨rfl, t, fun rest => ?_⟩
        rw [load, held]
        rfl
      | true =>
        obtain ⟨cause, fails, kind⟩ := Value.item_text_error held noMap
        refine Or.inr ⟨nofun, cause, kind, fun rest => ?_⟩
        rw [load, held]
        simp only [bind, Except.bind, if_true, fails]

/-- A list is loaded exactly if each of its entries can be recorded, and else an argument is of the wrong
kind. -/
theorem load_ok_or_error (t : Tracker) (entries : List Value) :
    ((∀ entry ∈ entries, entry.Recordable) ∧ ∃ u, t.load entries = .ok u) ∨
      ((¬ ∀ entry ∈ entries, entry.Recordable) ∧
        ∃ cause, cause.family = .kind ∧ t.load entries = .error cause) := by
  induction entries generalizing t with
  | nil => exact Or.inl ⟨by simp, t, rfl⟩
  | cons entry rest ih =>
    rw [List.forall_mem_cons]
    rcases t.load_cons entry with ⟨fits, u, loaded⟩ | ⟨unfit, cause, kind, fails⟩
    · rw [loaded]
      rcases ih u with ⟨all, last⟩ | ⟨unfit, last⟩
      · exact Or.inl ⟨⟨fits, all⟩, last⟩
      · exact Or.inr ⟨fun both => unfit both.2, last⟩
    · exact Or.inr ⟨fun both => unfit both.1, cause, kind, fails rest⟩

/-- Recorded values are loaded exactly if they can be, and else an argument is of the wrong kind. -/
theorem ofValue_ok_or_error (v : Value) :
    (Loadable v ∧ ∃ t, ofValue v = .ok t) ∨
      (¬ Loadable v ∧ ∃ cause, cause.family = .kind ∧ ofValue v = .error cause) := by
  unfold Loadable ofValue
  cases truthy : v.truthy with
  | false => exact Or.inl ⟨nofun, empty, rfl⟩
  | true =>
    cases parts : v.elements? with
    | none =>
      have fails : v.elements = .error (.notIterable v.kindName) := by rw [Value.elements, parts]
      refine Or.inr ⟨fun fits => ?_, .notIterable v.kindName, rfl, ?_⟩
      · obtain ⟨entries, same, _⟩ := fits rfl
        cases same
      · rw [if_pos rfl, fails]
        rfl
    | some entries =>
      have parted : v.elements = .ok entries := by rw [Value.elements, parts]
      rw [if_pos rfl, parted]
      rcases empty.load_ok_or_error entries with ⟨all, t, loaded⟩ | ⟨unfit, cause, kind, fails⟩
      · exact Or.inl ⟨fun _ => ⟨entries, rfl, all⟩, t, loaded⟩
      · refine Or.inr ⟨fun fits => ?_, cause, kind, fails⟩
        obtain ⟨_, same, all⟩ := fits rfl
        cases same
        exact unfit all

theorem toValue_errsOnly (t : Tracker) : ErrsOnly (fun cause => cause.family = .kind) t.toValue :=
  .bind (sorted_errsOnly (fun a b => Value.less_errsOnly a.1 b.1) t.values) fun _ => .ok _

end Tracker

end Lineage
