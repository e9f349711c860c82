import Lineage.Proofs.Conversion.Hop
import Lineage.Proofs.Conversion.Restoring

namespace Lineage

theorem Item.interpolated_place (path : String) (item : Item) :
    s!"{path}.{item.name}" = path ++ ("." ++ item.name) := by
  rw [← String.append_assoc]
  rfl

/-- A recorded value can be taken out. -/
theorem Tracker.Frees.erase {t : Tracker} {place : String} {v : Value} (distinct : (t.values.map (·.1)).Nodup)
    (member : (Value.text place, v) ∈ t.values) : t.Frees [(.text place, v)] (t.erase (.text place)) := by
  refine ⟨distinct.sublist (List.eraseP_sublist.map _), fun e => ?_⟩
  rw [Tracker.erase, Entries.mem_erase_text distinct, List.mem_singleton]
  refine and_congr_right fun listed => not_congr ⟨fun key => ?_, fun same => by rw [same]⟩
  exact List.inj_on_of_nodup_map distinct listed member key

/-- Whether a tracker of one kind has recorded dropped values, and one of another kind is left when exactly
these are taken out. -/
def Tracker.Releases (dropped : Entries Value Value) (before after : Option Tracker → Prop) : Prop :=
  ∀ tracker, before tracker → ∃ t, tracker = some t ∧ (t.values.map (·.1)).Nodup ∧ dropped ⊆ t.values ∧
    ∀ u, t.Frees dropped u → after (some u)

theorem Tracker.Releases.still {before after : Option Tracker → Prop} (releases : Releases [] before after)
    (tracker : Option Tracker) (holds : before tracker) : after tracker := by
  obtain ⟨t, rfl, distinct, _, left⟩ := releases tracker holds
  exact left t (.nothing distinct)

namespace Conversion

variable {depths : Depths} {functions : Functions} {nesting : Nesting} {edge : Edge} {path : String}
  {fields : Entries Value Value} {before after : Option Tracker → Prop}

section Carried

variable {item : Item} {source target : String} {fromType toType : Option String}

/-- What the source does not have is not carried over. -/
theorem puts_carry_missing (missing : Value.member? fields source = none)
    (still : ∀ tracker, before tracker → after tracker) :
    Puts depths functions nesting edge path fields before after
      (some (FieldStep.carry item source target fromType toType)) none := by
  intro out p holds
  refine ⟨p, ?_, still _ holds⟩
  cases nested : item.nested with
  | false =>
    simp only [FieldStep.carry_flat nested, optionalStep, fieldStep, carry, missing]
    rfl
  | true =>
    simp only [FieldStep.carry_nested nested, optionalStep, fieldStep, carry, missing]
    rfl

/-- The step of a nested item puts what is made of its value. -/
theorem puts_carry_nested (nested : item.nested = true) {v w : Value}
    (held : Value.member? fields source = some v) (converts : ∀ p : Progress, before p.tracker → ∃ q,
      hintedValue depths functions nesting edge fromType toType item.hint v (path ++ ("." ++ item.name)) p =
        (.ok w, q) ∧ after q.tracker) :
    Puts depths functions nesting edge path fields before after
      (some (FieldStep.carry item source target fromType toType)) (some (.text target, w)) := by
  intro out p holds
  obtain ⟨q, run, left⟩ := converts p holds
  refine ⟨q, ?_, left⟩
  rw [← Item.interpolated_place] at run
  simp only [FieldStep.carry_nested nested, optionalStep, fieldStep, carry, held]
  rw [Run.bind_of_ok run]
  rfl

end Carried

/-- What becomes of the value of an item on the way down to the version before: what is made of it, what is
dropped inside of it, and what is dropped of itself. -/
inductive Lowers (lower raise : Value → (place : String) → Run Value) (item : Item) (old new : Status) :
    (value made : Option Value) → (inner own : Drops) → Prop
  | absent (before : old.member? = none) (after : new.member? = none) :
      Lowers lower raise item old new none none [] []
  | dropped {n : String × Option String} (before : old.member? = none) (after : new.member? = some n)
      (v : Value) : Lowers lower raise item old new (some v) none [] [("", v)]
  | missing {m n : String × Option String} (before : old.member? = some m) (after : new.member? = some n) :
      Lowers lower raise item old new none none [] []
  | copied {m n : String × Option String} (before : old.member? = some m) (after : new.member? = some n)
      (flat : item.nested = false) (v : Value) : Lowers lower raise item old new (some v) (some v) [] []
  | nested {m n : String × Option String} {v w : Value} {inner : Drops} (before : old.member? = some m)
      (after : new.member? = some n) (holds : item.nested = true) (restores : Restores lower raise v w inner) :
      Lowers lower raise item old new (some v) (some w) inner []

namespace Lowers

section Steps

variable {item : Item} {old new : Status} (follows : old.Follows new) (kept : new.altersType = false)
  (typed : ∀ m, old.member? = some m → m.2 = item.type) (typed' : ∀ n, new.member? = some n → n.2 = item.type)
include follows kept typed typed'

omit follows in
theorem downgrade?_eq {m n : String × Option String} (before : old.member? = some m)
    (after : new.member? = some n) :
    FieldStep.downgrade? item old new = some (.carry item n.1 m.1 item.type item.type) := by
  rw [FieldStep.downgrade?_kept kept before after, typed m before, typed' n after]

theorem upgrade?_eq {m n : String × Option String} (before : old.member? = some m)
    (after : new.member? = some n) :
    FieldStep.upgrade? item old new = some (.carry item m.1 n.1 item.type item.type) := by
  cases follows with
  | absent | added => cases before
  | carried source target present told _ =>
    cases present.symm.trans before
    rw [FieldStep.upgrade?_kept kept before after told, typed m before, typed' n after]

variable {value made : Option Value} {inner own : Drops}

/-- On the way down the step of an item puts what is made of its value, and what is dropped inside of it is
recorded. -/
theorem puts_down {raise : Value → (place : String) → Run Value}
    (lowers : Lowers (hintedValue depths functions nesting edge item.type item.type item.hint) raise item old new
      value made inner own)
    (held : ∀ n, new.member? = some n → Value.member? fields n.1 = value)
    (records : ∀ tracker, before tracker → ∃ t, tracker = some t ∧
      after (some ⟨Entries.putAll t.values (inner.under (path ++ ("." ++ item.name)))⟩)) :
    Puts depths functions nesting edge path fields before after (FieldStep.downgrade? item old new)
      (old.member?.bind fun m => made.map (.text m.1, ·)) := by
  have still : inner = [] → ∀ tracker, before tracker → after tracker := by
    rintro rfl tracker holds
    obtain ⟨t, rfl, left⟩ := records tracker holds
    exact left
  have nothing : old.member? = none → FieldStep.downgrade? item old new = none := by
    intro missing
    cases follows with
    | absent | added => rfl
    | carried source target present => cases present.symm.trans missing
  cases lowers with
  | absent missing | dropped missing =>
    rw [nothing missing, missing]
    exact puts_nothing (still rfl)
  | @missing m n present later =>
    rw [downgrade?_eq kept typed typed' present later, present]
    exact puts_carry_missing (held n later) (still rfl)
  | @copied m n present later flat v =>
    rw [downgrade?_eq kept typed typed' present later, present, FieldStep.carry_flat flat,
      Option.bind_some, ← held n later]
    exact puts_copy (still rfl) item.name n.1 m.1
  | @nested m n v w inner present later holds restores =>
    rw [downgrade?_eq kept typed typed' present later, present]
    refine puts_carry_nested holds (held n later) fun p fits => ?_
    obtain ⟨t, tracked, left⟩ := records _ fits
    obtain ⟨q, run, recorded⟩ := restores.down (path ++ ("." ++ item.name)) p t tracked
    exact ⟨q, run, recorded ▸ left⟩

/-- On the way up the step of an item puts its value again, and what was dropped is taken out of the
tracker. -/
theorem puts_up {lower : Value → (place : String) → Run Value}
    (lowers : Lowers lower (hintedValue depths functions nesting edge item.type item.type item.hint) item old new
      value made inner own)
    (alike : ∀ m, old.member? = some m → Option.Rel Value.Alike (Value.member? fields m.1) made) :
    ∃ back, Option.Rel Value.Alike back value ∧ ∀ (path : String) (before after : Option Tracker → Prop),
      Tracker.Releases ((inner ++ own).under (path ++ ("." ++ item.name))) before after →
      Puts depths functions nesting edge path fields before after (FieldStep.upgrade? item old new)
        (new.member?.bind fun n => back.map (.text n.1, ·)) := by
  cases lowers with
  | absent missing later =>
    refine ⟨none, .none, fun path before after releases => ?_⟩
    have none : FieldStep.upgrade? item old new = Option.none := by
      cases follows with
      | absent => rfl
      | added => cases later
      | carried source target present => cases present.symm.trans missing
    rw [none, later]
    exact puts_nothing (Tracker.Releases.still releases)
  | @dropped n missing later v =>
    refine ⟨some v, .some (.same v), fun path before after releases => ?_⟩
    obtain ⟨a, rfl⟩ := follows.exists_added missing later
    refine puts_default (fun p fits => ?_) n.1
    obtain ⟨t, tracked, distinct, inside, left⟩ := releases _ fits
    have place : Drops.under (path ++ ("." ++ item.name)) [("", v)] =
        [(.text (path ++ ("." ++ item.name)), v)] := by
      rw [Drops.under, List.map_singleton, String.append_empty]
    rw [List.nil_append, place] at inside left
    have member := inside (List.mem_singleton_self _)
    have kept := (Entries.get?_text_iff distinct).mpr member
    rw [Item.interpolated_place]
    exact ⟨_, newValue_tracked tracked kept, left _ (.erase distinct member)⟩
  | @missing m n present later =>
    refine ⟨none, .none, fun path before after releases => ?_⟩
    rw [upgrade?_eq follows kept typed typed' present later, later]
    exact puts_carry_missing (eq_none_of_optionRel (alike m present)) (Tracker.Releases.still releases)
  | @copied m n present later flat v =>
    refine ⟨Value.member? fields m.1, alike m present, fun path before after releases => ?_⟩
    rw [upgrade?_eq follows kept typed typed' present later, later, FieldStep.carry_flat flat,
      Option.bind_some]
    exact puts_copy (Tracker.Releases.still releases) item.name m.1 n.1
  | @nested m n v w inner present later holds restores =>
    -- What is made again is chosen before the place is known, so that it is the same at every place.
    obtain ⟨w', there, same⟩ := exists_of_optionRel (alike m present)
    obtain ⟨v', close, back⟩ := restores.up w' same
    refine ⟨some v', .some close, fun path before after releases => ?_⟩
    rw [upgrade?_eq follows kept typed typed' present later, later]
    refine puts_carry_nested holds there fun p fits => ?_
    obtain ⟨t, tracked, distinct, inside, left⟩ := releases _ fits
    rw [List.append_nil] at inside left
    obtain ⟨q, u, run, freed, frees⟩ := back (path ++ ("." ++ item.name)) p t tracked distinct inside
    exact ⟨q, run, freed ▸ left u frees⟩

end Steps

end Lowers

end Conversion

end Lineage
