import Lineage.Proofs.Conversion.Places
import Lineage.Proofs.Edge

namespace Lineage

/-- Whether a tracker is left as another one up to two kinds of places: at those that may be `gone`, values
may have been taken, and at those that are `inside` of other values, they may also have been recorded. -/
structure Tracker.Frames (gone inside : String → Prop) (t u : Tracker) : Prop where
  same : ∀ key, (∀ place, gone place ∨ inside place → key ≠ .text place) → u.get? key = t.get? key
  old : ∀ e ∈ u.values, e ∈ t.values ∨ ∃ place, inside place ∧ e.1 = .text place

namespace Tracker.Frames

variable {gone inside gone' inside' : String → Prop} {t u w : Tracker} {place : String}

protected theorem refl (gone inside : String → Prop) (t : Tracker) : Frames gone inside t t :=
  ⟨fun _ _ => rfl, fun _ member => Or.inl member⟩

protected theorem trans (first : Frames gone inside t u) (second : Frames gone inside u w) :
    Frames gone inside t w := by
  refine ⟨fun key apart => (second.same key apart).trans (first.same key apart), fun e member => ?_⟩
  exact (second.old e member).elim (first.old e) Or.inr

theorem mono (frames : Frames gone inside t u) (taken : ∀ place, gone place → gone' place ∨ inside' place)
    (within : ∀ place, inside place → inside' place) : Frames gone' inside' t u := by
  refine ⟨fun key apart => frames.same key fun place there => apart place ?_, fun e member => ?_⟩
  · exact there.elim (taken place) fun inner => Or.inr (within place inner)
  · exact (frames.old e member).imp_right fun ⟨place, inner, key⟩ => ⟨place, within place inner, key⟩

theorem erase (taken : gone place) : Frames gone inside t (t.erase (.text place)) :=
  ⟨fun _ apart => Entries.get?_erase_of_ne_text (apart place (Or.inl taken)),
    fun _ member => Or.inl (List.mem_of_mem_eraseP member)⟩

theorem record (inner : inside place) (v : Value) : Frames gone inside t (t.record (.text place) v) := by
  refine ⟨fun key apart => Entries.get?_put_of_ne_text (apart place (Or.inr inner)), fun e member => ?_⟩
  exact (Entries.mem_put_text member).imp_right fun key => ⟨place, inner, key⟩

end Tracker.Frames

/-- Whether a conversion goes on with a tracker that is left as the one before up to some places, or with none
if there was none. -/
def Progress.Frames (gone inside : String → Prop) (p q : Progress) : Prop :=
  Option.Rel (Tracker.Frames gone inside) p.tracker q.tracker

namespace Progress.Frames

variable {gone inside gone' inside' : String → Prop} {p q r : Progress}

theorem of_tracker_eq (same : q.tracker = p.tracker) : p.Frames gone inside q := by
  unfold Frames
  rw [same]
  cases p.tracker with
  | none => exact .none
  | some t => exact .some (.refl gone inside t)

protected theorem trans (first : p.Frames gone inside q) (second : q.Frames gone inside r) :
    p.Frames gone inside r := by
  unfold Frames at first second ⊢
  generalize p.tracker = before at *
  generalize q.tracker = between at *
  generalize r.tracker = after at *
  cases first with
  | none => exact second
  | some earlier =>
    cases second with
    | some later => exact .some (earlier.trans later)

theorem mono (frames : p.Frames gone inside q) (taken : ∀ place, gone place → gone' place ∨ inside' place)
    (within : ∀ place, inside place → inside' place) : p.Frames gone' inside' q :=
  optionRel_imp (fun _ _ frames => frames.mono taken within) frames

end Progress.Frames

/-- Whether a step of a conversion leaves the tracker as it is up to some places, be it that it fails or
not. -/
def Run.Frames {α : Type} (gone inside : String → Prop) (m : Run α) : Prop :=
  ∀ p : Progress, p.Frames gone inside (m p).2

namespace Run.Frames

variable {α β γ : Type} {gone inside gone' inside' : String → Prop} {m : Run α} {k : α → Run β}

theorem mono (frames : m.Frames gone inside) (taken : ∀ place, gone place → gone' place ∨ inside' place)
    (within : ∀ place, inside place → inside' place) : m.Frames gone' inside' :=
  fun p => (frames p).mono taken within

theorem ofExcept (result : Except Failure α) : (Run.ofExcept result).Frames gone inside :=
  fun _ => .of_tracker_eq rfl

protected theorem pure (a : α) : (pure a : Run α).Frames gone inside :=
  ofExcept (.ok a)

/-- Two steps that change the tracker only in some places do so one after the other. -/
protected theorem bind (first : m.Frames gone inside) (rest : ∀ a, (k a).Frames gone inside) :
    (m >>= k).Frames gone inside := by
  intro p
  have before := first p
  cases result : m p with
  | mk outcome q =>
    rw [result] at before
    cases outcome with
    | ok a =>
      rw [bind_of_ok result]
      exact before.trans (rest a q)
    | error failure =>
      rw [bind_of_error result]
      exact before

theorem foldlM {step : β → γ → Run β} {xs : List γ} (each : ∀ b, ∀ x ∈ xs, (step b x).Frames gone inside)
    (b : β) : (xs.foldlM step b).Frames gone inside := by
  induction xs generalizing b with
  | nil => exact .pure b
  | cons x rest ih =>
    rw [List.foldlM_cons]
    refine .bind (each b x (List.mem_cons_self ..)) fun c => ih ?_ c
    exact fun b y member => each b y (List.mem_cons_of_mem _ member)

end Run.Frames

/-- Whether a place is inside of the value at a path. -/
def Conversion.Inside (path place : String) : Prop :=
  ∃ rest, place = path ++ "." ++ rest

theorem Conversion.Inside.of_item {path item lead place : String}
    (inner : Inside (s!"{path}.{item}" ++ lead) place) : Inside path place := by
  obtain ⟨rest, rfl⟩ := inner
  exact ⟨item ++ lead ++ "." ++ rest, by simp [toString, String.append_assoc]⟩

/-- Whether a step may take the value at a place out of the tracker. -/
def FieldStep.Takes (step : FieldStep) (path place : String) : Prop :=
  match step with
  | default item _ _ _ _ => place = s!"{path}.{item}"
  | copy _ _ _ | apply _ _ _ _ | nested _ _ _ _ _ _ => False

/-- Whether a place is inside of a value that a step leaves to the container of a type that is followed. -/
def FieldStep.Enters (step : FieldStep) (followed : String → Prop) (path place : String) : Prop :=
  match step with
  | nested item _ _ _ _ hint => (∃ type, step.asked? = some type ∧ followed type) ∧
      ∃ lead, Hint.Leads hint lead ∧ Conversion.Inside (s!"{path}.{item}" ++ lead) place
  | copy _ _ _ | default _ _ _ _ _ | apply _ _ _ _ => False

/-- Whether a place is inside of a payload that a step leaves to the container of a type that is followed. -/
def VariantStep.Enters (step : VariantStep) (followed : String → Prop) (path place : String) : Prop :=
  (∃ type, step.asked? = some type ∧ followed type) ∧ Conversion.Inside s!"{path}.{step.item}" place

/-- Whether some step may take the value at a place out of the tracker. -/
def Steps.Takes (steps : Steps) (path place : String) : Prop :=
  match steps with
  | fields steps _ => ∃ s ∈ steps, s.Takes path place
  | variants _ => False

/-- Whether a place is inside of a value that some step leaves to the container of a type that is followed. -/
def Steps.Enters (steps : Steps) (followed : String → Prop) (path place : String) : Prop :=
  match steps with
  | fields steps _ => ∃ s ∈ steps, s.Enters followed path place
  | variants steps => ∃ s ∈ steps, s.Enters followed path place

theorem Steps.Takes.inside {steps : Steps} {path place : String} (takes : steps.Takes path place) :
    Conversion.Inside path place := by
  cases steps with
  | variants => cases takes
  | fields steps dropped =>
    obtain ⟨s, _, takes⟩ := takes
    cases s with
    | default item target type supplier value => exact ⟨item, takes⟩
    | copy | apply | nested => cases takes

/-- A place that steps enter is inside of the value that they convert. -/
theorem Steps.Enters.inside {steps : Steps} {followed : String → Prop} {path place : String}
    (enters : steps.Enters followed path place) : Conversion.Inside path place := by
  cases steps with
  | variants steps =>
    obtain ⟨s, _, _, inner⟩ := enters
    rw [← @String.append_empty s!"{path}.{s.item}"] at inner
    exact inner.of_item
  | fields steps dropped =>
    obtain ⟨s, _, enters⟩ := enters
    cases s with
    | nested item source target fromType toType hint =>
      obtain ⟨_, lead, _, inner⟩ := enters
      exact inner.of_item
    | copy | default | apply => cases enters

namespace Conversion

variable {functions : Functions} {nesting : Nesting} {edge : Edge} {path place : String}

section Steps

variable {gone inside : String → Prop}

end Steps

variable (inner : ∀ type convert, nesting type = some convert →
  ∀ v place, (convert v place).Frames (fun _ => False) (Inside place))
include inner

end Conversion

namespace Runtime

open Conversion

variable {ι : Type} {convert : Runtime ι → Converter}

end Runtime

end Lineage
