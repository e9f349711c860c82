import Lineage.CustomResource.Review
import Lineage.Proofs.Conversion.Escape
import Lineage.Proofs.Conversion.Tracker

namespace Lineage.CustomResource

/-- The values that the status of an object records as dropped. -/
def changedValues (fields : Entries Value Value) : Value :=
  (Value.member? (Dispatcher.statusOf fields) "changedValues").getD .null

namespace Dispatcher

variable {ι : Type} {d : Dispatcher ι} {desired : String} {fields : Entries Value Value} {version : Value}
  {current : String} {p : Progress}

/-- The recorded values of an object are loaded if they are tracked and can be, and else one is of the wrong
kind. -/
theorem trackerOf_ok_or_error (d : Dispatcher ι) (fields : Entries Value Value) :
    ((d.track = true → Tracker.Loadable (changedValues fields)) ∧
        ∃ tracker, d.trackerOf fields = .ok tracker) ∨
      (d.track = true ∧ ¬ Tracker.Loadable (changedValues fields) ∧
        ∃ cause, cause.family = .kind ∧ d.trackerOf fields = .error cause) := by
  unfold trackerOf
  cases track : d.track with
  | false => exact Or.inl ⟨nofun, none, rfl⟩
  | true =>
    rcases Tracker.ofValue_ok_or_error (changedValues fields) with
      ⟨fits, t, loaded⟩ | ⟨unfit, cause, kind, fails⟩
    · refine Or.inl ⟨fun _ => fits, some t, ?_⟩
      rw [changedValues] at loaded
      rw [if_pos rfl, loaded]
      rfl
    · refine Or.inr ⟨rfl, unfit, cause, kind, ?_⟩
      rw [changedValues] at fails
      rw [if_pos rfl, fails]
      rfl

theorem versionOf_run {what : String} (known : d.versionOf what version = .ok current) (p : Progress) :
    (Run.ofExcept (liftM (d.versionOf what version)) : Run String) p = (.ok current, p) := by
  rw [known]
  rfl

theorem copy_run (copied : d.room.Copies (.map fields)) (p : Progress) :
    (Run.ofExcept (liftM (d.room.copy (.map fields))) : Run Value) p = (.ok (.map fields), p) := by
  rw [Depths.copy, if_pos copied]
  rfl

theorem convertObject_of_uncopied (named : Value.member? fields "apiVersion" = some version)
    (known : d.versionOf "apiVersion" version = .ok current)
    (deep : ¬ d.room.Copies (.map fields)) :
    d.convertObject (.map fields) desired p = (.error (.fault (.tooDeep "")), p) := by
  have second : (Run.ofExcept (liftM (d.room.copy (.map fields))) : Run Value) p =
      (.error (.fault (.tooDeep "")), p) := by
    rw [Depths.copy, if_neg deep]
    rfl
  simp only [convertObject, named]
  rw [Run.bind_of_ok (versionOf_run known p), Run.bind_of_error second]

theorem convertObject_of_same (named : Value.member? fields "apiVersion" = some version)
    (known : d.versionOf "apiVersion" version = .ok desired)
    (copied : d.room.Copies (.map fields)) :
    d.convertObject (.map fields) desired p = (.ok (.map fields), p) := by
  simp only [convertObject, named]
  rw [Run.bind_of_ok (versionOf_run known p), Run.bind_of_ok (copy_run copied p), if_pos rfl]
  rfl

theorem toValue_run {t : Tracker} {changed : Value} (written : t.toValue = .ok changed) (p : Progress) :
    (Run.ofExcept (liftM t.toValue) : Run Value) p = (.ok changed, p) := by
  rw [written]
  rfl

theorem tracking_of_ok {tracker : Option Tracker} {act : Run Value} {made : Value} {q : Progress}
    (run : act { p with tracker := tracker } = (.ok made, q)) :
    tracking tracker act p = (.ok (made, q.tracker), { q with tracker := p.tracker }) := by
  rw [tracking, run]
  rfl

theorem tracking_of_error {tracker : Option Tracker} {act : Run Value} {failure : Failure} {q : Progress}
    (run : act { p with tracker := tracker } = (.error failure, q)) :
    tracking tracker act p = (.error failure, { q with tracker := p.tracker }) := by
  rw [tracking, run]
  rfl

section Converting

variable (named : Value.member? fields "apiVersion" = some version)
  (known : d.versionOf "apiVersion" version = .ok current)
  (copied : d.room.Copies (.map fields)) (different : current ≠ desired)
include named known copied different

theorem convertObject_of_unloaded {cause : Fault} (fails : d.trackerOf fields = .error cause) :
    d.convertObject (.map fields) desired p = (.error (.fault cause), p) := by
  have second : (Run.ofExcept (liftM (d.trackerOf fields)) : Run (Option Tracker)) p =
      (.error (.fault cause), p) := by
    rw [fails]
    rfl
  simp only [convertObject, named]
  rw [Run.bind_of_ok (versionOf_run known p), Run.bind_of_ok (copy_run copied p), if_neg different,
    Run.bind_of_error second]

variable {tracker : Option Tracker} (loaded : d.trackerOf fields = .ok tracker)
include loaded

/-- An object whose recorded values are loaded gets a new content, and a record of what was dropped. -/
theorem convertObject_of_loaded :
    d.convertObject (.map fields) desired p =
      (tracking tracker (d.converter current desired (specOf fields) "") >>= fun made =>
        let fields := Entries.put fields (.text "spec") made.1
        let fields := Entries.put fields (.text "apiVersion") (.text s!"{d.group}/{desired}")
        match made.2 with
        | none => pure (.map fields)
        | some t => Run.ofExcept (liftM t.toValue) >>= fun changed =>
          let status := Entries.put (statusOf fields) (.text "changedValues") changed
          pure (.map (Entries.put fields (.text "status") (.map status)))) p := by
  have second : (Run.ofExcept (liftM (d.trackerOf fields)) : Run (Option Tracker)) p =
      (.ok tracker, p) := by
    rw [loaded]
    rfl
  simp only [convertObject, named]
  refine (Run.bind_of_ok (versionOf_run known p)).trans ?_
  refine (Run.bind_of_ok (copy_run copied p)).trans ?_
  rw [if_neg different]
  exact Run.bind_of_ok second

theorem convertObject_of_error {failure : Failure} {q : Progress}
    (fails : d.converter current desired (specOf fields) "" { p with tracker := tracker } =
      (.error failure, q)) :
    d.convertObject (.map fields) desired p = (.error failure, { q with tracker := p.tracker }) := by
  rw [convertObject_of_loaded named known copied different loaded, Run.bind_of_error (tracking_of_error fails)]

/-- An object whose content is converted is converted, unless what was dropped cannot be put in order. -/
theorem convertObject_of_ok {spec : Value} {q : Progress}
    (made : d.converter current desired (specOf fields) "" { p with tracker := tracker } = (.ok spec, q)) :
    (∃ w r, d.convertObject (.map fields) desired p = (.ok w, r)) ∧
        (∀ t cause, q.tracker = some t → t.toValue ≠ .error cause) ∨
      ∃ t cause r, q.tracker = some t ∧ t.toValue = .error cause ∧
        d.convertObject (.map fields) desired p = (.error (.fault cause), r) := by
  rw [convertObject_of_loaded named known copied different loaded, Run.bind_of_ok (tracking_of_ok made)]
  cases left : q.tracker with
  | none => exact Or.inl ⟨⟨_, _, rfl⟩, nofun⟩
  | some t =>
    cases sorted : t.toValue with
    | ok changed =>
      refine Or.inl ⟨⟨_, _, (Run.bind_of_ok (toValue_run sorted _)).trans rfl⟩, fun u cause same fails => ?_⟩
      cases same
      cases sorted.symm.trans fails
    | error cause =>
      have written : ∀ r, (Run.ofExcept (liftM t.toValue) : Run Value) r = (.error (.fault cause), r) :=
        fun r => by
          rw [sorted]
          rfl
      exact Or.inr ⟨t, cause, _, rfl, sorted, Run.bind_of_error (written _)⟩

end Converting

/-- What happens when the conversion of an object ends a review without an answer: the object is too deep to
be copied, the dropped values that it records are not read, its content fails in a way that is no fault of a
conversion, or the values that were dropped cannot be put in order. -/
inductive ObjectBreaks (d : Dispatcher ι) (desired : String) (p : Progress) : Value → Failure → Prop
  | uncopied {fields : Entries Value Value} {version : Value} {current : String}
      (named : Value.member? fields "apiVersion" = some version)
      (known : d.versionOf "apiVersion" version = .ok current)
      (deep : ¬ d.room.Copies (.map fields)) :
      ObjectBreaks d desired p (.map fields) (.fault (.tooDeep ""))
  | unloadable {fields : Entries Value Value} {version : Value} {current : String} {cause : Fault}
      (named : Value.member? fields "apiVersion" = some version)
      (known : d.versionOf "apiVersion" version = .ok current)
      (copied : d.room.Copies (.map fields)) (different : current ≠ desired)
      (tracks : d.track = true) (unfit : ¬ Tracker.Loadable (changedValues fields))
      (fails : d.trackerOf fields = .error cause) : ObjectBreaks d desired p (.map fields) (.fault cause)
  | unconverted {fields : Entries Value Value} {version : Value} {current : String}
      {tracker : Option Tracker} {failure : Failure} {q : Progress}
      (named : Value.member? fields "apiVersion" = some version)
      (known : d.versionOf "apiVersion" version = .ok current)
      (copied : d.room.Copies (.map fields)) (different : current ≠ desired)
      (loaded : d.trackerOf fields = .ok tracker)
      (fails : d.converter current desired (specOf fields) ""
        { p with tracker := tracker } = (.error failure, q))
      (escapes : ∀ cause, failure ≠ .conversion cause) : ObjectBreaks d desired p (.map fields) failure
  | unordered {fields : Entries Value Value} {version : Value} {current : String}
      {tracker : Option Tracker} {spec : Value} {q : Progress} {t : Tracker} {cause : Fault}
      (named : Value.member? fields "apiVersion" = some version)
      (known : d.versionOf "apiVersion" version = .ok current)
      (copied : d.room.Copies (.map fields)) (different : current ≠ desired)
      (loaded : d.trackerOf fields = .ok tracker)
      (made : d.converter current desired (specOf fields) "" { p with tracker := tracker } = (.ok spec, q))
      (left : q.tracker = some t) (fails : t.toValue = .error cause) :
      ObjectBreaks d desired p (.map fields) (.fault cause)

/-- What an object breaks with is a failure that can escape from a conversion. -/
theorem ObjectBreaks.escapes {v : Value} {failure : Failure}
    (breaks : d.ObjectBreaks desired p v failure) : failure.Escapes d.runtime.Raises := by
  cases breaks with
  | uncopied => exact Failure.escapes_tooDeep ..
  | @unloadable fields _ _ _ named known copied different tracks unfit fails =>
    rcases d.trackerOf_ok_or_error fields with ⟨_, tracker, loaded⟩ | ⟨_, _, cause, kind, unloaded⟩
    · cases loaded.symm.trans fails
    · cases unloaded.symm.trans fails
      exact Or.inl kind
  | unconverted named known copied different loaded fails escapes =>
    rcases (d.runtime.convert_converts _ _ _ _ _).failing _ _ _ fails with ⟨cause, conversion⟩ | out
    · exact absurd conversion (escapes cause)
    · exact out
  | @unordered _ _ _ _ _ _ t _ named known copied different loaded made left fails =>
    exact Or.inl (t.toValue_errsOnly _ fails)

end Dispatcher

end Lineage.CustomResource
