import Lineage.Proofs.Conversion.Alike
import Lineage.Proofs.CustomResource.Restoring
import Lineage.Proofs.CustomResource.Review

namespace Lineage.CustomResource

/-- Whether a review holds a well-formed request: one with an identifier, a version and a list of objects. -/
inductive Asks : Value → Request → Prop
  | mk {fields inner : Entries Value Value} {request : Request}
      (inside : Value.member? fields "request" = some (.map inner))
      (identified : Value.member? inner "uid" = some (.text request.id)) (nonempty : request.id ≠ "")
      (version : Value.member? inner "desiredAPIVersion" = some (.text request.desired))
      (listed : Value.member? inner "objects" = some (.list request.objects)) : Asks (.map fields) request

/-- A request is read exactly if the review holds one that is well formed. -/
theorem requestOf_eq_ok_iff {review : Value} {request : Request} :
    requestOf review = .ok request ↔ Asks review request := by
  constructor
  · intro read
    unfold requestOf at read
    split at read
    case h_2 => cases read
    split at read
    case h_2 => cases read
    rename_i inner inside
    simp only [bind, Except.bind] at read
    split at read
    case h_2 => cases read
    rename_i id identified
    split at read
    case isTrue => cases read
    rename_i nonempty
    split at read
    case h_2 => cases read
    rename_i desired version
    split at read
    case h_2 => cases read
    rename_i objects listed
    cases read
    exact .mk inside identified (by simpa using nonempty) version listed
  · rintro ⟨inside, identified, nonempty, version, listed⟩
    simp [requestOf, inside, identified, nonempty, version, listed, bind, Except.bind, pure, Except.pure]

namespace Dispatcher

variable {ι : Type} {d : Dispatcher ι} {desired : String} {fields : Entries Value Value} {v w : Value}
  {p q : Progress}

/-- The fields of an object that is converted without a tracker. -/
def renewed (d : Dispatcher ι) (fields : Entries Value Value) (desired : String) (spec : Value) :
    Entries Value Value :=
  Entries.put (Entries.put fields (.text "spec") spec) (.text "apiVersion") (.text s!"{d.group}/{desired}")

/-- Whether one value is what comes of the conversion of another: nothing else if it has the desired version
already, and else a new content, and what is left of the values that it records as dropped if these are
tracked. -/
inductive Converts (d : Dispatcher ι) (desired : String) : Value → Value → Prop
  | same {fields : Entries Value Value} {version : Value}
      (named : Value.member? fields "apiVersion" = some version)
      (known : d.versionOf "apiVersion" version = .ok desired)
      (copied : d.room.Copies (.map fields)) : Converts d desired (.map fields) (.map fields)
  | untracked {fields : Entries Value Value} {version spec : Value} {current : String}
      (named : Value.member? fields "apiVersion" = some version)
      (known : d.versionOf "apiVersion" version = .ok current)
      (copied : d.room.Copies (.map fields)) (different : current ≠ desired)
      (tracks : d.track = false)
      (made : ∀ p : Progress, ∃ q, d.converter current desired (specOf fields) ""
        { p with tracker := none } = (.ok spec, q)) :
      Converts d desired (.map fields) (.map (d.renewed fields desired spec))
  | tracked {fields : Entries Value Value} {version spec changed : Value} {current : String} {t u : Tracker}
      (named : Value.member? fields "apiVersion" = some version)
      (known : d.versionOf "apiVersion" version = .ok current)
      (copied : d.room.Copies (.map fields)) (different : current ≠ desired)
      (tracks : d.track = true) (loaded : Tracker.ofValue (changedValues fields) = .ok t)
      (made : ∀ p : Progress, ∃ q, d.converter current desired (specOf fields) ""
        { p with tracker := some t } = (.ok spec, q) ∧ q.tracker = some u)
      (written : u.toValue = .ok changed) :
      Converts d desired (.map fields) (.map (d.converted fields desired spec changed))

theorem trackerOf_eq_ok_iff {tracker : Option Tracker} : d.trackerOf fields = .ok tracker ↔
    d.track = false ∧ tracker = none ∨
      d.track = true ∧ ∃ t, Tracker.ofValue (changedValues fields) = .ok t ∧ tracker = some t := by
  rw [trackerOf, changedValues]
  cases d.track with
  | false => simp [eq_comm]
  | true => cases Tracker.ofValue _ <;> simp [Except.map, eq_comm]

/-- A conversion keeps its tracker, and with one of its own it does not depend on the progress. -/
theorem convert_anywhere {current : String} {spec made : Value} {tracker : Option Tracker}
    (run : d.converter current desired spec "" { p with tracker := tracker } = (.ok made, q)) :
    q.tracker.isSome = tracker.isSome ∧ ∀ p' : Progress, ∃ q',
      d.converter current desired spec "" { p' with tracker := tracker } = (.ok made, q') ∧
        q'.tracker = q.tracker := by
  have alike : Run.Alike true (d.converter current desired spec "") (d.converter current desired spec "") :=
    Runtime.between_alike (Runtime.inside_alike _) d.runtime current desired spec "" "" fun _ => rfl
  refine ⟨(d.runtime.convert_converts _ _ _ _ _).keeping _ _ _ run, fun p' => ?_⟩
  obtain ⟨q', again, left, _⟩ := alike.ok (p := { p with tracker := tracker })
    (q := { p' with tracker := tracker }) rfl nofun run
  exact ⟨q', again, left⟩

/-- Without a tracker an object is converted to its fields with a new content, under the desired version. -/
theorem convertObject_untracked {version : Value} {current : String} {spec : Value}
    (named : Value.member? fields "apiVersion" = some version)
    (known : d.versionOf "apiVersion" version = .ok current)
    (copied : d.room.Copies (.map fields)) (different : current ≠ desired)
    (loaded : d.trackerOf fields = .ok none)
    (made : d.converter current desired (specOf fields) "" { p with tracker := none } = (.ok spec, q)) :
    d.convertObject (.map fields) desired p =
      (.ok (.map (d.renewed fields desired spec)), { q with tracker := p.tracker }) := by
  have left : q.tracker = none := by
    have kept := (convert_anywhere made).1
    cases held : q.tracker with
    | none => rfl
    | some u =>
      rw [held] at kept
      cases kept
  rw [convertObject_of_loaded named known copied different loaded, Run.bind_of_ok (tracking_of_ok made), left]
  rfl

section Converting

variable {version spec : Value} {current : String} {tracker : Option Tracker} {r : Progress}

/-- What an object becomes whose content is converted is what comes of it alone. -/
theorem converts_of_made (named : Value.member? fields "apiVersion" = some version)
    (known : d.versionOf "apiVersion" version = .ok current)
    (copied : d.room.Copies (.map fields)) (different : current ≠ desired)
    (loaded : d.trackerOf fields = .ok tracker)
    (made : d.converter current desired (specOf fields) "" { p with tracker := tracker } =
      (.ok spec, r)) (run : d.convertObject (.map fields) desired p = (.ok w, q)) :
    d.Converts desired (.map fields) w := by
  obtain ⟨kept, anywhere⟩ := convert_anywhere made
  rcases trackerOf_eq_ok_iff.mp loaded with ⟨tracks, rfl⟩ | ⟨tracks, t, read, rfl⟩
  · cases (convertObject_untracked named known copied different loaded made).symm.trans run
    refine .untracked named known copied different tracks fun p => ?_
    obtain ⟨q, again, _⟩ := anywhere p
    exact ⟨q, again⟩
  · obtain ⟨u, left⟩ := Option.isSome_iff_exists.mp kept
    cases written : u.toValue with
    | ok changed =>
      cases (convertObject_tracked tracks named known copied different read made left written).symm.trans run
      exact .tracked named known copied different tracks read (fun p => left ▸ anywhere p) written
    | error cause =>
      rcases convertObject_of_ok named known copied different loaded made with
        ⟨_, sorted⟩ | ⟨_, _, _, _, _, fails⟩
      · exact absurd written (sorted u cause left)
      · cases fails.symm.trans run

end Converting

/-- What an object becomes is what comes of it alone. -/
theorem converts_of_convertObject (run : d.convertObject v desired p = (.ok w, q)) :
    d.Converts desired v w := by
  cases v with
  | map fields =>
    cases named : Value.member? fields "apiVersion" with
    | none =>
      simp only [convertObject, named] at run
      cases run
    | some version =>
      cases known : d.versionOf "apiVersion" version with
      | error cause =>
        simp only [convertObject, named, known] at run
        cases run
      | ok current =>
        by_cases copied : d.room.Copies (.map fields)
        swap
        · cases (convertObject_of_uncopied named known copied).symm.trans run
        by_cases same : current = desired
        · cases (convertObject_of_same named (same ▸ known) copied).symm.trans run
          exact .same named (same ▸ known) copied
        cases loaded : d.trackerOf fields with
        | error cause => cases (convertObject_of_unloaded named known copied same loaded).symm.trans run
        | ok tracker =>
          cases made : d.converter current desired (specOf fields) "" { p with tracker := tracker } with
          | mk outcome r =>
            cases outcome with
            | error failure => cases (convertObject_of_error named known copied same loaded made).symm.trans run
            | ok spec => exact converts_of_made named known copied same loaded made run
  | _ => cases run

/-- What comes of the conversion of an object does not depend on the progress. -/
theorem convertObject_ok_iff (p : Progress) :
    (∃ q, d.convertObject v desired p = (.ok w, q)) ↔ d.Converts desired v w := by
  refine ⟨fun ⟨q, run⟩ => converts_of_convertObject run, fun converts => ?_⟩
  cases converts with
  | same named known copied =>
    exact ⟨p, convertObject_of_same named known copied⟩
  | untracked named known copied different tracks made =>
    obtain ⟨q, made⟩ := made p
    exact ⟨_, convertObject_untracked named known copied different
      (trackerOf_eq_ok_iff.mpr (.inl ⟨tracks, rfl⟩)) made⟩
  | tracked named known copied different tracks loaded made written =>
    obtain ⟨q, made, left⟩ := made p
    exact ⟨_, convertObject_tracked tracks named known copied different loaded made left written⟩

/-- Objects are converted exactly if the version is known and each of them is converted alone. -/
theorem convertObjects_ok_iff {objects ws : List Value} {version : Value} (p : Progress) :
    (∃ q, d.convertObjects objects version p = (.ok ws, q)) ↔
      ∃ desired, d.versionOf "desiredAPIVersion" version = .ok desired ∧
        List.Forall₂ (d.Converts desired) objects ws := by
  unfold convertObjects
  cases known : d.versionOf "desiredAPIVersion" version with
  | error cause =>
    constructor
    · rintro ⟨q, run⟩
      cases run
    · rintro ⟨_, same, _⟩
      cases same
  | ok desired =>
    rw [← known, Run.bind_of_ok (versionOf_run known p), Run.mapM_ok_iff fun v w => convertObject_ok_iff]
    constructor
    · exact fun all => ⟨desired, known, all⟩
    · rintro ⟨_, same, all⟩
      cases known.symm.trans same
      exact all

/-- Whether an object is changed as far as a version asks for, and no further: not at all if it has this
version, and else nothing but its version, its content and, if dropped values are tracked, the record of
them in its status. -/
structure Touches (d : Dispatcher ι) (asked : String) (before after : Entries Value Value) : Prop where
  same : Value.member? before "apiVersion" = some (.text asked) → after = before
  version : Value.member? after "apiVersion" = some (.text asked)
  others : ∀ key, key ≠ .text "apiVersion" → key ≠ .text "spec" → key ≠ .text "status" →
    Entries.get? after key = Entries.get? before key
  untracked : d.track = false → Value.member? after "status" = Value.member? before "status"
  tracked : d.track = true → Value.member? before "apiVersion" ≠ some (.text asked) →
    ∃ status, Value.member? after "status" = some (.map status) ∧
      ∀ key, key ≠ .text "changedValues" → Entries.get? status key = Entries.get? (statusOf before) key

theorem member?_ne_of_different {version : Value} {current : String}
    (named : Value.member? fields "apiVersion" = some version)
    (known : d.versionOf "apiVersion" version = .ok current) (different : current ≠ desired) :
    Value.member? fields "apiVersion" ≠ some (.text s!"{d.group}/{desired}") := by
  intro same
  obtain ⟨written, _⟩ := versionOf_eq_ok_iff.mp known
  cases named.symm.trans same
  have same : toString current = toString desired := by simpa using (Value.text.inj written).symm
  exact different same

/-- What comes of an object is changed no further than the version asks for. -/
theorem Converts.touches (converts : d.Converts desired v w) :
    ∃ before after, v = .map before ∧ w = .map after ∧ d.Touches s!"{d.group}/{desired}" before after := by
  cases converts with
  | @same fields version named known copied =>
    have own := named.trans (congrArg some (versionOf_eq_ok_iff.mp known).1)
    exact ⟨fields, fields, rfl, rfl, fun _ => rfl, own, fun _ _ _ _ => rfl, fun _ => rfl,
      fun _ other => absurd own other⟩
  | @untracked fields version spec current named known copied different tracks made =>
    have other := member?_ne_of_different named known different
    refine ⟨fields, _, rfl, rfl, fun same => absurd same other, ?_, ?_, ?_, ?_⟩
    · exact Entries.get?_put_text
    · intro key notVersion notSpec _
      rw [renewed, Entries.get?_put_of_ne_text notVersion, Entries.get?_put_of_ne_text notSpec]
    · intro _
      rw [Value.member?, renewed, Entries.get?_put_of_ne_text (by simp),
        Entries.get?_put_of_ne_text (by simp), Value.member?]
    · intro on
      cases tracks.symm.trans on
  | @tracked fields version spec changed current t u named known copied different tracks loaded made written =>
    have other := member?_ne_of_different named known different
    refine ⟨fields, _, rfl, rfl, fun same => absurd same other, member?_converted_version .., ?_, ?_, ?_⟩
    · exact fun key notVersion notSpec notStatus => get?_converted _ _ _ _ _ notSpec notVersion notStatus
    · intro off
      cases tracks.symm.trans off
    · exact fun _ _ => ⟨_, member?_converted_status .., fun key apart => Entries.get?_put_of_ne_text apart⟩

/-- The answer to a review is all or nothing: either it tells of a failure and holds no objects, or it holds
what comes of each object alone, changed no further than the request asks for. -/
theorem answer_all_or_nothing {review answer : Value} (answered : d.answer review p = (.ok answer, q)) :
    ∃ response, answer = .object [("apiVersion", reviewVersion review), ("kind", .text "ConversionReview"),
        ("response", response)] ∧
      ((∃ id cause, response = failureResponse id cause ∧ ∀ request, Asks review request →
          id = .text request.id ∧ ¬ ∃ desired objects,
            d.versionOf "desiredAPIVersion" (.text request.desired) = .ok desired ∧
            List.Forall₂ (fun v w => ∀ p, ∃ q, d.convertObject v desired p = (.ok w, q))
              request.objects objects) ∨
        ∃ request desired objects, Asks review request ∧
          d.versionOf "desiredAPIVersion" (.text request.desired) = .ok desired ∧
          response = successResponse request.id objects ∧
          List.Forall₂ (fun v w => (∀ p, ∃ q, d.convertObject v desired p = (.ok w, q)) ∧
            ∃ before after, v = .map before ∧ w = .map after ∧ d.Touches request.desired before after)
            request.objects objects) := by
  unfold Dispatcher.answer at answered
  cases read : requestOf review with
  | error cause =>
    simp only [read] at answered
    cases written : idText d.room review with
    | error failure =>
      simp only [written] at answered
      cases answered
    | ok id =>
      simp only [written] at answered
      cases answered
      refine ⟨_, rfl, .inl ⟨id, cause, rfl, fun request asks => ?_⟩⟩
      cases (requestOf_eq_ok_iff.mpr asks).symm.trans read
  | ok request =>
    simp only [read] at answered
    obtain ⟨response, r, responded, rest⟩ := Run.bind_eq_ok_iff.mp answered
    cases rest
    refine ⟨response, rfl, ?_⟩
    have asks := requestOf_eq_ok_iff.mp read
    cases run : d.convertObjects request.objects (.text request.desired) p with
    | mk outcome q' =>
      cases outcome with
      | ok objects =>
        cases (respond_of_ok run).symm.trans responded
        obtain ⟨desired, known, all⟩ := (convertObjects_ok_iff p).mp ⟨_, run⟩
        refine .inr ⟨request, desired, objects, asks, known, rfl, all.imp fun v w converts => ?_⟩
        have asked : s!"{d.group}/{desired}" = request.desired :=
          (Value.text.inj (versionOf_eq_ok_iff.mp known).1).symm
        exact ⟨fun p => (convertObject_ok_iff p).mpr converts, asked ▸ converts.touches⟩
      | error failure =>
        rcases respond_of_error run with ⟨cause, rfl, failed⟩ | ⟨_, fails⟩
        · cases failed.symm.trans responded
          refine .inl ⟨_, cause, rfl, fun other asks' => ?_⟩
          cases read.symm.trans (requestOf_eq_ok_iff.mpr asks')
          refine ⟨rfl, fun ⟨desired, objects, known, all⟩ => ?_⟩
          obtain ⟨_, converted⟩ := (convertObjects_ok_iff p).mpr
            ⟨desired, known, all.imp fun v w alone => (convertObject_ok_iff p).mp (alone p)⟩
          cases run.symm.trans converted
        · cases fails.symm.trans responded

/-- Tickets of both versions, the older one with a status. -/
def ticketPair : List Value :=
  [.object [("apiVersion", .text "example.com/v1"), ("spec", .object [("name", .text "Broken lamp")]),
      ("status", .object [("phase", .text "open")])],
    .object [("apiVersion", .text "example.com/v2"), ("spec", .object [("title", .text "Cold room")])]]

/-- A review that asks for tickets of both versions in the newer one. -/
def ticketPairReview : Value :=
  .object [("request", .object [("uid", .text "u-1"), ("desiredAPIVersion", .text "example.com/v2"),
    ("objects", .list ticketPair)])]

/-- What the answer to a review says of how it went. -/
def verdictOf? (answer : Value) : Option String :=
  match ((answer.get? "response").bind fun response => response.get? "result").bind
    fun result => result.get? "status" with
  | some (.text verdict) => some verdict
  | _ => none

/-- Two tickets of different versions are answered with both in the newer one. -/
theorem answer_all_or_nothing_ticket :
    ∃ g answer q objects, Generation.ofContainer ticket = .ok g ∧
      (Dispatcher.mk (.single g .standard) "example.com" "Ticket" true .standard).answer ticketPairReview
        (Progress.start none) = (.ok answer, q) ∧
      answer = .object [("apiVersion", .text apiVersion), ("kind", .text "ConversionReview"),
        ("response", successResponse "u-1" objects)] ∧
      List.Forall₂ (fun v w => ∃ before after, v = .map before ∧ w = .map after ∧
        (Dispatcher.mk (.single g .standard) "example.com" "Ticket" true .standard).Touches "example.com/v2"
          before after)
        ticketPair objects := by
  have succeeds : (Generation.ofContainer ticket).toOption.map (fun g =>
      ((Dispatcher.mk (.single g .standard) "example.com" "Ticket" true .standard).answer ticketPairReview
        (Progress.start none)).1.toOption.map verdictOf?) = some (some (some "Success")) := by decide +kernel
  obtain ⟨g, run, succeeds⟩ := exists_of_toOption_map succeeds
  obtain ⟨answer, answered, verdict⟩ := exists_of_toOption_map succeeds
  obtain ⟨response, rfl, outcome⟩ := answer_all_or_nothing (Prod.ext answered rfl)
  rcases outcome with ⟨id, cause, rfl, _⟩ | ⟨request, desired, objects, asks, known, rfl, all⟩
  · have other : "Failure" = "Success" := Option.some.inj verdict
    exact absurd other (by decide)
  · have read : requestOf ticketPairReview = .ok ⟨"u-1", "example.com/v2", ticketPair⟩ := rfl
    cases read.symm.trans (requestOf_eq_ok_iff.mpr asks)
    exact ⟨g, _, _, objects, run, Prod.ext answered rfl, rfl, all.imp fun v w both => both.2⟩

end Dispatcher

end Lineage.CustomResource
