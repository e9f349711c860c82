import Lineage.Proofs.CustomResource.Object
import Lineage.Proofs.Traversal

namespace Lineage.CustomResource

/-- Why the identifier in a review cannot be given back as a text: it is nested too deeply, or it holds a
number that is too long. -/
inductive UnwritableId (room : Room) (review : Value) : Fault → Prop
  | deep {request id : Value} (asked : review.get? "request" = some request) (own : request.get? "uid" = some id)
      (truthy : id.truthy = true) (deep : ¬ room.Writes id) :
      UnwritableId room review (.tooDeep " while getting the repr of an object")
  | long {request id : Value} (asked : review.get? "request" = some request) (own : request.get? "uid" = some id)
      (truthy : id.truthy = true) (shallow : room.Writes id) (long : id.isTooLong = true) :
      UnwritableId room review .digitsWritten

/-- Whether a value answers a review: it is a review of its own, with a response that tells of success
or gives a message and a code. -/
def Answers (review answer : Value) : Prop :=
  ∃ response, answer = .object [("apiVersion", reviewVersion review), ("kind", .text "ConversionReview"),
      ("response", response)] ∧
    ((∃ id objects, response = successResponse id objects) ∨
      ∃ id cause, response = failureResponse id cause)

namespace Dispatcher

variable {ι : Type} {d : Dispatcher ι} {review : Value} {p : Progress}

/-- What ends a review without an answer: the identifier of a request that is not well formed cannot
be given back, or an object breaks after all those before it are converted. -/
inductive Breaks (d : Dispatcher ι) (review : Value) (p : Progress) : Failure → Prop
  | unwritable {lack : ConversionFault} {cause : Fault} (malformed : requestOf review = .error lack)
      (unwritable : UnwritableId d.room review cause) : Breaks d review p (.fault cause)
  | object {request : Request} {desired : String} {before after done : List Value} {v : Value}
      {q : Progress} {failure : Failure} (asked : requestOf review = .ok request)
      (known : d.versionOf "desiredAPIVersion" (.text request.desired) = .ok desired)
      (split : request.objects = before ++ v :: after)
      (converted : before.mapM (d.convertObject · desired) p = (.ok done, q))
      (breaks : d.ObjectBreaks desired q v failure) : Breaks d review p failure

theorem respond_of_ok {request : Request} {objects : List Value} {q : Progress}
    (converted : d.convertObjects request.objects (.text request.desired) p = (.ok objects, q)) :
    d.respond request p = (.ok (successResponse request.id objects), q) := by
  unfold respond
  rw [Run.bind_of_ok (Run.tryCatch_of_ok ((Run.bind_of_ok converted).trans rfl))]
  rfl

/-- A fault of a conversion is told in the response, and every other failure goes through. -/
theorem respond_of_error {request : Request} {failure : Failure} {q : Progress}
    (fails : d.convertObjects request.objects (.text request.desired) p = (.error failure, q)) :
    (∃ cause, failure = .conversion cause ∧
        d.respond request p = (.ok (failureResponse (.text request.id) cause), q)) ∨
      (∀ cause, failure ≠ .conversion cause) ∧ d.respond request p = (.error failure, q) := by
  unfold respond
  cases failure with
  | conversion cause =>
    refine Or.inl ⟨cause, rfl, ?_⟩
    rw [Run.bind_of_ok ((Run.tryCatch_of_error (Run.bind_of_error fails)).trans rfl)]
    rfl
  | _ =>
    refine Or.inr ⟨fun cause same => Failure.noConfusion same, ?_⟩
    rw [Run.bind_of_error ((Run.tryCatch_of_error (Run.bind_of_error fails)).trans rfl)]

/-- What an identifier or an object breaks with can escape from a conversion. -/
theorem Breaks.escapes {failure : Failure} (breaks : d.Breaks review p failure) :
    failure.Escapes d.runtime.Raises := by
  cases breaks with
  | unwritable _ unwritable =>
    cases unwritable with
    | deep => exact Failure.escapes_tooDeep ..
    | long => exact Or.inr (Or.inr (Or.inl rfl))
  | object _ _ _ _ breaks => exact breaks.escapes

/-- A container that can be served as a custom resource. -/
def ticket : Container where
  name := "Ticket"
  kind := .struct
  doc := none
  versions := ["v1", "v2"].map Declaration.named
  items := [⟨"title", some "str", none, none, false, none, [⟨"v2", some "name", none, none, none⟩], none⟩]
  options := ⟨true, false⟩
  resource := some ⟨"example.com", none, none, none, true, none, []⟩

end Dispatcher

end Lineage.CustomResource
