import Lineage.Proofs.Conversion.Layers
import Lineage.Proofs.Conversion.Untouched
import Lineage.Service.Handlers

namespace Lineage

namespace CustomResource.Dispatcher

variable {ι κ : Type} {rt : Runtime ι} {rt' : Runtime κ} {group kind : String} {track : Bool} {room : Room}
  (own : rt.generation = rt'.generation)
include own

theorem versionOf_congr (field : String) (v : Value) :
    versionOf ⟨rt, group, kind, track, room⟩ field v = versionOf ⟨rt', group, kind, track, room⟩ field v := by
  simp only [versionOf, timeline, own]
  rfl

/-- The answer to a review depends on a runtime only by what is generated and how it converts. -/
theorem answer_congr (same : ∀ depths room, rt.convertOn depths room = rt'.convertOn depths room) (review : Value) :
    answer ⟨rt, group, kind, track, room⟩ review = answer ⟨rt', group, kind, track, room⟩ review := by
  have object (v : Value) (desired : String) : convertObject ⟨rt, group, kind, track, room⟩ v desired =
      convertObject ⟨rt', group, kind, track, room⟩ v desired := by
    cases v with
    | map fields =>
      simp only [convertObject, converter, versionOf_congr own, same]
      rfl
    | _ => rfl
  have objects (vs : List Value) (desired : Value) : convertObjects ⟨rt, group, kind, track, room⟩ vs desired =
      convertObjects ⟨rt', group, kind, track, room⟩ vs desired := by
    simp only [convertObjects, versionOf_congr own, object]
  simp only [answer, respond, objects]

/-- Two runtimes of a container have dispatchers that differ in the runtime only, or neither has one. -/
theorem ofRuntime_congr (group kind : Option String) (track : Bool) (room : Room) :
    (∃ name kind', ofRuntime rt group kind track room = .ok ⟨rt, name, kind', track, room⟩ ∧
        ofRuntime rt' group kind track room = .ok ⟨rt', name, kind', track, room⟩) ∨
      ∃ failure, ofRuntime rt group kind track room = .error failure ∧
        ofRuntime rt' group kind track room = .error failure := by
  simp only [ofRuntime, own]
  split
  · exact Or.inr ⟨_, rfl, rfl⟩
  · split
    · exact Or.inl ⟨_, _, rfl, rfl⟩
    · cases namesOf rt'.generation with
      | ok names => exact Or.inl ⟨_, _, rfl, rfl⟩
      | error failure => exact Or.inr ⟨failure, rfl, rfl⟩
    · exact Or.inl ⟨_, _, rfl, rfl⟩

end CustomResource.Dispatcher

namespace Service.Handler

/-- Answers a question by conversions of a runtime that is set up of the containers of the question. -/
def reviewingBy {ι : Type} (settings : Settings)
    (wire : Functions → List Generation → Generation → Runtime ι) (question : ReviewQuestion) :
    Handler Reply := do
  let g ← generating question.container
  let gs ← question.nested.mapM generating
  reviewing settings (wire (functionsOf settings) gs g) question.review

/-- Answers a question by conversions in which the containers of the question are nested in each other
down to a level. -/
def reviewingAt (level : Nat) (settings : Settings) : ReviewQuestion → Handler Reply :=
  reviewingBy settings fun functions gs => Runtime.layered functions gs level

/-- Answers a question by conversions in which all containers of the question are nested in each other. -/
def reviewingLinked (settings : Settings) : ReviewQuestion → Handler Reply :=
  reviewingBy settings Runtime.linked

theorem generating_of_ok {c : Container} {g : Generation} (run : Generation.ofContainer c = .ok g) :
    ∃ count : Metrics → Metrics, generating c = (do modify count; return g) := by
  refine ⟨fun m => m.generation c.kind .ok, ?_⟩
  rw [generating, run]
  rfl

theorem generating_all_of_ok {cs : List Container} {gs : List Generation}
    (runs : List.Forall₂ (fun c g => Generation.ofContainer c = .ok g) cs gs) :
    ∃ count : Metrics → Metrics, cs.mapM generating = (do modify count; return gs) := by
  induction runs with
  | nil => exact ⟨id, rfl⟩
  | cons run _ ih =>
    obtain ⟨first, made⟩ := generating_of_ok run
    obtain ⟨later, rest⟩ := ih
    refine ⟨later ∘ first, ?_⟩
    rw [List.mapM_cons, made, rest]
    rfl

theorem ending_bind {α β : Type} (e : Ending) (k : α → Handler β) : ending e >>= k = ending e :=
  rfl

/-- How a request ends for whose container there is no dispatcher. -/
def undispatched : Failure → Ending
  | .fault cause =>
    if cause.family = .value then .reply (.detail 400 (.text cause.message)) else .escape (.fault cause)
  | failure => .escape failure

theorem dispatching_of_error {ι : Type} {settings : Settings} {rt : Runtime ι} {failure : Failure}
    (fails : CustomResource.Dispatcher.ofRuntime rt none none settings.trackConversions .standard = .error failure) :
    dispatching settings rt = ending (undispatched failure) := by
  rw [dispatching, fails]
  cases failure with
  | fault cause => exact (apply_ite ending ..).symm
  | _ => rfl

/-- The answer to a review depends on a runtime only by what is generated, what is checked and how it
converts. -/
theorem reviewing_congr {ι κ : Type} {settings : Settings} {rt : Runtime ι} {rt' : Runtime κ}
    (own : rt.generation = rt'.generation) (checks : rt.checkFunctions = rt'.checkFunctions)
    (same : ∀ depths room, rt.convertOn depths room = rt'.convertOn depths room) (review : Value) :
    reviewing settings rt review = reviewing settings rt' review := by
  rcases CustomResource.Dispatcher.ofRuntime_congr own none none settings.trackConversions .standard with
    ⟨group, kind, first, second⟩ | ⟨failure, first, second⟩
  · have answers := @CustomResource.Dispatcher.answer_congr _ _ rt rt' group kind settings.trackConversions .standard
      own same review
    simp only [reviewing, checks, dispatching, first, second, pure_bind, answers]
  · simp only [reviewing, checks, dispatching_of_error first, dispatching_of_error second, ending_bind]

theorem convert_eq_reviewingAt (settings : Settings) (r : Request) :
    convert settings r = payload r Payload.review >>= reviewingAt 1 settings := by
  have one (g : Generation) (gs : List Generation) (review : Value) :
      reviewing settings (.star (functionsOf settings) g gs) review =
        reviewing settings (.layered (functionsOf settings) gs 1 g) review :=
    have own : (Runtime.star (functionsOf settings) g gs).generation =
        (Runtime.layered (functionsOf settings) gs 1 g).generation := rfl
    reviewing_congr own (Runtime.checkFunctions_star ..) (Runtime.convertOn_star _ g gs) review
  simp only [convert, wiring, bind_assoc, pure_bind, one]
  rfl

section Generated

variable {question : ReviewQuestion} {g : Generation} {gs : List Generation}
  (run : Generation.ofContainer question.container = .ok g)
  (runs : List.Forall₂ (fun c h => Generation.ofContainer c = .ok h) question.nested gs)
include run runs

/-- Answers are the same if they are by runtimes that convert alike and are checked alike. -/
theorem reviewingBy_congr {ι κ : Type} {settings : Settings}
    {wire : Functions → List Generation → Generation → Runtime ι}
    {wire' : Functions → List Generation → Generation → Runtime κ}
    (own : ∀ functions, (wire functions gs g).generation = (wire' functions gs g).generation)
    (checks : ∀ functions, (wire functions gs g).checkFunctions = (wire' functions gs g).checkFunctions)
    (same : ∀ functions depths room, (wire functions gs g).convertOn depths room =
      (wire' functions gs g).convertOn depths room) :
    reviewingBy settings wire question = reviewingBy settings wire' question := by
  obtain ⟨count, first⟩ := generating_of_ok run
  obtain ⟨counts, others⟩ := generating_all_of_ok runs
  have answers := @reviewing_congr _ _ settings _ _ (own (functionsOf settings)) (checks _) (same _) question.review
  simp only [reviewingBy, first, others, bind_assoc, pure_bind, answers]

theorem reviewingAt_add (settings : Settings) {level : Nat} (within : g.NestsWithin gs (level + 1))
    (more : Nat) :
    reviewingAt (level + 1 + more) settings question = reviewingAt (level + 1) settings question := by
  refine reviewingBy_congr run runs (fun functions => ?_) (fun functions => ?_) fun functions => ?_
  · rw [Runtime.layered_generation, Runtime.layered_generation]
  · exact Runtime.checkFunctions_layered level more g
  · exact Runtime.convertOn_layered within more

theorem reviewingLinked_eq (settings : Settings) {level : Nat} (within : g.NestsWithin gs (level + 1)) :
    reviewingLinked settings question = reviewingAt (level + 1) settings question := by
  refine reviewingBy_congr run runs (fun functions => ?_) (fun functions => ?_) fun functions => ?_
  · exact (Runtime.layered_generation _ g).symm
  · exact Runtime.checkFunctions_linked level g
  · exact Runtime.convertOn_linked within

/-- The containers of a request are nested in the one that is converted, and none in these, so that values
that are nested in nested values are left as they are. The answer is that of conversions in which all are
nested in each other if none of them has values that are nested in nested values. -/
theorem convert_nests_one_level (settings : Settings) :
    (∀ r, convert settings r = payload r Payload.review >>= reviewingAt 1 settings) ∧
      (∀ level, g.NestsWithin gs (level + 1) →
        (∀ more, reviewingAt (level + 1 + more) settings question = reviewingAt (level + 1) settings question) ∧
        reviewingLinked settings question = reviewingAt (level + 1) settings question) ∧
      ∀ type N, (Runtime.layered (functionsOf settings) gs 1 g).nested? type = some N → ∀ c ∈ question.nested,
        Generation.ofContainer c = .ok N.generation → c.kind = .struct → N.LeavesNested c := by
  refine ⟨convert_eq_reviewingAt settings, fun _ within =>
    ⟨reviewingAt_add run runs settings within, reviewingLinked_eq run runs settings within⟩, ?_⟩
  intro type N inner c _ made struct
  rw [Runtime.nested?_layered_succ] at inner
  obtain ⟨h, _, rfl⟩ := Option.map_eq_some_iff.mp inner
  exact Runtime.leavesNested_of_registered made struct rfl rfl

end Generated

/-- A container with a nested item, or with a text that had another name before. -/
def parcelPart (name : String) (item : Item) (resource : Option ResourceOptions) : Container where
  name := name
  kind := .struct
  doc := none
  versions := ["v1", "v2"].map Declaration.named
  items := [item]
  options := ⟨true, false⟩
  resource := resource

/-- A parcel with a buyer, who has a home, which has a postcode. -/
def parcelQuestion : ReviewQuestion where
  container := parcelPart "Parcel" ⟨"buyer", some "Buyer", none, none, true, none, [], none⟩
    (some ⟨"example.com", none, none, none, true, none, []⟩)
  nested := [parcelPart "Buyer" ⟨"home", some "Home", none, none, true, none, [], none⟩ none,
    parcelPart "Home" ⟨"postcode", some "str", none, none, false, none,
      [⟨"v2", some "zip", none, none, none⟩], none⟩ none]
  review := .object [("request", .object [("uid", .text "u-1"),
    ("desiredAPIVersion", .text "example.com/v2"),
    ("objects", .list [.object [("apiVersion", .text "example.com/v1"),
      ("spec", .object [("buyer", .object [("home", .object [("zip", .text "10115")])])])]])])]

theorem exists_parcel : ∃ g gs, Generation.ofContainer parcelQuestion.container = .ok g ∧
    List.Forall₂ (fun c h => Generation.ofContainer c = .ok h) parcelQuestion.nested gs ∧
    g.NestsWithin gs 2 := by
  have nests : (Generation.ofContainer parcelQuestion.container).toOption.bind (fun g =>
      (parcelQuestion.nested.mapM Generation.ofContainer).toOption.map fun gs =>
        decide (g.NestsWithin gs 2)) = some true := by decide +kernel
  obtain ⟨g, run⟩ := exists_of_isOk
    (show (Generation.ofContainer parcelQuestion.container).isOk = true by decide +kernel)
  rw [run] at nests
  obtain ⟨gs, runs, within⟩ := exists_of_toOption_map nests
  exact ⟨g, gs, run, forall₂_of_mapM runs, of_decide_eq_true within⟩

theorem convert_nests_one_level_parcel : ∃ g gs, Generation.ofContainer parcelQuestion.container = .ok g ∧
    List.Forall₂ (fun c h => Generation.ofContainer c = .ok h) parcelQuestion.nested gs ∧
    g.NestsWithin gs 2 ∧ ∀ settings,
      (∀ more, reviewingAt (2 + more) settings parcelQuestion = reviewingAt 2 settings parcelQuestion) ∧
      reviewingLinked settings parcelQuestion = reviewingAt 2 settings parcelQuestion := by
  obtain ⟨g, gs, run, runs, within⟩ := exists_parcel
  exact ⟨g, gs, run, runs, within, fun settings =>
    (convert_nests_one_level run runs settings).2.1 1 within⟩

/-- What stands for the home of a buyer in an answer, if that is a map with one text. -/
def homeOf? (result : Except Ending Reply) : Option (String × String) :=
  match result with
  | .ok ⟨_, .json v, _, _, _⟩ =>
    match inputAt v [.name "response", .name "convertedObjects", .index 0, .name "spec", .name "buyer",
      .name "home"] with
    | .map [(.text name, .text s)] => some (name, s)
    | _ => none
  | _ => none

/-- The home of a buyer keeps the form of the old version, while conversions that reach it give it that of
the new one. -/
theorem parcel_home_unconverted :
    homeOf? ((reviewingAt 1 (.ofEnvironment []) parcelQuestion).run Metrics.zero).1 = some ("zip", "10115") ∧
      (∀ more, homeOf? ((reviewingAt (2 + more) (.ofEnvironment []) parcelQuestion).run Metrics.zero).1 =
        some ("postcode", "10115")) ∧
      homeOf? ((reviewingLinked (.ofEnvironment []) parcelQuestion).run Metrics.zero).1 =
        some ("postcode", "10115") := by
  obtain ⟨g, gs, run, runs, within⟩ := exists_parcel
  have reached : homeOf? ((reviewingAt 2 (.ofEnvironment []) parcelQuestion).run Metrics.zero).1 =
      some ("postcode", "10115") := by decide +kernel
  refine ⟨by decide +kernel, fun more => ?_, ?_⟩
  · rw [reviewingAt_add run runs _ within more]
    exact reached
  · rw [reviewingLinked_eq run runs _ within]
    exact reached

end Service.Handler

end Lineage
