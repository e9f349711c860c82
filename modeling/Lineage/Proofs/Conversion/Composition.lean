import Lineage.Proofs.Conversion.Direct

namespace Lineage

namespace Generation

/-- The edges along two paths, one after the other, are those along the first and those along the second. -/
theorem edgesAlong_append (g : Generation) (current : String) (xs ys : List Release) :
    g.edgesAlong current (xs ++ ys) = (g.edgesAlong current xs >>= fun first =>
      (first ++ ·) <$> g.edgesAlong (xs.getLast?.elim current (·.name)) ys) := by
  induction xs generalizing current with
  | nil =>
    simp only [List.nil_append, List.getLast?_nil, Option.elim_none, edgesAlong]
    cases g.edgesAlong current ys <;> rfl
  | cons step rest ih =>
    have last : (step :: rest).getLast?.elim current (·.name) =
        rest.getLast?.elim step.name (·.name) := by
      rw [List.getLast?_cons]
      cases rest.getLast? <;> rfl
    simp only [List.cons_append, edgesAlong, ih, last]
    cases g.edge? current step.name with
    | none => rfl
    | some e =>
      cases g.edgesAlong step.name rest with
      | error failure => rfl
      | ok first => cases g.edgesAlong (rest.getLast?.elim step.name (·.name)) ys <;> rfl

variable {g : Generation} {a b d : String} {start mid stop : Release}

/-- The edges over a version on the way are those up to it and those from there. -/
theorem edgesBetween_through (sound : g.timeline.Sound) (atStart : g.timeline.get a = .ok start)
    (atMid : g.timeline.get b = .ok mid) (atStop : g.timeline.get d = .ok stop)
    (through : start.rank ≤ mid.rank ∧ mid.rank ≤ stop.rank ∨
      stop.rank ≤ mid.rank ∧ mid.rank ≤ start.rank) :
    g.edgesBetween a d = (g.edgesBetween a b >>= fun first => (first ++ ·) <$> g.edgesBetween b d) := by
  have foundStart := Timeline.get_eq_ok_iff.mp atStart
  have foundMid := Timeline.get_eq_ok_iff.mp atMid
  have reached : (g.timeline.pathBetween start mid).getLast?.elim a (·.name) = b := by
    by_cases same : start = mid
    · subst same
      rw [Timeline.pathBetween_self, List.getLast?_nil, Option.elim_none,
        ← Timeline.name_of_find? foundStart, Timeline.name_of_find? foundMid]
    · rw [sound.getLast?_pathBetween (List.mem_of_find?_eq_some foundStart)
        (List.mem_of_find?_eq_some foundMid) same, Option.elim_some, Timeline.name_of_find? foundMid]
  rw [edgesBetween_eq atStart atStop, edgesBetween_eq atStart atMid, edgesBetween_eq atMid atStop,
    ← Timeline.pathBetween_append _ through, edgesAlong_append, reached]

end Generation

namespace Runtime

theorem alongEdges_append (apply : Edge → Value → (path : String) → Run Value) (xs ys : List Edge)
    (v : Value) (path : String) :
    alongEdges apply (xs ++ ys) v path = alongEdges apply xs v path >>= fun u => alongEdges apply ys u path :=
  List.foldlM_append

variable {ι : Type} {depths : Depths}

section Between

variable {rt : Runtime ι} {convert : Runtime ι → Converter} {a b : String}

theorem between_of_ok {edges : List Edge} (along : rt.generation.edgesBetween a b = .ok edges) (v : Value)
    (path : String) :
    rt.between depths convert a b v path = alongEdges (rt.applyBy depths convert) edges v path := by
  rw [between, along, Run.ofExcept_ok_bind]

theorem between_of_error {failure : Failure} (stops : rt.generation.edgesBetween a b = .error failure)
    (v : Value) (path : String) : rt.between depths convert a b v path = Run.ofExcept (.error failure) := by
  rw [between, stops, Run.ofExcept_error_bind]

end Between

theorem between_eq_ok_iff {rt : Runtime ι} {convert : Runtime ι → Converter} {a b : String} {v w : Value}
    {path : String} {p q : Progress} :
    rt.between depths convert a b v path p = (.ok w, q) ↔ ∃ edges, rt.generation.edgesBetween a b = .ok edges ∧
      alongEdges (rt.applyBy depths convert) edges v path p = (.ok w, q) := by
  cases along : rt.generation.edgesBetween a b with
  | error failure =>
    rw [between_of_error along, Run.ofExcept_apply]
    constructor
    · rintro ⟨⟩
    · rintro ⟨edges, ⟨⟩, _⟩
  | ok edges => simp [between_of_ok along]

/-- A conversion applies the edges on the way one after the other. -/
theorem convert_eq_ok_iff {rt : Runtime ι} {room : Nat} {a b : String} {v w : Value} {path : String}
    {p q : Progress} : rt.convert room a b v path p = (.ok w, q) ↔
      ∃ edges, rt.generation.edgesBetween a b = .ok edges ∧
        alongEdges (rt.apply room) edges v path p = (.ok w, q) :=
  between_eq_ok_iff

/-- Conversions compose: a conversion over a version on the way succeeds exactly if that to this
version succeeds and the one that goes on from there with what it left, and then they have the same
result and leave the same. -/
theorem convert_through {c : Container} {g : Generation} {rt : Runtime ι} {a b d : String}
    {start mid stop : Release} (run : Generation.ofContainer c = .ok g) (own : rt.generation = g)
    (atStart : g.timeline.get a = .ok start) (atMid : g.timeline.get b = .ok mid)
    (atStop : g.timeline.get d = .ok stop)
    (through : start.rank ≤ mid.rank ∧ mid.rank ≤ stop.rank ∨
      stop.rank ≤ mid.rank ∧ mid.rank ≤ start.rank)
    (room : Nat) (x : Value) (place : String) (p : Progress) (y : Value) (q : Progress) :
    rt.convert room a d x place p = (.ok y, q) ↔
      ∃ u r, rt.convert room a b x place p = (.ok u, r) ∧ rt.convert room b d u place r = (.ok y, q) := by
  subst own
  have sound := (Generation.made_of_ofContainer run).sound
  have parts := Generation.edgesBetween_through sound atStart atMid atStop through
  simp only [convert_eq_ok_iff]
  constructor
  · rintro ⟨edges, along, run⟩
    rw [parts] at along
    obtain ⟨first, before, along⟩ := exists_of_bind along
    obtain ⟨second, after, along⟩ := exists_of_bind along
    cases along
    rw [alongEdges_append, Run.bind_eq_ok_iff] at run
    obtain ⟨u, r, reached, rest⟩ := run
    exact ⟨u, r, ⟨first, before, reached⟩, second, after, rest⟩
  · rintro ⟨u, r, ⟨first, before, reached⟩, second, after, rest⟩
    refine ⟨first ++ second, ?_, ?_⟩
    · rw [parts, before, after]
      rfl
    · rw [alongEdges_append, Run.bind_eq_ok_iff]
      exact ⟨u, r, reached, rest⟩

/-- A value that is dropped on the way down is kept by the tracker of the whole way. -/
theorem convert_through_person :
    ∃ g start mid stop y q u r, Generation.ofContainer person = .ok g ∧
      g.timeline.get "v3" = .ok start ∧ g.timeline.get "v2" = .ok mid ∧ g.timeline.get "v1" = .ok stop ∧
      (stop.rank ≤ mid.rank ∧ mid.rank ≤ start.rank) ∧
      (single g .standard).convert 0 "v3" "v1" (.map [(.text "age", .int 36)]) ""
        (Progress.start (some .empty)) = (.ok y, q) ∧
      (single g .standard).convert 0 "v3" "v2" (.map [(.text "age", .int 36)]) ""
        (Progress.start (some .empty)) = (.ok u, r) ∧
      (single g .standard).convert 0 "v2" "v1" u "" r = (.ok y, q) := by
  have facts : (Generation.ofContainer person).toOption.map (fun g =>
      ((g.timeline.get "v3").toOption.map (·.rank), (g.timeline.get "v2").toOption.map (·.rank),
        (g.timeline.get "v1").toOption.map (·.rank),
        ((single g .standard).convert 0 "v3" "v1" (.map [(.text "age", .int 36)]) ""
          (Progress.start (some .empty))).1.isOk)) =
      some (some 2, some 1, some 0, true) := by decide +kernel
  obtain ⟨g, run⟩ := exists_of_isOk (show (Generation.ofContainer person).isOk = true by decide +kernel)
  rw [run] at facts
  simp only [Except.toOption, Option.map_some, Option.some.injEq, Prod.mk.injEq] at facts
  have ranked : ∀ {result : Except Failure Release} {rank : Nat},
      result.toOption.map (·.rank) = some rank → ∃ r, result = .ok r ∧ r.rank = rank := by
    intro result rank same
    cases result with
    | error failure => cases same
    | ok r => exact ⟨r, rfl, Option.some.inj same⟩
  obtain ⟨start, atStart, startRank⟩ := ranked facts.1
  obtain ⟨mid, atMid, midRank⟩ := ranked facts.2.1
  obtain ⟨stop, atStop, stopRank⟩ := ranked facts.2.2.1
  obtain ⟨y, direct⟩ := exists_of_isOk facts.2.2.2
  have down : stop.rank ≤ mid.rank ∧ mid.rank ≤ start.rank := by omega
  have whole : (single g .standard).convert 0 "v3" "v1" (.map [(.text "age", .int 36)]) ""
      (Progress.start (some .empty)) = (.ok y, _) := Prod.ext direct rfl
  obtain ⟨u, r, first, second⟩ := (@convert_through _ person g (single g .standard) "v3" "v2" "v1" start mid
    stop run rfl atStart atMid atStop (Or.inr down) 0 _ _ _ y _).mp whole
  exact ⟨g, start, mid, stop, y, _, u, r, run, atStart, atMid, atStop, down, whole, first, second⟩

end Runtime

end Lineage
