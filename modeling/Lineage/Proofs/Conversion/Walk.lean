import Lineage.Conversion.Runtime
import Lineage.Proofs.Conversion.Run
import Lineage.Proofs.Generation.Edges

namespace Lineage

namespace Generation

/-- Whether every edge between versions in a relation makes a value that suits the second version out
of any that suits the first, and leaves a tracker that goes with it. -/
def Carries (g : Generation) (depths : Depths) (functions : Functions) (place : String)
    (R : Release → Release → Prop) (before after : Release → Value → Option Tracker → Prop) : Prop :=
  ∀ r ∈ g.timeline.releases, ∀ s ∈ g.timeline.releases, R r s →
    ∀ e, g.edge? r.name s.name = some e → ∀ nesting v (p : Progress), before r v p.tracker →
      ∃ w q, Conversion.applyEdge depths functions nesting e v place p = (.ok w, q) ∧ after s w q.tracker

namespace Carries

variable {ι : Type} {rt : Runtime ι} {g : Generation} {depths : Depths} {place : String}
  {R : Release → Release → Prop} {before after : Release → Value → Option Tracker → Prop}
  (carries : g.Carries depths rt.functions place R before after)
  (again : ∀ r ∈ g.timeline.releases, ∀ v tracker, after r v tracker → before r v tracker)
include carries again

/-- Edges along a path end with a value that suits the last version; without any the value is left as
it is. -/
theorem alongEdges (convert : Runtime ι → Converter) {rs : List Release} {r : Release} {edges : List Edge}
    {v : Value} {p : Progress}
    (inside : ∀ s ∈ r :: rs, s ∈ g.timeline.releases) (chain : (r :: rs).IsChain R)
    (along : g.edgesAlong r.name rs = .ok edges) (fits : before r v p.tracker) :
    ∃ w q, Runtime.alongEdges (rt.applyBy depths convert) edges v place p = (.ok w, q) ∧
      (rs = [] ∧ w = v ∧ q = p ∨ rs ≠ [] ∧ after (rs.getLast?.getD r) w q.tracker) := by
  induction rs generalizing r edges v p with
  | nil =>
    cases along
    exact ⟨v, p, rfl, Or.inl ⟨rfl, rfl, rfl⟩⟩
  | cons s rest ih =>
    have atR := inside r (List.mem_cons_self ..)
    have later := (List.forall_mem_cons.mp inside).2
    have atS := later s (List.mem_cons_self ..)
    obtain ⟨pair, chain⟩ := List.isChain_cons_cons.mp chain
    obtain ⟨e, others, found, onward, rfl⟩ := edgesAlong_cons_eq_ok_iff.mp along
    obtain ⟨u, r', first, suits⟩ := carries r atR s atS pair e found
      (rt.follow convert e.source.name e.target.name) v p fits
    obtain ⟨w, q, run, reached⟩ := ih later chain onward (again s atS u r'.tracker suits)
    refine ⟨w, q, ?_, Or.inr ⟨List.cons_ne_nil s rest, ?_⟩⟩
    · rw [Runtime.alongEdges, List.foldlM_cons, Runtime.applyBy, Run.bind_of_ok first]
      exact run
    · rw [List.getLast?_cons, Option.getD_some]
      rcases reached with ⟨rfl, rfl, rfl⟩ | ⟨_, last⟩
      · exact suits
      · exact last

variable (generated : rt.generation = g) (sound : g.timeline.Sound) {start stop : Release}
  (atStart : start ∈ g.timeline.releases) (atStop : stop ∈ g.timeline.releases)
  (chain : (start :: g.timeline.pathBetween start stop).IsChain R)
include generated sound atStart atStop chain

/-- A conversion ends with a value that suits its last version, if its edges are all there. -/
theorem convert (room : Nat) {edges : List Edge} (along : g.edgesBetween start.name stop.name = .ok edges)
    {v : Value} {p : Progress} (fits : before start v p.tracker) :
    ∃ w q, rt.convertOn depths room start.name stop.name v place p = (.ok w, q) ∧
      (start = stop ∧ w = v ∧ q = p ∨ start ≠ stop ∧ after stop w q.tracker) := by
  have got : Run.ofExcept (rt.generation.edgesBetween start.name stop.name) p = (.ok edges, p) := by
    rw [Run.ofExcept_apply, generated, along]
  have inside := Timeline.forall_mem_cons_pathBetween atStart stop
  rw [edgesBetween_eq (sound.get_name atStart) (sound.get_name atStop)] at along
  obtain ⟨w, q, run, reached⟩ := carries.alongEdges again (Runtime.inside depths room) inside chain along fits
  refine ⟨w, q, ?_, ?_⟩
  · rw [Runtime.convertOn, Runtime.between, Run.bind_of_ok got]
    exact run
  · by_cases same : start = stop
    · subst same
      rw [Timeline.pathBetween_self] at reached
      rcases reached with ⟨_, kept⟩ | ⟨nonempty, _⟩
      · exact Or.inl ⟨rfl, kept⟩
      · exact absurd rfl nonempty
    · have last := sound.getLast?_pathBetween atStart atStop same
      rw [last, Option.getD_some] at reached
      rcases reached with ⟨empty, _⟩ | ⟨_, suits⟩
      · rw [empty] at last
        cases last
      · exact Or.inr ⟨same, suits⟩

theorem convert_of_ne (room : Nat) (apart : start ≠ stop) {edges : List Edge}
    (along : g.edgesBetween start.name stop.name = .ok edges) {v : Value} {p : Progress}
    (fits : before start v p.tracker) :
    ∃ w q, rt.convertOn depths room start.name stop.name v place p = (.ok w, q) ∧ after stop w q.tracker := by
  obtain ⟨w, q, run, ⟨same, _⟩ | ⟨_, suits⟩⟩ :=
    carries.convert again generated sound atStart atStop chain room along fits
  · exact absurd same apart
  · exact ⟨w, q, run, suits⟩

end Carries

end Generation

end Lineage
