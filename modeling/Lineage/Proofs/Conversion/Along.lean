import Lineage.Proofs.Conversion.Hop
import Lineage.Proofs.Conversion.Walk

namespace Lineage.Generation

/-- Whether every edge between versions in a relation makes the instance of the second out of whatever
holds the values in the first. It leaves a tracker that suits the second if that before it suits the
first. -/
def Advances (c : Container) (g : Generation) (depths : Depths) (functions : Functions)
    (value : Item → Option Value) (place : String) (R : Release → Release → Prop)
    (inv : Release → Option Tracker → Prop) : Prop :=
  ∀ r ∈ g.timeline.releases, ∀ s ∈ g.timeline.releases, R r s →
    ∀ e, g.edge? r.name s.name = some e → ∀ fields, c.Holds g.timeline value r fields →
    ∀ nesting (p : Progress), inv r p.tracker →
      ∃ q, Conversion.applyEdge depths functions nesting e (.map fields) place p =
        (.ok (.map (c.instanceIn g.timeline value s)), q) ∧ inv s q.tracker

theorem Advances.carries {c : Container} {g : Generation} {depths : Depths} {functions : Functions}
    {value : Item → Option Value} {place : String} {R : Release → Release → Prop}
    {inv : Release → Option Tracker → Prop}
    (hop : g.Advances c depths functions value place R inv) :
    g.Carries depths functions place R
      (fun r v tracker => ∃ fields, v = .map fields ∧ c.Holds g.timeline value r fields ∧ inv r tracker)
      (fun s w tracker => w = .map (c.instanceIn g.timeline value s) ∧ inv s tracker) := by
  rintro r atR s atS pair e found nesting _ p ⟨fields, rfl, holds, fits⟩
  obtain ⟨q, run, still⟩ := hop r atR s atS pair e found fields holds nesting p fits
  exact ⟨_, q, run, rfl, still⟩

namespace Made

variable {c : Container} {g : Generation} {depths : Depths} (made : Made c g)
include made

variable {ι : Type} {rt : Runtime ι} {value : Item → Option Value} {place : String}
  {R : Release → Release → Prop} {inv : Release → Option Tracker → Prop}

/-- An instance that an edge has made holds the values that the next one needs. -/
theorem holds_again (inv : Release → Option Tracker → Prop) : ∀ s ∈ g.timeline.releases, ∀ (w : Value) tracker,
    w = .map (c.instanceIn g.timeline value s) ∧ inv s tracker →
      ∃ fields, w = .map fields ∧ c.Holds g.timeline value s fields ∧ inv s tracker := by
  rintro s atS _ tracker ⟨rfl, fits⟩
  exact ⟨_, rfl, made.holds_instanceIn atS value, fits⟩

/-- Edges make the instance of the version where they end, if each of them makes that of the next
version and leaves a tracker that suits it. -/
theorem alongEdges_run (convert : Runtime ι → Converter) (place : String)
    (inv : Release → Option Tracker → Prop) (hop : g.Advances c depths rt.functions value place R inv)
    {rs : List Release} {r : Release} {edges : List Edge} {fields : Entries Value Value} {p : Progress}
    (inside : ∀ s ∈ r :: rs, s ∈ g.timeline.releases) (chain : (r :: rs).IsChain R)
    (along : g.edgesAlong r.name rs = .ok edges) (holds : c.Holds g.timeline value r fields)
    (start : inv r p.tracker) :
    ∃ q, Runtime.alongEdges (rt.applyBy depths convert) edges (.map fields) place p =
      (.ok (.map (rs.getLast?.elim fields (c.instanceIn g.timeline value))), q) ∧
      inv (rs.getLast?.getD r) q.tracker := by
  obtain ⟨w, q, run, reached⟩ := hop.carries.alongEdges (made.holds_again inv) convert
    inside chain along ⟨fields, rfl, holds, start⟩
  rcases reached with ⟨rfl, rfl, rfl⟩ | ⟨nonempty, rfl, left⟩
  · exact ⟨q, run, start⟩
  · refine ⟨q, ?_, left⟩
    obtain ⟨last, ends⟩ := Option.ne_none_iff_exists'.mp (mt List.getLast?_eq_none_iff.mp nonempty)
    rw [ends] at run ⊢
    exact run

/-- A conversion between two versions makes the instance of the second, if each edge on the path makes
that of the next version and leaves a tracker that suits it. -/
theorem convert_run (generated : rt.generation = g) (room : Nat) (place : String)
    (inv : Release → Option Tracker → Prop) (hop : g.Advances c depths rt.functions value place R inv)
    {start stop : Release} (atStart : start ∈ g.timeline.releases) (atStop : stop ∈ g.timeline.releases)
    (apart : start ≠ stop) (chain : (start :: g.timeline.pathBetween start stop).IsChain R)
    {edges : List Edge} (along : g.edgesBetween start.name stop.name = .ok edges)
    {fields : Entries Value Value} (holds : c.Holds g.timeline value start fields) {p : Progress}
    (fits : inv start p.tracker) :
    ∃ q, rt.convertOn depths room start.name stop.name (.map fields) place p =
      (.ok (.map (c.instanceIn g.timeline value stop)), q) ∧ inv stop q.tracker := by
  obtain ⟨_, q, run, rfl, left⟩ := hop.carries.convert_of_ne (made.holds_again inv) generated made.sound
    atStart atStop chain room apart along ⟨fields, rfl, holds, fits⟩
  exact ⟨q, run, left⟩

end Made

end Lineage.Generation
