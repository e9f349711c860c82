import Lineage.Proofs.Generation
import Lineage.Proofs.Timeline.Path

namespace Lineage

namespace Direction

/-- The way on which a version is reached from another. -/
def toward (start stop : Release) : Direction :=
  if start.rank < stop.rank then .upgrade else .downgrade

/-- Whether a version is met on the way no later than another. -/
def Reaches : Direction → Release → Release → Prop
  | .upgrade, r, s => r.rank ≤ s.rank
  | .downgrade, r, s => s.rank ≤ r.rank

/-- Whether a version is the next one on the way after another. -/
def Steps : Direction → Release → Release → Prop
  | .upgrade, r, s => s.rank = r.rank + 1
  | .downgrade, r, s => r.rank = s.rank + 1

/-- The older of two versions that follow each other on the way. -/
def older : Direction → Release → Release → Release
  | .upgrade, r, _ => r
  | .downgrade, _, s => s

/-- The newer of two versions that follow each other on the way. -/
def newer : Direction → Release → Release → Release
  | .upgrade, _, s => s
  | .downgrade, r, _ => r

/-- Whether a step from `r` to `s` is one of those that lead from a start to a stop. -/
structure Passes (d : Direction) (start stop r s : Release) : Prop where
  since : d.Reaches start r
  step : d.Steps r s
  upTo : d.Reaches s stop

variable {d : Direction} {r s stop u v : Release}

theorem toward_of_lt {start : Release} (below : start.rank < stop.rank) :
    toward start stop = .upgrade ∧ toward stop start = .downgrade :=
  ⟨if_pos below, if_neg (Nat.not_lt.mpr below.le)⟩

theorem eq_of_steps {d d' : Direction} (first : d.Steps r s) (second : d'.Steps r s) : d = d' := by
  have apart : ¬ (s.rank = r.rank + 1 ∧ r.rank = s.rank + 1) := by omega
  cases d with
  | upgrade =>
    cases d' with
    | upgrade => rfl
    | downgrade => exact absurd ⟨first, second⟩ apart
  | downgrade =>
    cases d' with
    | upgrade => exact absurd ⟨second, first⟩ apart
    | downgrade => rfl

theorem reaches_self (d : Direction) (r : Release) : d.Reaches r r := by
  cases d <;> exact le_rfl

theorem reaches_trans (d : Direction) (first : d.Reaches r s) (second : d.Reaches s u) :
    d.Reaches r u := by
  cases d with
  | upgrade => exact Nat.le_trans first second
  | downgrade => exact Nat.le_trans second first

theorem reaches_of_steps (d : Direction) (step : d.Steps r s) : d.Reaches r s := by
  cases d <;> simp only [Steps, Reaches] at step ⊢ <;> omega

theorem reaches_last {rs : List Release} (chain : (r :: rs).IsChain d.Steps) :
    d.Reaches r (rs.getLast?.getD r) := by
  induction rs generalizing r with
  | nil => exact d.reaches_self r
  | cons s rest ih =>
    obtain ⟨step, later⟩ := List.isChain_cons_cons.mp chain
    rw [List.getLast?_cons, Option.getD_some]
    exact d.reaches_trans (d.reaches_of_steps step) (ih later)

theorem not_passes_self (d : Direction) (r u v : Release) : ¬ d.Passes r r u v := by
  rintro ⟨since, step, upTo⟩
  cases d <;> simp only [Reaches, Steps] at since step upTo <;> omega

/-- The steps from a start are that to the next version, and those from there. -/
theorem passes_iff_of_steps (step : d.Steps r s) (reaches : d.Reaches s stop) :
    d.Passes r stop u v ↔ u.rank = r.rank ∧ v.rank = s.rank ∨ d.Passes s stop u v := by
  constructor
  · rintro ⟨since, next, upTo⟩
    by_cases here : u.rank = r.rank
    · refine Or.inl ⟨here, ?_⟩
      cases d <;> simp only [Steps] at step next <;> omega
    · refine Or.inr ⟨?_, next, upTo⟩
      cases d <;> simp only [Reaches, Steps] at since step ⊢ <;> omega
  · rintro (⟨first, second⟩ | ⟨since, next, upTo⟩)
    · cases d <;> constructor <;> simp only [Reaches, Steps] at step reaches ⊢ <;> omega
    · refine ⟨?_, next, upTo⟩
      cases d <;> simp only [Reaches, Steps] at since step ⊢ <;> omega

theorem passes_of_isChain {rs : List Release} (chain : (r :: rs).IsChain d.Steps) :
    (r :: rs).IsChain (d.Passes r (rs.getLast?.getD r)) := by
  induction rs generalizing r with
  | nil => exact .singleton r
  | cons s rest ih =>
    obtain ⟨step, later⟩ := List.isChain_cons_cons.mp chain
    have reaches := reaches_last later
    rw [List.getLast?_cons, Option.getD_some, List.isChain_cons_cons]
    refine ⟨⟨d.reaches_self r, step, reaches⟩, (ih later).imp fun u v passes => ?_⟩
    exact (passes_iff_of_steps step reaches).mpr (Or.inr passes)

/-- No step leads below both versions between which it lies. -/
theorem Passes.le_target {start : Release} (passes : d.Passes start stop u v) :
    start.rank ≤ v.rank ∨ stop.rank ≤ v.rank := by
  obtain ⟨since, step, upTo⟩ := passes
  cases d with
  | upgrade =>
    have next : v.rank = u.rank + 1 := step
    exact Or.inl (le_trans since (by omega))
  | downgrade => exact Or.inr upTo

/-- The older version of a step on the way between two stands between them. -/
theorem Passes.older_between {start : Release} {rs : List Release} (passes : d.Passes start stop u v)
    (atU : u ∈ rs) (atV : v ∈ rs) :
    d.older u v ∈ rs ∧ min start.rank stop.rank ≤ (d.older u v).rank ∧
      (d.older u v).rank < max start.rank stop.rank := by
  obtain ⟨since, step, upTo⟩ := passes
  cases d with
  | upgrade =>
    simp only [Reaches, Steps, older] at since step upTo ⊢
    exact ⟨atU, by omega, by omega⟩
  | downgrade =>
    simp only [Reaches, Steps, older] at since step upTo ⊢
    exact ⟨atV, by omega, by omega⟩

end Direction

theorem Edge.Made.ends {c : Container} {t : Timeline} {older newer : Release} {e : Edge}
    (own : Edge.Made c t older newer e) :
    e.direction = .upgrade ∧ e.source = older ∧ e.target = newer ∨
      e.direction = .downgrade ∧ e.source = newer ∧ e.target = older := by
  cases own with
  | structUpgrade | enumUpgrade => exact Or.inl ⟨rfl, rfl, rfl⟩
  | structDowngrade | enumDowngrade => exact Or.inr ⟨rfl, rfl, rfl⟩

/-- There is one edge between two versions in each direction. -/
theorem Edge.Made.eq_of_direction {c : Container} {t : Timeline} {older newer : Release} {e f : Edge}
    (first : Edge.Made c t older newer e) (second : Edge.Made c t older newer f)
    (same : e.direction = f.direction) : e = f := by
  cases first with
  | structUpgrade kind =>
    cases second with
    | structUpgrade => rfl
    | structDowngrade => cases same
    | enumUpgrade other | enumDowngrade other => cases kind.symm.trans other
  | structDowngrade kind =>
    cases second with
    | structUpgrade => cases same
    | structDowngrade => rfl
    | enumUpgrade other | enumDowngrade other => cases kind.symm.trans other
  | enumUpgrade kind =>
    cases second with
    | structUpgrade other | structDowngrade other => cases kind.symm.trans other
    | enumUpgrade => rfl
    | enumDowngrade => cases same
  | enumDowngrade kind steps each =>
    cases second with
    | structUpgrade other | structDowngrade other => cases kind.symm.trans other
    | enumUpgrade => cases same
    | enumDowngrade _ others every =>
      rw [(eq_map_of_forall₂ each).1, (eq_map_of_forall₂ every).1]

/-- Whether an edge is generated from a version to the next one on its way. -/
structure Edge.Joins (c : Container) (t : Timeline) (r s : Release) (e : Edge) : Prop where
  source : e.source = r
  target : e.target = s
  step : e.direction.Steps r s
  converts : c.Converts (e.direction.older r s)
  made : Edge.Made c t (e.direction.older r s) (e.direction.newer r s) e

/-- Whether edges lead from one version to another, each from where the one before it has led. -/
inductive Edge.Leads : Release → Release → List Edge → Prop
  | stop (r : Release) : Leads r r []
  | step {e : Edge} {stop : Release} {edges : List Edge} : Leads e.target stop edges →
      Leads e.source stop (e :: edges)

namespace Timeline.Sound

variable {t : Timeline} (sound : t.Sound) {start stop : Release} (atStart : start ∈ t.releases)
include sound atStart

theorem pathBetween_steps (stop : Release) :
    (start :: t.pathBetween start stop).IsChain (Direction.toward start stop).Steps := by
  unfold Direction.toward
  split
  · rename_i up
    exact (sound.pathBetween_climbs atStart up.le).imp fun r s hop => hop.2.1
  · rename_i down
    exact sound.pathBetween_descends atStart (Nat.not_lt.mp down)

variable (atStop : stop ∈ t.releases)
include atStop

/-- Every version from the older of two up to before the newer is the older one of a step. -/
theorem passes_of_older {r : Release} (atR : r ∈ t.releases) (above : min start.rank stop.rank ≤ r.rank)
    (below : r.rank < max start.rank stop.rank) :
    ∃ u ∈ t.releases, ∃ v ∈ t.releases, (Direction.toward start stop).Passes start stop u v ∧
      (Direction.toward start stop).older u v = r := by
  have first := sound.rank_lt atStart
  have last := sound.rank_lt atStop
  obtain ⟨s, atS, next⟩ := sound.exists_rank (show r.rank + 1 < t.releases.length by omega)
  unfold Direction.toward
  split
  · exact ⟨r, atR, s, atS, ⟨show start.rank ≤ r.rank by omega, next, show s.rank ≤ stop.rank by omega⟩, rfl⟩
  · exact ⟨s, atS, r, atR, ⟨show s.rank ≤ start.rank by omega, next, show stop.rank ≤ r.rank by omega⟩, rfl⟩

theorem getLast?_pathBetween_getD : (t.pathBetween start stop).getLast?.getD start = stop := by
  by_cases same : start = stop
  · rw [same, pathBetween_self]
    rfl
  · rw [sound.getLast?_pathBetween atStart atStop same, Option.getD_some]

theorem pathBetween_passes : (start :: t.pathBetween start stop).IsChain
    ((Direction.toward start stop).Passes start stop) := by
  have chain := Direction.passes_of_isChain (sound.pathBetween_steps atStart stop)
  rwa [sound.getLast?_pathBetween_getD atStart atStop] at chain

omit atStart in
/-- What holds of a version, and of one that comes before it on a way there if it holds of the next one,
holds of all versions. -/
theorem toward_induction {P : Release → Prop} (last : P stop)
    (step : ∀ d : Direction, ∀ r ∈ t.releases, ∀ s ∈ t.releases, d.Steps r s →
      r.rank ≤ s.rank ∧ s.rank ≤ stop.rank ∨ stop.rank ≤ s.rank ∧ s.rank ≤ r.rank → P s → P r) :
    ∀ r ∈ t.releases, P r := by
  intro r atR
  -- The induction is on the number of steps that are left.
  generalize distance : max r.rank stop.rank - min r.rank stop.rank = steps
  have bound := sound.rank_lt atStop
  induction steps generalizing r with
  | zero =>
    have same : r = stop := sound.eq_of_rank atR atStop (by omega)
    exact same ▸ last
  | succ steps ih =>
    have inside := sound.rank_lt atR
    by_cases up : r.rank < stop.rank
    · obtain ⟨s, atS, rank⟩ := sound.exists_rank (show r.rank + 1 < t.releases.length by omega)
      exact step .upgrade r atR s atS rank (Or.inl ⟨by omega, by omega⟩) (ih s atS (by omega))
    · obtain ⟨s, atS, rank⟩ := sound.exists_rank (show r.rank - 1 < t.releases.length by omega)
      have next : r.rank = s.rank + 1 := by omega
      exact step .downgrade r atR s atS next (Or.inr ⟨by omega, by omega⟩) (ih s atS (by omega))

end Timeline.Sound

namespace Generation

theorem edgesBetween_eq {g : Generation} {a b : String} {start stop : Release}
    (atStart : g.timeline.get a = .ok start) (atStop : g.timeline.get b = .ok stop) :
    g.edgesBetween a b = g.edgesAlong a (g.timeline.pathBetween start stop) := by
  rw [edgesBetween, Timeline.path, atStart, atStop]
  rfl

theorem edgesAlong_cons_eq_ok_iff {g : Generation} {current : String} {step : Release}
    {rest : List Release} {edges : List Edge} :
    g.edgesAlong current (step :: rest) = .ok edges ↔ ∃ e later, g.edge? current step.name = some e ∧
      g.edgesAlong step.name rest = .ok later ∧ edges = e :: later := by
  rw [edgesAlong]
  cases g.edge? current step.name with
  | none => simp
  | some e =>
    cases g.edgesAlong step.name rest with
    | error failure => simp [bind, Except.bind]
    | ok later => simp [bind, Except.bind, pure, Except.pure, eq_comm]

/-- A path fails at its first step if there is no edge, and else where its rest does. -/
theorem edgesAlong_cons_eq_error_iff {g : Generation} {current : String} {step : Release}
    {rest : List Release} {failure : Failure} :
    g.edgesAlong current (step :: rest) = .error failure ↔
      g.edge? current step.name = none ∧ failure = .conversion (.missingEdge current step.name) ∨
      g.edge? current step.name ≠ none ∧ g.edgesAlong step.name rest = .error failure := by
  rw [edgesAlong]
  cases g.edge? current step.name with
  | none => simp [eq_comm]
  | some e =>
    cases g.edgesAlong step.name rest with
    | error failure => simp [bind, Except.bind]
    | ok later => simp [bind, Except.bind, pure, Except.pure]

/-- Whether there is an edge for every step from a version to another. -/
def Covers (g : Generation) (d : Direction) (start stop : Release) : Prop :=
  ∀ r ∈ g.timeline.releases, ∀ s ∈ g.timeline.releases, d.Passes start stop r s →
    ∃ e, g.edge? r.name s.name = some e

/-- Whether a step is the first on the way from a version to another that has no edge. -/
structure Breaks (g : Generation) (d : Direction) (start stop r s : Release) : Prop where
  source : r ∈ g.timeline.releases
  target : s ∈ g.timeline.releases
  passes : d.Passes start stop r s
  missing : g.edge? r.name s.name = none
  covered : g.Covers d start r

section Steps

variable {g : Generation} (sound : g.timeline.Sound) {d : Direction} {r s stop : Release}
  (atR : r ∈ g.timeline.releases) (atS : s ∈ g.timeline.releases) (step : d.Steps r s)
include sound atR atS step

theorem covers_iff_of_steps (reaches : d.Reaches s stop) :
    g.Covers d r stop ↔ (∃ e, g.edge? r.name s.name = some e) ∧ g.Covers d s stop := by
  constructor
  · intro covers
    refine ⟨covers r atR s atS ⟨d.reaches_self r, step, reaches⟩, fun u atU v atV passes => ?_⟩
    exact covers u atU v atV ((Direction.passes_iff_of_steps step reaches).mpr (Or.inr passes))
  · rintro ⟨first, others⟩ u atU v atV passes
    rcases (Direction.passes_iff_of_steps step reaches).mp passes with ⟨sameR, sameS⟩ | later
    · rwa [sound.eq_of_rank atU atR sameR, sound.eq_of_rank atV atS sameS]
    · exact others u atU v atV later

theorem Breaks.cons {u v : Release} (first : ∃ e, g.edge? r.name s.name = some e)
    (breaks : g.Breaks d s stop u v) : g.Breaks d r stop u v := by
  have reaches : d.Reaches s stop := d.reaches_trans breaks.passes.since
    (d.reaches_trans (d.reaches_of_steps breaks.passes.step) breaks.passes.upTo)
  refine ⟨breaks.source, breaks.target, ?_, breaks.missing, ?_⟩
  · exact (Direction.passes_iff_of_steps step reaches).mpr (Or.inr breaks.passes)
  · exact (covers_iff_of_steps sound atR atS step breaks.passes.since).mpr ⟨first, breaks.covered⟩

end Steps

namespace Made

variable {c : Container} {g : Generation} (made : Made c g)
include made

theorem joins_of_mem {e : Edge} (member : e ∈ g.edges) :
    ∃ r ∈ g.timeline.releases, ∃ s ∈ g.timeline.releases, e.Joins c g.timeline r s := by
  obtain ⟨older, newer, adjacent, converts, own⟩ := made.converted_of_mem member
  obtain ⟨atOlder, atNewer, next⟩ := made.sound.mem_adjacentPairs.mp adjacent
  rcases own.ends with ⟨up, source, target⟩ | ⟨down, source, target⟩
  · exact ⟨older, atOlder, newer, atNewer, source, target, by rwa [up], by rwa [up], by rwa [up]⟩
  · exact ⟨newer, atNewer, older, atOlder, source, target, by rwa [down], by rwa [down], by rwa [down]⟩

variable {d : Direction} {r s : Release} (atR : r ∈ g.timeline.releases) (atS : s ∈ g.timeline.releases)

include atR atS in
theorem edge_found {e : Edge} (found : g.edge? r.name s.name = some e) : e.Joins c g.timeline r s := by
  have connects := List.find?_some found
  obtain ⟨u, atU, v, atV, joins⟩ := made.joins_of_mem (List.mem_of_find?_eq_some found)
  simp only [Edge.connects, Bool.and_eq_true, beq_iff_eq, joins.source, joins.target] at connects
  -- Names are distinct, so the edge that has them is between these versions.
  cases made.sound.eq_of_name atU atR connects.1
  cases made.sound.eq_of_name atV atS connects.2
  exact joins

/-- An edge is found by the names of its versions. -/
theorem edge?_of_mem {e : Edge} (member : e ∈ g.edges) :
    g.edge? e.source.name e.target.name = some e := by
  obtain ⟨r, atR, s, atS, joins⟩ := made.joins_of_mem member
  rw [joins.source, joins.target]
  have present : (g.edge? r.name s.name).isSome = true :=
    List.find?_isSome.mpr ⟨e, member, by simp [Edge.connects, joins.source, joins.target]⟩
  obtain ⟨f, found⟩ := Option.isSome_iff_exists.mp present
  have other := made.edge_found atR atS found
  have direction := Direction.eq_of_steps joins.step other.step
  have own := other.made
  rw [← direction] at own
  rw [found, joins.made.eq_of_direction own direction]

theorem names_apart_of_mem {e : Edge} (member : e ∈ g.edges) : e.source.name ≠ e.target.name := by
  obtain ⟨r, atR, s, atS, joins⟩ := made.joins_of_mem member
  rw [joins.source, joins.target]
  intro same
  have hop := joins.step
  cases made.sound.eq_of_name atR atS same
  cases way : e.direction <;> simp [way, Direction.Steps] at hop

include atR atS

/-- Between two versions that follow each other there is an edge unless the older one is skipped from. -/
theorem exists_edge?_iff (step : d.Steps r s) :
    (∃ e, g.edge? r.name s.name = some e) ↔ c.Converts (d.older r s) := by
  constructor
  · rintro ⟨e, found⟩
    have joins := made.edge_found atR atS found
    rw [← Direction.eq_of_steps joins.step step]
    exact joins.converts
  · intro converts
    have adjacent : ∃ e ∈ g.edges, e.source = r ∧ e.target = s := by
      cases d with
      | upgrade =>
        have pair := made.sound.mem_adjacentPairs.mpr ⟨atR, atS, step⟩
        obtain ⟨e, listed, own, up⟩ := made.exists_edge pair converts .upgrade
        rcases own.ends with ⟨_, ends⟩ | ⟨down, _⟩
        · exact ⟨e, listed, ends⟩
        · cases up.symm.trans down
      | downgrade =>
        have pair := made.sound.mem_adjacentPairs.mpr ⟨atS, atR, step⟩
        obtain ⟨e, listed, own, down⟩ := made.exists_edge pair converts .downgrade
        rcases own.ends with ⟨up, _⟩ | ⟨_, ends⟩
        · cases up.symm.trans down
        · exact ⟨e, listed, ends⟩
    obtain ⟨e, listed, rfl, rfl⟩ := adjacent
    exact Option.isSome_iff_exists.mp (List.find?_isSome.mpr ⟨e, listed, by simp [Edge.connects]⟩)

/-- Every step between two versions has an edge if the container skips none of its conversions, and
neither does a version from the older one up to before the newer one. -/
theorem covers_toward_iff : g.Covers (Direction.toward r s) r s ↔ r = s ∨ c.options.skipFrom = false ∧
    ∀ u ∈ g.timeline.releases, min r.rank s.rank ≤ u.rank → u.rank < max r.rank s.rank →
      u.skipFrom = false := by
  constructor
  · intro covers
    have converts : ∀ u ∈ g.timeline.releases, min r.rank s.rank ≤ u.rank →
        u.rank < max r.rank s.rank → c.Converts u := by
      intro u atU above below
      obtain ⟨v, atV, w, atW, passes, rfl⟩ := made.sound.passes_of_older atR atS atU above below
      exact (made.exists_edge?_iff atV atW passes.step).mp (covers v atV w atW passes)
    by_cases same : r = s
    · exact Or.inl same
    · have apart : r.rank ≠ s.rank := fun ranks => same (made.sound.eq_of_rank atR atS ranks)
      obtain ⟨u, atU, lowest⟩ : ∃ u ∈ g.timeline.releases, u.rank = min r.rank s.rank := by
        rcases le_total r.rank s.rank with first | second
        · exact ⟨r, atR, (min_eq_left first).symm⟩
        · exact ⟨s, atS, (min_eq_right second).symm⟩
      refine Or.inr ⟨(converts u atU (by omega) (by omega)).1, fun v atV above below => ?_⟩
      exact (converts v atV above below).2
  · rintro (rfl | ⟨kept, each⟩) u atU v atV passes
    · exact absurd passes (Direction.not_passes_self _ r u v)
    · obtain ⟨older, above, below⟩ := passes.older_between atU atV
      exact (made.exists_edge?_iff atU atV passes.step).mpr ⟨kept, each _ older above below⟩

end Made

section Along

variable {c : Container} {g : Generation} (made : Made c g) {d : Direction} {rs : List Release}
  {r : Release} (inside : ∀ s ∈ r :: rs, s ∈ g.timeline.releases) (chain : (r :: rs).IsChain d.Steps)
include made inside chain

/-- Edges along a path lead from its start to its end, one for each step. -/
theorem Made.edgesAlong_leads {edges : List Edge} (along : g.edgesAlong r.name rs = .ok edges) :
    Edge.Leads r (rs.getLast?.getD r) edges ∧ edges.length = rs.length ∧
      (∀ e ∈ edges, e.direction = d) ∧ g.Covers d r (rs.getLast?.getD r) := by
  induction rs generalizing r edges with
  | nil =>
    cases along
    exact ⟨.stop r, rfl, by simp, fun u _ v _ passes => absurd passes (d.not_passes_self r u v)⟩
  | cons s rest ih =>
    have atR := inside r (List.mem_cons_self ..)
    obtain ⟨atS, _⟩ := List.forall_mem_cons.mp (List.forall_mem_cons.mp inside).2
    obtain ⟨step, later⟩ := List.isChain_cons_cons.mp chain
    obtain ⟨e, others, found, after, rfl⟩ := edgesAlong_cons_eq_ok_iff.mp along
    obtain ⟨rfl, rfl, steps, _, _⟩ := made.edge_found atR atS found
    obtain ⟨leads, length, directed, covers⟩ := ih (List.forall_mem_cons.mp inside).2 later after
    rw [List.getLast?_cons, Option.getD_some]
    refine ⟨.step leads, by rw [List.length_cons, length, List.length_cons], ?_, ?_⟩
    · exact List.forall_mem_cons.mpr ⟨Direction.eq_of_steps steps step, directed⟩
    · exact (covers_iff_of_steps made.sound atR atS step (Direction.reaches_last later)).mpr
        ⟨⟨e, found⟩, covers⟩

/-- Without edges along a path one of its steps has none, and the first of those is named. -/
theorem Made.edgesAlong_breaks {failure : Failure} (along : g.edgesAlong r.name rs = .error failure) :
    ∃ u v, g.Breaks d r (rs.getLast?.getD r) u v ∧
      failure = .conversion (.missingEdge u.name v.name) := by
  induction rs generalizing r with
  | nil => cases along
  | cons s rest ih =>
    have atR := inside r (List.mem_cons_self ..)
    obtain ⟨atS, _⟩ := List.forall_mem_cons.mp (List.forall_mem_cons.mp inside).2
    obtain ⟨step, later⟩ := List.isChain_cons_cons.mp chain
    rw [List.getLast?_cons, Option.getD_some]
    -- Either this step has no edge and none comes before it, or the first one is among the others.
    rcases edgesAlong_cons_eq_error_iff.mp along with ⟨missing, same⟩ | ⟨present, after⟩
    · refine ⟨r, s, ⟨atR, atS, ⟨d.reaches_self r, step, Direction.reaches_last later⟩, missing, ?_⟩, same⟩
      exact fun u _ v _ passes => absurd passes (d.not_passes_self r u v)
    · obtain ⟨u, v, breaks, same⟩ := ih (List.forall_mem_cons.mp inside).2 later after
      exact ⟨u, v, breaks.cons made.sound atR atS step (Option.ne_none_iff_exists'.mp present), same⟩

end Along

section Between

variable {c : Container} {g : Generation} (made : Made c g) {start stop : Release}
  (atStart : start ∈ g.timeline.releases) (atStop : stop ∈ g.timeline.releases)
include made atStart atStop

theorem Made.edgesBetween_leads {edges : List Edge}
    (along : g.edgesBetween start.name stop.name = .ok edges) :
    Edge.Leads start stop edges ∧
      edges.length = max start.rank stop.rank - min start.rank stop.rank ∧
      (∀ e ∈ edges, e.direction = Direction.toward start stop) ∧
      g.Covers (Direction.toward start stop) start stop := by
  rw [edgesBetween_eq (made.sound.get_name atStart) (made.sound.get_name atStop)] at along
  have inside := Timeline.forall_mem_cons_pathBetween atStart stop
  have leads := made.edgesAlong_leads inside (made.sound.pathBetween_steps atStart stop) along
  rwa [made.sound.getLast?_pathBetween_getD atStart atStop, made.sound.length_pathBetween atStart atStop]
    at leads

theorem Made.edgesBetween_breaks {failure : Failure}
    (along : g.edgesBetween start.name stop.name = .error failure) :
    ∃ r s, g.Breaks (Direction.toward start stop) start stop r s ∧
      failure = .conversion (.missingEdge r.name s.name) := by
  rw [edgesBetween_eq (made.sound.get_name atStart) (made.sound.get_name atStop)] at along
  have inside := Timeline.forall_mem_cons_pathBetween atStart stop
  have breaks := made.edgesAlong_breaks inside (made.sound.pathBetween_steps atStart stop) along
  rwa [made.sound.getLast?_pathBetween_getD atStart atStop] at breaks

/-- There is a way between two versions unless one on it, but the newest, is skipped from. -/
theorem Made.exists_edgesBetween_iff : (∃ edges, g.edgesBetween start.name stop.name = .ok edges) ↔
    start = stop ∨ c.options.skipFrom = false ∧ ∀ r ∈ g.timeline.releases,
      min start.rank stop.rank ≤ r.rank → r.rank < max start.rank stop.rank → r.skipFrom = false := by
  rw [← made.covers_toward_iff atStart atStop]
  constructor
  · rintro ⟨edges, along⟩
    exact (made.edgesBetween_leads atStart atStop along).2.2.2
  · intro covers
    rw [exists_ok_iff]
    rintro ⟨failure, along⟩
    obtain ⟨r, s, first, _⟩ := made.edgesBetween_breaks atStart atStop along
    obtain ⟨e, found⟩ := covers r first.source s first.target first.passes
    cases first.missing.symm.trans found

theorem Made.edgesBetween_back {edges : List Edge}
    (along : g.edgesBetween start.name stop.name = .ok edges) :
    ∃ others, g.edgesBetween stop.name start.name = .ok others := by
  rw [made.exists_edgesBetween_iff atStop atStart, min_comm, max_comm, eq_comm]
  exact (made.exists_edgesBetween_iff atStart atStop).mp ⟨edges, along⟩

end Between

/-- Different versions have an edge between them, if there is a way. -/
theorem Made.eq_of_edgesBetween_nil {c : Container} {g : Generation} (made : Made c g) {a b : String}
    (along : g.edgesBetween a b = .ok []) : a = b := by
  obtain ⟨path, stepped, _⟩ := exists_of_bind along
  obtain ⟨start, gotStart, stepped⟩ := exists_of_bind stepped
  obtain ⟨stop, gotStop, _⟩ := exists_of_bind stepped
  obtain ⟨atStart, rfl⟩ := made.sound.find?_iff.mp (Timeline.get_eq_ok_iff.mp gotStart)
  obtain ⟨atStop, rfl⟩ := made.sound.find?_iff.mp (Timeline.get_eq_ok_iff.mp gotStop)
  have leads := (made.edgesBetween_leads atStart atStop along).1
  cases leads
  rfl

/-- The edges between two versions lead from the first to the second without a gap, unless the
container or a version from the older one up to before the newer one skips a conversion. Then the
first step on the way that has no edge is named. -/
theorem edgesBetween_decides {c : Container} {g : Generation} {a b : String} {start stop : Release}
    (run : ofContainer c = .ok g) (atStart : g.timeline.get a = .ok start)
    (atStop : g.timeline.get b = .ok stop) :
    ((∃ edges, g.edgesBetween a b = .ok edges) ↔ a = b ∨ c.options.skipFrom = false ∧
      ∀ r ∈ g.timeline.releases, min start.rank stop.rank ≤ r.rank → r.rank < max start.rank stop.rank →
        r.skipFrom = false) ∧
    (∀ edges, g.edgesBetween a b = .ok edges → Edge.Leads start stop edges ∧
      edges.length = max start.rank stop.rank - min start.rank stop.rank ∧
      ∀ e ∈ edges, e.direction = Direction.toward start stop) ∧
    ∀ failure, g.edgesBetween a b = .error failure →
      failure.name = "ConversionError" ∧ failure.status = 422 ∧
      ∃ r s, g.Breaks (Direction.toward start stop) start stop r s ∧
        failure = .conversion (.missingEdge r.name s.name) := by
  have made := made_of_ofContainer run
  obtain ⟨inStart, rfl⟩ := made.sound.find?_iff.mp (Timeline.get_eq_ok_iff.mp atStart)
  obtain ⟨inStop, rfl⟩ := made.sound.find?_iff.mp (Timeline.get_eq_ok_iff.mp atStop)
  have names : start.name = stop.name ↔ start = stop :=
    ⟨made.sound.eq_of_name inStart inStop, congrArg Release.name⟩
  rw [names]
  refine ⟨made.exists_edgesBetween_iff inStart inStop, fun edges along => ?_, fun failure along => ?_⟩
  · obtain ⟨leads, length, directed, _⟩ := made.edgesBetween_leads inStart inStop along
    exact ⟨leads, length, directed⟩
  · obtain ⟨r, s, first, rfl⟩ := made.edgesBetween_breaks inStart inStop along
    exact ⟨rfl, rfl, r, s, first, rfl⟩

/-- A struct of which no conversion is made between the second version and the third. -/
def bridge : Container where
  name := "Bridge"
  kind := .struct
  doc := none
  versions := [.named "v1", ⟨"v2", none, true, none⟩, .named "v3", .named "v4"]
  items := [⟨"span", some "int", none, none, false, none, [⟨"v3", some "length", none, none, none⟩], none⟩]
  options := ⟨true, false⟩
  resource := none

/-- From the last version the third is reached, and the way ends there. -/
theorem edgesBetween_decides_bridge :
    ∃ g start mid stop edges r s, ofContainer bridge = .ok g ∧ g.timeline.get "v4" = .ok start ∧
      g.timeline.get "v3" = .ok mid ∧ g.timeline.get "v1" = .ok stop ∧
      g.edgesBetween "v4" "v3" = .ok edges ∧ Edge.Leads start mid edges ∧
      g.edgesBetween "v4" "v1" = .error (.conversion (.missingEdge "v3" "v2")) ∧
      g.Breaks (Direction.toward start stop) start stop r s ∧ r.name = "v3" ∧ s.name = "v2" := by
  have facts : (ofContainer bridge).toOption.map (fun g =>
      ((g.timeline.get "v4").isOk, (g.timeline.get "v3").isOk, (g.timeline.get "v1").isOk,
        (g.edgesBetween "v4" "v3").isOk,
        match g.edgesBetween "v4" "v1" with | .ok _ => none | .error failure => some failure)) =
      some (true, true, true, true, some (.conversion (.missingEdge "v3" "v2"))) := by decide +kernel
  obtain ⟨g, run, facts⟩ := exists_of_toOption_map facts
  simp only [Prod.mk.injEq] at facts
  obtain ⟨start, atStart⟩ := exists_of_isOk facts.1
  obtain ⟨mid, atMid⟩ := exists_of_isOk facts.2.1
  obtain ⟨stop, atStop⟩ := exists_of_isOk facts.2.2.1
  obtain ⟨edges, along⟩ := exists_of_isOk facts.2.2.2.1
  obtain ⟨_, reached, _⟩ := edgesBetween_decides run atStart atMid
  obtain ⟨_, _, ended⟩ := edgesBetween_decides run atStart atStop
  have missing : g.edgesBetween "v4" "v1" = .error (.conversion (.missingEdge "v3" "v2")) := by
    cases outcome : g.edgesBetween "v4" "v1" with
    | ok edges => simp [outcome] at facts
    | error failure => simpa [outcome] using facts.2.2.2.2
  obtain ⟨_, _, r, s, breaks, same⟩ := ended _ missing
  injection same with same
  injection same with third second
  exact ⟨g, start, mid, stop, edges, r, s, run, atStart, atMid, atStop, along, (reached edges along).1,
    missing, breaks, third.symm, second.symm⟩

end Generation

end Lineage
