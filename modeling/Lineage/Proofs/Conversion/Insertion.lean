import Lineage.Proofs.Conversion.Composition
import Lineage.Proofs.Conversion.Nesting
import Lineage.Proofs.Conversion.Alike
import Lineage.Proofs.Conversion.Result
import Lineage.Proofs.Generation.Insertion

namespace Lineage

namespace Run.Alike

variable {α : Type} {tracked : Bool} {m : Run α} {k : α → Run α}

/-- A step that gives back whatever another one results in makes no difference after it. -/
theorem absorb (self : Alike tracked m m) (idle : ∀ p a q, m p = (.ok a, q) →
    ∃ r, k a q = (.ok a, r) ∧ r.tracker = q.tracker) : Alike tracked (m >>= k) m := by
  intro p q same untracked
  rcases self p q same untracked with ⟨a, p', q', left, right, leave, off⟩ | ⟨_, _, p', q', left, right⟩
  · obtain ⟨r, gives, kept⟩ := idle p a p' left
    rw [bind_of_ok left]
    exact Or.inl ⟨a, r, q', gives, right, kept.trans leave, fun none => kept.trans (off none)⟩
  · exact Or.inr ⟨_, _, p', q', bind_of_error left, right⟩

/-- A step that always succeeds with the same result makes no difference before another one. -/
theorem after {β : Type} {l : Run α} {a : β} {k : β → Run α} {first : Run β}
    (gives : ∀ p, ∃ q, first p = (.ok a, q) ∧ q.tracker = p.tracker) (alike : Alike tracked l (k a)) :
    Alike tracked l (first >>= k) := by
  intro p q same untracked
  obtain ⟨r, run, kept⟩ := gives q
  rw [bind_of_ok run]
  exact alike p r (same.trans kept.symm) untracked

end Run.Alike

section Later

variable {item : Item} (flat : item.nested = false) (s : Status)
include flat

theorem FieldStep.upgrade?_later : upgrade? item s s.later = s.member?.map fun m => .copy item.name m.1 m.1 := by
  cases s <;> simp [upgrade?, Status.later, Status.member?, carry, flat]

theorem FieldStep.downgrade?_later :
    downgrade? item s s.later = s.member?.map fun m => .copy item.name m.1 m.1 := by
  cases s <;> simp [downgrade?, Status.later, Status.member?, carry, flat]

theorem VariantStep.upgrade?_later :
    upgrade? item s s.later = s.member?.map fun m => .keep item.name m.1 m.1 none none none false := by
  cases s <;> simp [upgrade?, Status.later, Status.member?, carry, flat]

theorem VariantStep.downgrade_later (container : String) (older newer : Release) (d : Option Definition) :
    downgrade container item s s.later older newer d =
      .ok (s.member?.map fun m => .keep item.name m.1 m.1 none none none false) := by
  cases s <;> simp [downgrade, Status.later, Status.member?, carry, flat]

omit flat in
theorem Dropped.ofStatuses?_later : ofStatuses? item s s.later = none := by
  cases s <;> rfl

end Later

/-- Whether nothing happens to any item between two versions that follow each other. -/
def Container.Idle (c : Container) (t : Timeline) (older newer : Release) : Prop :=
  ∀ item ∈ c.items, item.statusIn c.kind t newer = (item.statusIn c.kind t older).later

section Idle

variable {c : Container} {t : Timeline} {d : Direction} {r s : Release}
  (idle : c.Idle t (d.older r s) (d.newer r s)) {item : Item} (listed : item ∈ c.items)
include idle listed

theorem Container.Idle.member?_eq :
    (item.statusIn c.kind t s).member? = (item.statusIn c.kind t r).member? := by
  have later := idle item listed
  cases d with
  | upgrade => exact (congrArg Status.member? later).trans (Status.member?_later _)
  | downgrade => exact ((congrArg Status.member? later).trans (Status.member?_later _)).symm

theorem Dropped.along?_idle : along? c t d r s item = none := by
  cases d with
  | upgrade => rfl
  | downgrade =>
    have later : item.statusIn c.kind t r = (item.statusIn c.kind t s).later := idle item listed
    rw [along?, later, ofStatuses?_later]

variable (flat : item.nested = false)
include flat

theorem FieldStep.along?_idle : along? c t d r s item =
    (item.statusIn c.kind t r).member?.map fun m => .copy item.name m.1 m.1 := by
  have later := idle item listed
  rw [← idle.member?_eq listed]
  cases d with
  | upgrade =>
    have later : item.statusIn c.kind t s = (item.statusIn c.kind t r).later := later
    rw [along?, later, upgrade?_later flat, Status.member?_later]
  | downgrade =>
    have later : item.statusIn c.kind t r = (item.statusIn c.kind t s).later := later
    rw [along?, later, downgrade?_later flat]

theorem VariantStep.along?_idle : along? c t d r s item =
    .ok ((item.statusIn c.kind t r).member?.map fun m => .keep item.name m.1 m.1 none none none false) := by
  have later := idle item listed
  rw [← idle.member?_eq listed]
  cases d with
  | upgrade =>
    have later : item.statusIn c.kind t s = (item.statusIn c.kind t r).later := later
    rw [along?, later, upgrade?_later flat, Status.member?_later]
  | downgrade =>
    have later : item.statusIn c.kind t r = (item.statusIn c.kind t s).later := later
    rw [along?, later, downgrade_later flat]

end Idle

theorem Container.instanceIn_congr {c : Container} {t : Timeline} {value : Item → Option Value} {r s : Release}
    (same : ∀ item ∈ c.items,
      (item.statusIn c.kind t s).member? = (item.statusIn c.kind t r).member?) :
    c.instanceIn t value s = c.instanceIn t value r :=
  List.filterMap_congr fun item listed => by rw [Item.keyedIn, Item.keyedIn, same item listed]

namespace Generation.Made

variable {c : Container} {g : Generation} (made : Made c g) {r s : Release} {f : Edge}
  (atR : r ∈ g.timeline.releases) (atS : s ∈ g.timeline.releases) (joins : f.Joins c g.timeline r s)
  (idle : c.Idle g.timeline (f.direction.older r s) (f.direction.newer r s))
  (flat : ∀ item ∈ c.items, item.nested = false)
  {functions : Functions} {nesting : Nesting} {path : String} {v : Value} {p : Progress}
include made atS joins idle flat

/-- Between versions where nothing happens a map keeps what the first version knows of it. -/
theorem applyEdge_idle_fields (struct : c.kind = .struct) (fields : Entries Value Value) :
    ∃ q, Conversion.applyEdge .free functions nesting f (.map fields) path p =
      (.ok (.map (c.instanceIn g.timeline (Item.heldIn c.kind g.timeline r fields) r)), q) ∧
      q.tracker = p.tracker := by
  have own := joins.fields struct
  have nothing : c.items.filterMap (Dropped.along? c g.timeline f.direction r s) = [] :=
    List.filterMap_eq_nil_iff.mpr fun item listed => Dropped.along?_idle idle listed
  have puts : ∀ item rest, item :: rest <:+ c.items → Conversion.Puts .free functions nesting f path fields
      (· = p.tracker) (· = p.tracker) (FieldStep.along? c g.timeline f.direction r s item)
      (item.keyedIn c.kind g.timeline s (Item.heldIn c.kind g.timeline r fields item)) := by
    intro item rest suffix
    have listed : item ∈ c.items := suffix.subset (List.mem_cons_self ..)
    rw [FieldStep.along?_idle idle listed (flat item listed), Item.keyedIn, idle.member?_eq listed, Item.heldIn]
    cases (item.statusIn c.kind g.timeline r).member? with
    | none => exact Conversion.puts_nothing fun _ same => same
    | some m => exact Conversion.puts_copy (fun _ same => same) item.name m.1 m.1
  obtain ⟨q, applied, kept⟩ := made.applyEdge_of_puts own (Conversion.copiesDropped_free _ _) atS
    (fun _ tracker => tracker = p.tracker) puts rfl
  rw [Container.instanceIn_congr fun item listed => idle.member?_eq listed] at applied
  refine ⟨_, applied, ?_⟩
  rw [nothing]
  dsimp only
  rw [kept]
  cases p.tracker <;> rfl

include atR

/-- Between versions where nothing happens a variant stays what it is. -/
theorem applyEdge_idle_variant (enum : c.kind = .enum) {item : Item} (listed : item ∈ c.items)
    {m : String × Option String} (present : (item.statusIn c.kind g.timeline r).member? = some m)
    {carried : Option Value} (shape : Conversion.variantOf? v = some (.text m.1, carried)) :
    ∃ q, Conversion.applyEdge .free functions nesting f v path p = (.ok v, q) ∧ q.tracker = p.tracker := by
  obtain ⟨member, own, _, named⟩ := Member.ofStatus?_eq_some item present
  obtain ⟨steps, step, variants, found, along, _⟩ := made.find?_variant atR atS enum joins listed own
  rw [VariantStep.along?_idle idle listed (flat item listed), present] at along
  cases along
  rw [named] at found
  rw [Conversion.applyEdge_of_variants variants found shape]
  refine ⟨p.count f.direction, ?_, Conversion.count_tracker ..⟩
  cases carried with
  | none => exact congrArg (Prod.mk · _) (congrArg Except.ok (Conversion.eq_text_of_variantOf? shape).symm)
  | some payload =>
    rw [Conversion.eq_map_of_variantOf? shape]
    rfl

/-- Between versions where nothing happens what an edge made stays what it is. -/
theorem applyEdge_idle {o : Release} {e : Edge} (atO : o ∈ g.timeline.releases)
    (before : e.Joins c g.timeline o r) {u w : Value} {p' q : Progress}
    (run : Conversion.applyEdge .free functions nesting e u path p' = (.ok w, q)) :
    ∃ q', Conversion.applyEdge .free functions nesting f w path p = (.ok w, q') ∧ q'.tracker = p.tracker := by
  cases kind : c.kind with
  | struct =>
    obtain ⟨entries, rfl, same⟩ := made.instance_of_applyEdge atO atR before kind run
    have kept : ∃ q', Conversion.applyEdge .free functions nesting f (.map entries) path p =
        (.ok (.map (c.instanceIn g.timeline (Item.heldIn c.kind g.timeline r entries) r)), q') ∧
        q'.tracker = p.tracker :=
      made.applyEdge_idle_fields atS joins idle flat kind entries
    rwa [← same] at kept
  | enum =>
    obtain ⟨item, listed, m, present, carried, shape⟩ := made.variant_of_applyEdge atO atR before kind run
    exact made.applyEdge_idle_variant atR atS joins idle flat kind listed present shape

end Generation.Made

theorem Runtime.convert_alike_through {ι : Type} (rt : Runtime ι) {c : Container} {a b d : String}
    {start mid stop : Release} (run : Generation.ofContainer c = .ok rt.generation)
    (atStart : rt.generation.timeline.get a = .ok start)
    (atMid : rt.generation.timeline.get b = .ok mid) (atStop : rt.generation.timeline.get d = .ok stop)
    (through : start.rank ≤ mid.rank ∧ mid.rank ≤ stop.rank ∨ stop.rank ≤ mid.rank ∧ mid.rank ≤ start.rank)
    (room : Nat) (v : Value) (place : String) :
    Run.Alike true (rt.convert room a d v place)
      (rt.convert room a b v place >>= fun u => rt.convert room b d u place) := by
  refine .of_ok_iff (rt.inside_alike (room + 1) a d v place place fun _ => rfl) fun p w q => ?_
  rw [Run.bind_eq_ok_iff]
  exact convert_through run rfl atStart atMid atStop through room v place p w q

theorem Runtime.single_functions (g : Generation) (functions : Functions) :
    (single g functions).functions = functions :=
  rfl

theorem Runtime.inner_single (g : Generation) (functions : Functions) (room : Nat) (a b : String) :
    (single g functions).inner .free room a b = fun _ => none :=
  rfl

namespace Generation.Inserts

variable {c : Container} {versions : List Declaration} {g g' : Generation} {p m : Release}
  (ins : Inserts c versions g g' p m) {d : Direction}
include ins

theorem statusIn_moved {r : Release} (member : r ∈ g.timeline.releases) {item : Item} (listed : item ∈ c.items) :
    item.statusIn c.kind g'.timeline (r.movedAfter p.rank) = item.statusIn c.kind g.timeline r :=
  Item.statusIn_inserts ins.inserts (ins.made.legal item listed) member

theorem statusIn_new {item : Item} (listed : item ∈ c.items) :
    item.statusIn c.kind g'.timeline m = (item.statusIn c.kind g.timeline p).later :=
  Item.statusIn_new ins.inserts (ins.made.legal item listed) (ins.result.legal item listed)

theorem mem_kept : p ∈ g'.timeline.releases := by
  have moved := ins.inserts.mem_moved ins.inserts.mem_old
  rwa [Release.movedAfter, if_pos le_rfl] at moved

theorem statusIn_kept {item : Item} (listed : item ∈ c.items) :
    item.statusIn c.kind g'.timeline p = item.statusIn c.kind g.timeline p := by
  have kept := ins.statusIn_moved ins.inserts.mem_old listed
  rwa [Release.movedAfter, if_pos le_rfl] at kept

theorem member?_new {item : Item} (listed : item ∈ c.items) :
    (item.statusIn c.kind g'.timeline m).member? = (item.statusIn c.kind g.timeline p).member? :=
  (congrArg Status.member? (ins.statusIn_new listed)).trans (Status.member?_later _)

theorem idle : (c.withVersions versions).Idle g'.timeline p m :=
  fun _ listed => (ins.statusIn_new listed).trans (congrArg Status.later (ins.statusIn_kept listed).symm)

/-- A step between versions that still follow each other makes the same of a value as before. -/
theorem convert_alike_apart {r s : Release} (atR : r ∈ g.timeline.releases) (atS : s ∈ g.timeline.releases)
    (hop : d.Steps r s) (apart : (d.older r s).rank ≠ p.rank) (functions : Functions) (room : Nat) (v : Value)
    (place : String) :
    Run.Alike true ((Runtime.single g functions).convert room r.name s.name v place)
      ((Runtime.single g' functions).convert room r.name s.name v place) := by
  have hop' := Direction.steps_movedAfter hop apart
  have atR' := ins.inserts.mem_moved atR
  have atS' := ins.inserts.mem_moved atS
  have nameR := r.movedAfter_name p.rank
  have nameS := s.movedAfter_name p.rank
  have older : d.older (r.movedAfter p.rank) (s.movedAfter p.rank) = (d.older r s).movedAfter p.rank := by
    cases d <;> rfl
  have newer : d.newer (r.movedAfter p.rank) (s.movedAfter p.rank) = (d.newer r s).movedAfter p.rank := by
    cases d <;> rfl
  have atOlder : d.older r s ∈ g.timeline.releases := by cases d <;> assumption
  have atNewer : d.newer r s ∈ g.timeline.releases := by cases d <;> assumption
  have both : (c.withVersions versions).Converts ((d.older r s).movedAfter p.rank) ↔ c.Converts (d.older r s) :=
    and_congr_right fun _ => by rw [Release.movedAfter_skipFrom]
  rw [← older] at both
  by_cases converts : c.Converts (d.older r s)
  · obtain ⟨e, found⟩ := (ins.made.exists_edge?_iff atR atS hop).mpr converts
    obtain ⟨e', found'⟩ := (ins.result.exists_edge?_iff atR' atS' hop').mpr (both.mpr converts)
    have steps := (ins.made.edge_found atR atS found).steps_eq
      (ins.result.edge_found atR' atS' found').of_withVersions hop hop'
      (fun item listed => by rw [older, ins.statusIn_moved atOlder listed])
      fun item listed => by rw [newer, ins.statusIn_moved atNewer listed]
    rw [ins.made.convert_step atR atS hop rfl found, Runtime.inner_single, ← nameR, ← nameS,
      ins.result.convert_step atR' atS' hop' rfl found', Runtime.inner_single]
    exact Conversion.applyEdge_alike (fun _ => rfl) (fun _ => .none) steps v
  · refine .of_fails (ins.made.convert_step_fails atR atS hop rfl converts room v place) ?_
    rw [← nameR, ← nameS]
    exact ins.result.convert_step_fails atR' atS' hop' rfl (converts ∘ both.mp) room v place

section Between

variable {w : Release} (next : w.rank = p.rank + 1)
include next

theorem next_moved : (w.movedAfter p.rank).rank = m.rank + 1 := by
  rw [Release.movedAfter_rank, ins.inserts.rank_new, if_neg (by omega), next]

variable (atW : w ∈ g.timeline.releases) (flat : ∀ item ∈ c.items, item.nested = false)
include atW flat

section After

variable {e e' f : Edge} (joins : e.Joins c g.timeline p w)
  (joins' : e'.Joins (c.withVersions versions) g'.timeline m (w.movedAfter p.rank))
  (joinsF : f.Joins (c.withVersions versions) g'.timeline p m) (functions : Functions) (v : Value)
  (place : String)
include joins joins' joinsF

omit flat joinsF in
theorem steps_after : e.steps = e'.steps :=
  joins.steps_eq joins'.of_withVersions (d := .upgrade) next (ins.next_moved next)
    (fun _ listed => ins.member?_new listed) fun _ listed => ins.statusIn_moved atW listed

omit next atW flat joins joins' in
theorem idle_before :
    (c.withVersions versions).Idle g'.timeline (f.direction.older p m) (f.direction.newer p m) := by
  rw [show f.direction = .upgrade from Direction.eq_of_steps joinsF.step ins.inserts.rank_new]
  exact ins.idle

/-- For a struct, the edge over an inserted version does what the one into it and the one out of it do. -/
theorem applyEdge_alike_after_fields (struct : c.kind = .struct) :
    Run.Alike true (Conversion.applyEdge .free functions (fun _ => none) e v place)
      (Conversion.applyEdge .free functions (fun _ => none) f v place >>= fun u =>
        Conversion.applyEdge .free functions (fun _ => none) e' u place) := by
  have own := joins.fields struct
  have own' := (ins.steps_after next atW joins joins').symm.trans own
  by_cases map : ∃ fields, v = .map fields
  · obtain ⟨fields, rfl⟩ := map
    refine .after (fun q => ins.result.applyEdge_idle_fields ins.inserts.mem_new joinsF
      (ins.idle_before joinsF) flat struct fields) ?_
    refine Conversion.applyEdge_fields_alike (fun _ => rfl) (fun _ => .none) own own' ?_ ?_
    · intro step among source reads
      obtain ⟨item, listed, along⟩ := List.mem_filterMap.mp among
      obtain ⟨k, present, rfl⟩ := ins.made.along?_source ins.inserts.mem_old atW joins.step listed along reads
      rw [← ins.statusIn_kept listed] at present
      have holds := ins.result.holds_instanceIn ins.mem_kept
        (Item.heldIn (c.withVersions versions).kind g'.timeline p fields) item listed k present
      rw [Item.heldIn, show (item.statusIn (c.withVersions versions).kind g'.timeline p).member? = _ from present]
        at holds
      exact holds.symm
    · intro d among
      obtain ⟨item, _, lost⟩ := List.mem_filterMap.mp among
      rw [show e.direction = .upgrade from Direction.eq_of_steps joins.step next] at lost
      cases lost
  · have other : ∀ fields, v ≠ .map fields := fun fields same => map ⟨fields, same⟩
    exact .of_fails (Conversion.applyEdge_refuses own other) fun q =>
      Run.exists_bind_error (Conversion.applyEdge_refuses (joinsF.fields struct) other q)

/-- For an enum, the edge over an inserted version does what the one into it and the one out of it do. -/
theorem applyEdge_alike_after_variant (enum : c.kind = .enum) :
    Run.Alike true (Conversion.applyEdge .free functions (fun _ => none) e v place)
      (Conversion.applyEdge .free functions (fun _ => none) f v place >>= fun u =>
        Conversion.applyEdge .free functions (fun _ => none) e' u place) := by
  have atP := ins.inserts.mem_old
  have atM := ins.inserts.mem_new
  by_cases known : ∃ item ∈ c.items, ∃ k, (item.statusIn c.kind g.timeline p).member? = some k ∧
      ∃ carried, Conversion.variantOf? v = some (.text k.1, carried)
  · obtain ⟨item, listed, k, present, carried, shape⟩ := known
    rw [← ins.statusIn_kept listed] at present
    refine .after (fun q => ins.result.applyEdge_idle_variant ins.mem_kept atM joinsF (ins.idle_before joinsF) flat
      enum listed present shape) ?_
    exact Conversion.applyEdge_alike (fun _ => rfl) (fun _ => .none) (ins.steps_after next atW joins joins') v
  · have unknown : ∀ item ∈ c.items, ∀ k, (item.statusIn c.kind g.timeline p).member? = some k →
        ∀ carried, Conversion.variantOf? v ≠ some (.text k.1, carried) :=
      fun item listed k present carried shape => known ⟨item, listed, k, present, carried, shape⟩
    have unknown' : ∀ item ∈ c.items, ∀ k, (item.statusIn c.kind g'.timeline p).member? = some k →
        ∀ carried, Conversion.variantOf? v ≠ some (.text k.1, carried) :=
      fun item listed k present => unknown item listed k (ins.statusIn_kept listed ▸ present)
    exact .of_fails (fun q => ins.made.applyEdge_fails atP atW joins enum unknown) fun q =>
      Run.exists_bind_error (ins.result.applyEdge_fails ins.mem_kept atM joinsF enum unknown')

/-- Before a step from the new version the step up to it makes no difference. -/
theorem applyEdge_alike_after :
    Run.Alike true (Conversion.applyEdge .free functions (fun _ => none) e v place)
      (Conversion.applyEdge .free functions (fun _ => none) f v place >>= fun u =>
        Conversion.applyEdge .free functions (fun _ => none) e' u place) := by
  cases kind : c.kind with
  | struct => exact ins.applyEdge_alike_after_fields next atW flat joins joins' joinsF functions v place kind
  | enum => exact ins.applyEdge_alike_after_variant next atW flat joins joins' joinsF functions v place kind

end After

/-- What the two steps up through the new version make of a value is what the step past it made. -/
theorem convert_alike_up (functions : Functions) (room : Nat) (v : Value) (place : String) :
    Run.Alike true ((Runtime.single g functions).convert room p.name w.name v place)
      ((Runtime.single g' functions).convert room p.name m.name v place >>= fun u =>
        (Runtime.single g' functions).convert room m.name w.name u place) := by
  have atP := ins.inserts.mem_old
  have atP' := ins.mem_kept
  have atM := ins.inserts.mem_new
  have atW' := ins.inserts.mem_moved atW
  have hop : Direction.upgrade.Steps p w := next
  have first : Direction.upgrade.Steps p m := ins.inserts.rank_new
  have second : Direction.upgrade.Steps m (w.movedAfter p.rank) := ins.next_moved next
  by_cases converts : c.Converts p
  · have convertsM : (c.withVersions versions).Converts m := ⟨converts.1, ins.leads⟩
    obtain ⟨e, found⟩ := (ins.made.exists_edge?_iff atP atW hop).mpr converts
    obtain ⟨f, foundF⟩ := (ins.result.exists_edge?_iff atP' atM first).mpr converts
    obtain ⟨e', found'⟩ := (ins.result.exists_edge?_iff atM atW' second).mpr convertsM
    have onward : ∀ u, (Runtime.single g' functions).convert room m.name w.name u place =
        Conversion.applyEdge .free functions (fun _ => none) e' u place := by
      intro u
      rw [← w.movedAfter_name p.rank, ins.result.convert_step atM atW' second rfl found', Runtime.inner_single,
        Runtime.single_functions]
    simp only [onward]
    rw [ins.made.convert_step atP atW hop rfl found, Runtime.inner_single,
      ins.result.convert_step atP' atM first rfl foundF, Runtime.inner_single]
    exact ins.applyEdge_alike_after next atW flat (ins.made.edge_found atP atW found)
      (ins.result.edge_found atM atW' found') (ins.result.edge_found atP' atM foundF) functions v place
  · exact .of_fails (ins.made.convert_step_fails atP atW hop rfl converts room v place) fun q =>
      Run.exists_bind_error (ins.result.convert_step_fails atP' atM first rfl converts room v place q)

/-- What the two steps down through the new version make of a value is what the step past it made. -/
theorem convert_alike_down (functions : Functions) (room : Nat) (v : Value) (place : String) :
    Run.Alike true ((Runtime.single g functions).convert room w.name p.name v place)
      ((Runtime.single g' functions).convert room w.name m.name v place >>= fun u =>
        (Runtime.single g' functions).convert room m.name p.name u place) := by
  have atP := ins.inserts.mem_old
  have atP' := ins.mem_kept
  have atM := ins.inserts.mem_new
  have atW' := ins.inserts.mem_moved atW
  have hop : Direction.downgrade.Steps w p := next
  have first : Direction.downgrade.Steps (w.movedAfter p.rank) m := ins.next_moved next
  have second : Direction.downgrade.Steps m p := ins.inserts.rank_new
  by_cases converts : c.Converts p
  · have convertsM : (c.withVersions versions).Converts m := ⟨converts.1, ins.leads⟩
    obtain ⟨e, found⟩ := (ins.made.exists_edge?_iff atW atP hop).mpr converts
    obtain ⟨e', found'⟩ := (ins.result.exists_edge?_iff atW' atM first).mpr convertsM
    obtain ⟨f, foundF⟩ := (ins.result.exists_edge?_iff atM atP' second).mpr converts
    have joins := ins.made.edge_found atW atP found
    have joins' := ins.result.edge_found atW' atM found'
    have joinsF := ins.result.edge_found atM atP' foundF
    have downF : f.direction = .downgrade := Direction.eq_of_steps joinsF.step second
    have idle : (c.withVersions versions).Idle g'.timeline (f.direction.older m p) (f.direction.newer m p) := by
      rw [downF]
      exact ins.idle
    have steps : e.steps = e'.steps :=
      joins.steps_eq joins'.of_withVersions hop first (fun _ listed => ins.member?_new listed)
        fun _ listed => ins.statusIn_moved atW listed
    have onward : ∀ u, (Runtime.single g' functions).convert room m.name p.name u place =
        Conversion.applyEdge .free functions (fun _ => none) f u place := by
      intro u
      rw [ins.result.convert_step atM atP' second rfl foundF, Runtime.inner_single, Runtime.single_functions]
    simp only [onward]
    rw [ins.made.convert_step atW atP hop rfl found, Runtime.inner_single, ← w.movedAfter_name p.rank,
      ins.result.convert_step atW' atM first rfl found', Runtime.inner_single]
    have alone : Run.Alike true (Conversion.applyEdge .free functions (fun _ => none) e' v place)
        (Conversion.applyEdge .free functions (fun _ => none) e' v place) :=
      Conversion.applyEdge_alike (fun _ => rfl) (fun _ => .none) rfl v
    refine (Conversion.applyEdge_alike (fun _ => rfl) (fun _ => .none) steps v).trans (alone.absorb ?_).symm
    intro q u r run
    exact ins.result.applyEdge_idle atM atP' joinsF idle flat atW' joins' run
  · have skips : ¬ (c.withVersions versions).Converts m := fun leads => converts ⟨leads.1, ins.goes⟩
    refine .of_fails (ins.made.convert_step_fails atW atP hop rfl converts room v place) fun q =>
      Run.exists_bind_error ?_
    rw [← w.movedAfter_name p.rank]
    exact ins.result.convert_step_fails atW' atM first rfl skips room v place q

end Between

/-- Between versions that were there before, an insertion makes no difference to what a conversion makes
of a value and to what it leaves of the tracker. -/
theorem convert_alike (run' : ofContainer (c.withVersions versions) = .ok g') (run : ofContainer c = .ok g)
    (flat : ∀ item ∈ c.items, item.nested = false) {start stop : Release}
    (atStart : start ∈ g.timeline.releases) (atStop : stop ∈ g.timeline.releases) (functions : Functions)
    (room : Nat) (v : Value) (place : String) :
    Run.Alike true ((Runtime.single g functions).convert room start.name stop.name v place)
      ((Runtime.single g' functions).convert room start.name stop.name v place) := by
  suffices all : ∀ r ∈ g.timeline.releases, ∀ v,
      Run.Alike true ((Runtime.single g functions).convert room r.name stop.name v place)
        ((Runtime.single g' functions).convert room r.name stop.name v place) from all start atStart v
  have known : ∀ r ∈ g.timeline.releases, g'.timeline.get r.name = .ok (r.movedAfter p.rank) := by
    intro r atR
    rw [← r.movedAfter_name p.rank]
    exact ins.result.sound.get_name (ins.inserts.mem_moved atR)
  have atM := ins.result.sound.get_name ins.inserts.mem_new
  have rankM := ins.inserts.rank_new
  refine ins.made.sound.toward_induction atStop (fun v => ?_) fun d r atR s atS hop through ih v => ?_
  · have moved := ins.inserts.mem_moved atStop
    rw [ins.made.convert_self atStop rfl, ← stop.movedAfter_name p.rank, ins.result.convert_self moved rfl]
    exact .pure v
  have old := (Runtime.single g functions).convert_alike_through run (ins.made.sound.get_name atR)
    (ins.made.sound.get_name atS) (ins.made.sound.get_name atStop) through room v place
  have new := (Runtime.single g' functions).convert_alike_through run' (known r atR) (known s atS)
    (known stop atStop) (through.imp (And.imp Release.movedAfter_rank_le Release.movedAfter_rank_le)
      (And.imp Release.movedAfter_rank_le Release.movedAfter_rank_le)) room v place
  refine old.trans (Run.Alike.trans (.bind ?_ ih) new.symm)
  by_cases apart : (d.older r s).rank ≠ p.rank
  · exact ins.convert_alike_apart atR atS hop apart functions room v place
  have atP := ins.made.sound.eq_of_rank (show d.older r s ∈ g.timeline.releases by cases d <;> assumption)
    ins.inserts.mem_old (not_not.mp apart)
  -- The new version stands in the middle of this step.
  cases d with
  | upgrade =>
    have atP : r = p := atP
    subst atP
    have inside := (Runtime.single g' functions).convert_alike_through run' (known r atR) atM (known s atS)
      (Or.inl ⟨by rw [Release.movedAfter_rank, if_pos le_rfl]; omega,
        by rw [ins.next_moved hop]; omega⟩) room v place
    exact (ins.convert_alike_up hop atS flat functions room v place).trans inside.symm
  | downgrade =>
    have atP : s = p := atP
    subst atP
    have inside := (Runtime.single g' functions).convert_alike_through run' (known r atR) atM (known s atS)
      (Or.inr ⟨by rw [Release.movedAfter_rank, if_pos le_rfl]; omega,
        by rw [ins.next_moved hop]; omega⟩) room v place
    exact (ins.convert_alike_down hop atR flat functions room v place).trans inside.symm

end Generation.Inserts

/-- A further version in which nothing happens changes nothing: the container still generates, all other
versions have the members that they had, the new one has those of the version before it, and between the
others a conversion by the container alone, with no others registered for the values in its own, makes the
same of a value and leaves the same of the tracker, or fails as before. -/
theorem Generation.insertion_changes_nothing {c : Container} {g : Generation} {front back : List Declaration}
    {p m : Declaration} (run : ofContainer c = .ok g) (flat : ∀ item ∈ c.items, item.nested = false)
    (versions : c.versions = front ++ p :: back) (goes : p.skipFrom = false) (leads : m.skipFrom = false)
    (clean : checkDeclarations c.options.allowUnsorted (front ++ p :: m :: back) = []) :
    ∃ g', ofContainer { c with versions := front ++ p :: m :: back } = .ok g' ∧
      (∀ name ∈ c.versions.map (·.name), ∃ d d', g.definition name = .ok d ∧ g'.definition name = .ok d' ∧
        d'.members = d.members) ∧
      (∃ d d', g.definition p.name = .ok d ∧ g'.definition m.name = .ok d' ∧
        d'.members = d.members.map fun member => { member with status := "no_change" }) ∧
      ∀ a ∈ c.versions.map (·.name), ∀ b ∈ c.versions.map (·.name), ∀ functions room x place before y tracker,
        (∃ q, (Runtime.single g functions).convert room a b x place before = (.ok y, q) ∧ q.tracker = tracker) ↔
          ∃ q, (Runtime.single g' functions).convert room a b x place before = (.ok y, q) ∧ q.tracker = tracker := by
  obtain ⟨g', r, s, run', nameR, nameS, ins⟩ := exists_inserts run versions goes leads clean
  have names : c.versions.map (·.name) = g.timeline.names := by
    obtain ⟨well, same⟩ := wellFormed_of_ofContainer run
    rw [same]
    exact (ofContainer_of_wellFormed well).2.1.symm
  rw [names]
  refine ⟨g', run', ?_, ?_, ?_⟩
  · intro name declared
    obtain ⟨u, atU, rfl⟩ := List.mem_map.mp declared
    have new := ins.result.definition_name (ins.inserts.mem_moved atU)
    rw [u.movedAfter_name] at new
    exact ⟨_, _, ins.made.definition_name atU, new, definitionIn_inserts ins.inserts ins.made.legal atU⟩
  · rw [← nameR, ← nameS]
    exact ⟨_, _, ins.made.definition_name ins.inserts.mem_old, ins.result.definition_name ins.inserts.mem_new,
      definitionIn_new ins.inserts ins.made.legal ins.result.legal⟩
  · intro a declaredA b declaredB functions room x place before y tracker
    obtain ⟨start, atStart, rfl⟩ := List.mem_map.mp declaredA
    obtain ⟨stop, atStop, rfl⟩ := List.mem_map.mp declaredB
    exact (ins.convert_alike run' run flat atStart atStop functions room x place).ok_iff before

/-- An age that is added in the next version is added after the new one too. -/
theorem Generation.insertion_changes_nothing_person :
    ∃ g g', ofContainer Runtime.person = .ok g ∧
      ofContainer { Runtime.person with versions := ["v1", "v2", "v2beta1", "v3"].map Declaration.named } = .ok g' ∧
      (∃ d d', g.definition "v2" = .ok d ∧ g'.definition "v2beta1" = .ok d' ∧
        d'.members = d.members.map fun member => { member with status := "no_change" }) ∧
      ∀ functions room x place before y tracker,
        (∃ q, (Runtime.single g functions).convert room "v1" "v3" x place before = (.ok y, q) ∧
            q.tracker = tracker) ↔
          ∃ q, (Runtime.single g' functions).convert room "v1" "v3" x place before = (.ok y, q) ∧
            q.tracker = tracker := by
  obtain ⟨g, run⟩ := exists_of_isOk (show (ofContainer Runtime.person).isOk = true by decide +kernel)
  obtain ⟨g', run', _, new, same⟩ := @insertion_changes_nothing Runtime.person g [.named "v1"] [.named "v3"]
    (.named "v2") (.named "v2beta1") run (by simp [Runtime.person]) rfl rfl rfl (by decide +kernel)
  exact ⟨g, g', run, run', new, same "v1" (by decide) "v3" (by decide)⟩

end Lineage
