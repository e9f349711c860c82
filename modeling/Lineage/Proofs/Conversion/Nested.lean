import Lineage.Proofs.Conversion.Alike
import Lineage.Proofs.Conversion.Nesting
import Lineage.Proofs.Conversion.Result
import Lineage.Proofs.Conversion.Steps
import Lineage.Proofs.Timeline.Sublist

namespace Lineage

namespace Conversion

variable {depths : Depths} {functions : Functions} {nesting : Nesting} {e : Edge} {path : String}
  {fields out made : Entries Value Value} {p q : Progress}

/-- Without a tracker before them, steps leave none. -/
theorem foldlM_untracked {steps : List FieldStep} (inner : Nesting.Alike false nesting nesting)
    (untracked : p.tracker = none)
    (run : steps.foldlM (fieldStep depths functions nesting e path fields) out p = (.ok made, q)) :
    q.tracker = none := by
  have alike : Run.Alike false (steps.foldlM (fieldStep depths functions nesting e path fields) out)
      (steps.foldlM (fieldStep depths functions nesting e path fields) out) :=
    .foldlM (fun out s _ => fieldStep_alike (fun _ => rfl) inner (fun _ _ => rfl) out) out
  obtain ⟨_, _, _, off⟩ := alike.ok rfl (fun _ => untracked) run
  exact off rfl

/-- Values of a type with a container of its own are left to the runtime of that container. -/
theorem nestedValue_inner {T : Option String} {type : String} {convert : Value → (path : String) → Run Value}
    (base : T.map TypeName.base = some type)
    (unregistered : functions.converter? (some type) (some type) = none)
    (follows : nesting type = some convert) {v : Value} (there : v ≠ .null) (place : String) :
    nestedValue depths functions nesting e T T v place = convert v place := by
  simp only [nestedValue, base, unregistered, if_true, Option.bind_some, follows]

/-- Items are converted one by one, in their order. -/
theorem forall₂_of_nestedItems {convert : Value → (path : String) → Run Value} {R : Value → Value → Prop}
    (each : ∀ v w place (p q : Progress), p.tracker = none → convert v place p = (.ok w, q) →
      R v w ∧ q.tracker = none) {items ws : List Value} {index : Nat} (untracked : p.tracker = none)
    (run : nestedItems convert path index items p = (.ok ws, q)) : List.Forall₂ R items ws := by
  induction items generalizing index ws p with
  | nil =>
    cases run
    exact .nil
  | cons v rest ih =>
    obtain ⟨w, r, first, run⟩ := Run.bind_eq_ok_iff.mp run
    obtain ⟨others, r', later, last⟩ := Run.bind_eq_ok_iff.mp run
    cases last
    obtain ⟨made, off⟩ := each v w _ _ _ untracked first
    exact .cons made (ih off later)

end Conversion

namespace Runtime

variable {ι : Type}

/-- Whether a runtime makes a value of another between two versions, wherever that stands, while nothing
is tracked. -/
def Makes (N : Runtime ι) (room : Nat) (a b : String) (v w : Value) : Prop :=
  ∀ place (p : Progress), p.tracker = none → ∃ q, N.convert room a b v place p = (.ok w, q)

/-- Whether a runtime makes a value of another that is nested in an instance, where null stays null. -/
def MakesInside (N : Runtime ι) (room : Nat) (a b : String) (v w : Value) : Prop :=
  v = .null ∧ w = .null ∨ v ≠ .null ∧ N.Makes room a b v w

/-- Whether a runtime makes the value of an item with a hint out of another: the values of a list one by
one if the hint says that the item holds a list. -/
def MakesHeld (N : Runtime ι) (room : Nat) (hint : Option Hint) (a b : String) (v w : Value) : Prop :=
  match hint, v with
  | some .list, .list items =>
    ∃ made, w = .list made ∧ List.Forall₂ (N.MakesInside room a b) items made
  | _, v => N.MakesInside room a b v w

variable {room : Nat} {N : Runtime ι} {a b d : String} {v u w : Value} {p q : Progress}
  {place : String}

theorem makesHeld_of_not_list {hint : Option Hint} (single : ∀ items, hint = some .list → v ≠ .list items) :
    N.MakesHeld room hint a b v w ↔ N.MakesInside room a b v w := by
  unfold MakesHeld
  split
  · exact absurd rfl (single _ rfl)
  · exact Iff.rfl

theorem makes_of_run (untracked : p.tracker = none) (run : N.convert room a b v place p = (.ok w, q)) :
    N.Makes room a b v w ∧ q.tracker = none := by
  have anywhere : ∀ other, Run.Alike false (N.convert room a b v place) (N.convert room a b v other) :=
    fun other => N.inside_alike (room + 1) a b v place other nofun
  refine ⟨fun other p' off => ?_, ?_⟩
  · obtain ⟨q', same, _⟩ := (anywhere other).ok (untracked.trans off.symm) (fun _ => untracked) run
    exact ⟨q', same⟩
  · obtain ⟨_, _, _, off⟩ := (anywhere place).ok rfl (fun _ => untracked) run
    exact off rfl

section Inner

variable {rt : Runtime ι} {T : Option String} {type : String} (base : T.map TypeName.base = some type)
  (unregistered : rt.functions.converter? (some type) (some type) = none)
  (registered : rt.nested? type = some N) {e : Edge}
include base unregistered registered

/-- What a nested value becomes is what its container makes of it, and null stays null. -/
theorem makesInside_of_nestedValue (untracked : p.tracker = none)
    (run : Conversion.nestedValue .free rt.functions (rt.inner .free room a b) e T T v place p = (.ok w, q)) :
    N.MakesInside room a b v w ∧ q.tracker = none := by
  by_cases null : v = .null
  · subst null
    cases run
    exact ⟨Or.inl ⟨rfl, rfl⟩, untracked⟩
  · have follows : rt.inner .free room a b type = some (inside .free room N a b) := by
      rw [inner, follow, registered, Option.map_some]
    rw [Conversion.nestedValue_inner base unregistered follows null] at run
    obtain ⟨makes, off⟩ := makes_of_run untracked ((inside_refines_succ room N a b v place).ok run)
    exact ⟨Or.inr ⟨null, makes⟩, off⟩

/-- What the value of a nested item becomes is what its container makes of it or, for a hint, of its items. -/
theorem makesHeld_of_hintedValue {hint : Option Hint} (untracked : p.tracker = none)
    (run : Conversion.hintedValue .free rt.functions (rt.inner .free room a b) e T T hint v place p = (.ok w, q)) :
    N.MakesHeld room hint a b v w := by
  unfold Conversion.hintedValue at run
  unfold MakesHeld
  split
  · rename_i items
    obtain ⟨made, r, each, last⟩ := Run.bind_eq_ok_iff.mp run
    cases last
    refine ⟨made, rfl, Conversion.forall₂_of_nestedItems ?_ untracked each⟩
    intro v w place p q off single
    exact makesInside_of_nestedValue base unregistered registered off single
  · rename_i other
    split at run
    · exact (other _ rfl rfl).elim
    · exact (makesInside_of_nestedValue base unregistered registered untracked run).1

end Inner

/-- What the application of each edge relates, all of them together do, if there are any. -/
theorem alongEdges_rel {apply : Edge → Value → (path : String) → Run Value} {P : Value → Prop}
    {R : Value → Value → Prop}
    (each : ∀ e v place (p q : Progress) w, P v → apply e v place p = (.ok w, q) → R v w)
    (again : ∀ v u, R v u → P u) (trans : ∀ v u w, R v u → R u w → R v w) {edges : List Edge}
    (nonempty : edges ≠ []) (fits : P v) (run : alongEdges apply edges v place p = (.ok w, q)) : R v w := by
  induction edges generalizing v p with
  | nil => exact absurd rfl nonempty
  | cons e rest ih =>
    rw [alongEdges, List.foldlM_cons] at run
    obtain ⟨u, r, first, later⟩ := Run.bind_eq_ok_iff.mp run
    have here := each e v place p r u fits first
    cases rest with
    | nil =>
      cases later
      exact here
    | cons f others => exact trans v u w here (ih (List.cons_ne_nil f others) (again v u here) later)

/-- What every edge relates, whatever it nests, a conversion to another version does. -/
theorem convert_rel {c : Container} (run : Generation.ofContainer c = .ok N.generation) (apart : a ≠ b)
    {P : Value → Prop} {R : Value → Value → Prop}
    (each : ∀ nesting e v place (p q : Progress) w, P v →
      Conversion.applyEdge .free N.functions nesting e v place p = (.ok w, q) → R v w)
    (again : ∀ v u, R v u → P u) (trans : ∀ v u w, R v u → R u w → R v w) (fits : P v)
    (converted : N.convert room a b v place p = (.ok w, q)) : R v w := by
  have made := Generation.made_of_ofContainer run
  obtain ⟨edges, along, applied⟩ := convert_eq_ok_iff.mp converted
  refine alongEdges_rel (fun e v place p q w => each _ e v place p q w) again trans ?_ fits applied
  rintro rfl
  exact apart (made.eq_of_edgesBetween_nil along)

section Generated

variable {c : Container} (run : Generation.ofContainer c = .ok N.generation) {start mid stop : Release}
  (atStart : start ∈ N.generation.timeline.releases)
include run atStart

theorem makes_self (v : Value) : N.Makes room start.name start.name v v := by
  intro place p _
  rw [(Generation.made_of_ofContainer run).convert_self atStart rfl]
  exact ⟨p, rfl⟩

theorem makesHeld_self (hint : Option Hint) (v : Value) :
    N.MakesHeld room hint start.name start.name v v := by
  have single : ∀ v, N.MakesInside room start.name start.name v v := by
    intro v
    by_cases null : v = .null
    · exact Or.inl ⟨null, null⟩
    · exact Or.inr ⟨null, makes_self run atStart v⟩
  unfold MakesHeld
  split
  · exact ⟨_, rfl, List.forall₂_same.mpr fun u _ => single u⟩
  · exact single _

/-- A conversion between different versions makes a map or the name of a variant, so neither null nor
a list. -/
theorem Makes.shape (atStop : stop ∈ N.generation.timeline.releases) (apart : start ≠ stop)
    (makes : N.Makes room start.name stop.name v w) :
    (∃ entries, w = .map entries) ∨ ∃ name, w = .text name := by
  obtain ⟨q, converted⟩ := makes "" ⟨none, 0, 0⟩ rfl
  have sound := (Generation.made_of_ofContainer run).sound
  have names : start.name ≠ stop.name := fun same => apart (sound.eq_of_name atStart atStop same)
  exact convert_rel (P := fun _ => True)
    (R := fun _ w => (∃ entries, w = .map entries) ∨ ∃ name, w = .text name) run names
    (fun _ _ _ _ _ _ _ _ applied => Conversion.applyEdge_makes applied) (fun _ _ _ => trivial)
    (fun _ _ _ _ last => last) trivial converted

variable (atMid : mid ∈ N.generation.timeline.releases) (atStop : stop ∈ N.generation.timeline.releases)
  (through : start.rank ≤ mid.rank ∧ mid.rank ≤ stop.rank ∨ stop.rank ≤ mid.rank ∧ mid.rank ≤ start.rank)
include atMid atStop through

theorem Makes.trans (first : N.Makes room start.name mid.name v u)
    (second : N.Makes room mid.name stop.name u w) : N.Makes room start.name stop.name v w := by
  intro place p untracked
  have sound := (Generation.made_of_ofContainer run).sound
  obtain ⟨r, before⟩ := first place p untracked
  obtain ⟨q, after⟩ := second place r (makes_of_run untracked before).2
  refine ⟨q, ?_⟩
  rw [convert_through run rfl (sound.get_name atStart) (sound.get_name atMid) (sound.get_name atStop) through]
  exact ⟨u, r, before, after⟩

variable (apart : start ≠ mid)
include apart

theorem MakesInside.trans (first : N.MakesInside room start.name mid.name v u)
    (second : N.MakesInside room mid.name stop.name u w) :
    N.MakesInside room start.name stop.name v w := by
  rcases first with ⟨rfl, rfl⟩ | ⟨there, before⟩
  · rcases second with ⟨_, rfl⟩ | ⟨null, _⟩
    · exact Or.inl ⟨rfl, rfl⟩
    · exact absurd rfl null
  · have shape := before.shape run atStart atMid apart
    rcases second with ⟨rfl, _⟩ | ⟨_, after⟩
    · rcases shape with ⟨_, same⟩ | ⟨_, same⟩ <;> cases same
    · exact Or.inr ⟨there, before.trans run atStart atMid atStop through after⟩

/-- What is made between two versions is made by way of one between them. -/
theorem MakesHeld.trans {hint : Option Hint} (first : N.MakesHeld room hint start.name mid.name v u)
    (second : N.MakesHeld room hint mid.name stop.name u w) :
    N.MakesHeld room hint start.name stop.name v w := by
  have single : ∀ v u w, N.MakesInside room start.name mid.name v u →
      N.MakesInside room mid.name stop.name u w → N.MakesInside room start.name stop.name v w :=
    fun v u w first second => first.trans run atStart atMid atStop through apart second
  by_cases list : ∃ items, hint = some .list ∧ v = .list items
  · obtain ⟨items, rfl, rfl⟩ := list
    obtain ⟨us, rfl, before⟩ := first
    obtain ⟨ws, rfl, after⟩ := second
    exact ⟨ws, rfl, forall₂_trans single before after⟩
  · rw [makesHeld_of_not_list fun items listed same => list ⟨items, listed, same⟩] at first ⊢
    -- What a conversion makes is no list, so it is not taken apart either.
    have whole : ∀ items, hint = some .list → u ≠ .list items := by
      rintro items _ rfl
      rcases first with ⟨_, same⟩ | ⟨_, makes⟩
      · cases same
      · rcases makes.shape run atStart atMid apart with ⟨_, same⟩ | ⟨_, same⟩ <;> cases same
    rw [makesHeld_of_not_list whole] at second
    exact single _ _ _ first second

end Generated

end Runtime

namespace Generation.Made

variable {ι : Type} {c : Container} {g : Generation} (made : Made c g) (struct : c.kind = .struct) {item : Item}
  (listed : item ∈ c.items)
include made struct listed

/-- On the way to the next version the step of an item makes what the target of the step has in the end. -/
theorem convert_item_step {rt : Runtime ι} (own : rt.generation = g) {room : Nat} {place : String}
    {r s : Release} {d : Direction} (atR : r ∈ g.timeline.releases) (atS : s ∈ g.timeline.releases)
    (hop : d.Steps r s) {step : FieldStep} (along : FieldStep.along? c g.timeline d r s item = some step)
    {v w : Value} {p q : Progress} (converted : rt.convert room r.name s.name v place p = (.ok w, q)) :
    ∃ e x y out out' p' q', g.edge? r.name s.name = some e ∧ v = .map x ∧ w = .map y ∧
      (p.tracker = none → p'.tracker = none) ∧
      Conversion.fieldStep .free rt.functions (rt.inner .free room r.name s.name) e place x out step p' =
        (.ok out', q') ∧
      Value.member? y step.target = Value.member? out' step.target := by
  obtain ⟨_, single, _⟩ := Runtime.convert_eq_ok_iff.mp converted
  rw [own] at single
  obtain ⟨e, found, _⟩ := (made.edgesBetween_step_eq_ok_iff atR atS hop).mp single
  have joins := made.edge_found atR atS found
  have steps := joins.fields struct
  rw [Direction.eq_of_steps joins.step hop] at steps
  rw [made.convert_step atR atS hop own found] at converted
  obtain ⟨x, y, q', rfl, rfl, fold, _⟩ := Conversion.fields_of_applyEdge steps converted
  obtain ⟨front, back, split⟩ := List.append_of_mem listed
  rw [split, List.filterMap_append, List.filterMap_cons_some along, List.foldlM_append] at fold
  obtain ⟨out, p', earlier, fold⟩ := Run.bind_eq_ok_iff.mp fold
  rw [List.foldlM_cons] at fold
  obtain ⟨out', r', here, later⟩ := Run.bind_eq_ok_iff.mp fold
  obtain ⟨n, after, target⟩ := made.along?_target atR atS hop listed along
  have fresh : ∀ t ∈ back.filterMap (FieldStep.along? c g.timeline d r s), t.target ≠ step.target := by
    intro t among clash
    obtain ⟨other, there, later⟩ := List.mem_filterMap.mp among
    have member : other ∈ c.items := by
      rw [split]
      exact List.mem_append_right _ (List.mem_cons_of_mem _ there)
    obtain ⟨k, present, leads⟩ := made.along?_target atR atS hop member later
    have equal := made.item_of_name atS member listed present after (leads.symm.trans (clash.trans target))
    have distinct := made.item_names_nodup.of_map
    rw [split] at distinct
    rw [equal] at there
    exact (List.nodup_cons.mp (List.nodup_append.mp distinct).2.1).1 there
  refine ⟨e, x, y, out, out', p', r', found, rfl, rfl, fun untracked => ?_, here,
    Conversion.member?_foldlM fresh later⟩
  exact Conversion.foldlM_untracked (rt.inner_alike room _ _) (by rw [Conversion.count_tracker, untracked]) earlier

omit struct listed in
/-- What every step on the way to a version relates of the values of an item, the whole way does if the item is
there all the way. -/
theorem convert_held_path (run : ofContainer c = .ok g) {rt : Runtime ι} (own : rt.generation = g)
    {room : Nat} {place : String} {P : Option Tracker → Prop}
    {Q : Release → Release → Value → Value → Prop} {stop : Release} (atStop : stop ∈ g.timeline.releases)
    {n : String × Option String} (after : (item.statusIn c.kind g.timeline stop).member? = some n)
    (self : ∀ v, Q stop stop v v)
    (step : ∀ d : Direction, ∀ r ∈ g.timeline.releases, ∀ s ∈ g.timeline.releases, d.Steps r s → ∀ m k,
      (item.statusIn c.kind g.timeline r).member? = some m →
      (item.statusIn c.kind g.timeline s).member? = some k → ∀ x v w (p q : Progress),
      Value.member? x m.1 = some v → P p.tracker →
      rt.convert room r.name s.name (.map x) place p = (.ok w, q) →
      ∃ y u, w = .map y ∧ Value.member? y k.1 = some u ∧ Q r s v u ∧ P q.tracker)
    (trans : ∀ d : Direction, ∀ r ∈ g.timeline.releases, ∀ s ∈ g.timeline.releases, d.Steps r s →
      r.rank ≤ s.rank ∧ s.rank ≤ stop.rank ∨ stop.rank ≤ s.rank ∧ s.rank ≤ r.rank →
      ∀ v u w, Q r s v u → Q s stop u w → Q r stop v w) :
    ∀ start ∈ g.timeline.releases, (∀ r ∈ g.timeline.releases, min start.rank stop.rank ≤ r.rank →
      (item.statusIn c.kind g.timeline r).member? ≠ none) → ∀ m x v w (p q : Progress),
      (item.statusIn c.kind g.timeline start).member? = some m → Value.member? x m.1 = some v → P p.tracker →
      rt.convert room start.name stop.name (.map x) place p = (.ok w, q) →
      ∃ y u, w = .map y ∧ Value.member? y n.1 = some u ∧ Q start stop v u := by
  refine made.sound.toward_induction atStop ?_ ?_
  · intro _ m x v w p q before held _ converted
    cases before.symm.trans after
    rw [made.convert_self atStop own] at converted
    cases converted
    exact ⟨x, v, rfl, held, self v⟩
  · intro d start atStart mid atMid hop through ih present m x v w p q before held fits converted
    obtain ⟨k, between⟩ := Option.ne_none_iff_exists'.mp (present mid atMid (by omega))
    obtain ⟨_, t, first, later⟩ := (Runtime.convert_through run own (made.sound.get_name atStart)
      (made.sound.get_name atMid) (made.sound.get_name atStop) through room _ _ _ _ _).mp converted
    obtain ⟨z, u, rfl, there, here, fits⟩ := step d start atStart mid atMid hop m k before between x v _ p t held
      fits first
    obtain ⟨y, u', same, last, onward⟩ := ih (fun r atR above => present r atR (by omega)) k z u w t q between
      there fits later
    exact ⟨y, u', same, last, trans d start atStart mid atMid hop through v u u' here onward⟩

variable (nested : item.nested = true) (keeps : item.KeepsType)
include nested keeps

section Registered

variable {rt N : Runtime ι} (own : rt.generation = g) {room : Nat} {type : String}
  (base : item.type.map TypeName.base = some type)
  (unregistered : rt.functions.converter? (some type) (some type) = none)
  (registered : rt.nested? type = some N) {place : String}
include own

/-- On the way to the next version the step of a nested item converts its value. -/
theorem convert_hinted_step {r s : Release} {d : Direction} (atR : r ∈ g.timeline.releases)
    (atS : s ∈ g.timeline.releases) (hop : d.Steps r s) {m n : String × Option String}
    (before : (item.statusIn c.kind g.timeline r).member? = some m)
    (after : (item.statusIn c.kind g.timeline s).member? = some n) {x : Entries Value Value} {v w : Value}
    {p q : Progress} (held : Value.member? x m.1 = some v)
    (converted : rt.convert room r.name s.name (.map x) place p = (.ok w, q)) :
    ∃ e y u p' q', w = .map y ∧ Value.member? y n.1 = some u ∧ (p.tracker = none → p'.tracker = none) ∧
      Conversion.hintedValue .free rt.functions (rt.inner .free room r.name s.name) e item.type item.type item.hint v
        s!"{place}.{item.name}" p' = (.ok u, q') := by
  have step : FieldStep.along? c g.timeline d r s item =
      some (.nested item.name m.1 n.1 item.type item.type item.hint) := by
    rw [made.along?_kept atR atS hop listed keeps before after, FieldStep.carry_nested nested]
  obtain ⟨e, x', y, out, out', p', q', _, fields, rfl, off, here, last⟩ :=
    made.convert_item_step struct listed own atR atS hop step converted
  cases fields
  rcases Conversion.carry_run here with ⟨missing, _⟩ | ⟨u, t, present, run, rfl⟩
  · cases held.symm.trans missing
  · cases held.symm.trans present
    exact ⟨e, y, t, p', q', rfl, last.trans Entries.get?_put_text, off, run⟩

include base unregistered registered

/-- On the way to the next version the value of a nested item is left to the runtime of its type. -/
theorem convert_nested_step {r s : Release} {d : Direction} (atR : r ∈ g.timeline.releases)
    (atS : s ∈ g.timeline.releases) (hop : d.Steps r s) {m n : String × Option String}
    (before : (item.statusIn c.kind g.timeline r).member? = some m)
    (after : (item.statusIn c.kind g.timeline s).member? = some n) {x : Entries Value Value} {v w : Value}
    {p q : Progress} (held : Value.member? x m.1 = some v) (untracked : p.tracker = none)
    (converted : rt.convert room r.name s.name (.map x) place p = (.ok w, q)) :
    ∃ y u, w = .map y ∧ Value.member? y n.1 = some u ∧
      N.MakesHeld room item.hint r.name s.name v u ∧ q.tracker = none := by
  obtain ⟨e, y, u, p', q', same, there, off, run⟩ := made.convert_hinted_step struct listed nested keeps own
    atR atS hop before after held converted
  exact ⟨y, u, same, there, Runtime.makesHeld_of_hintedValue base unregistered registered (off untracked) run,
    (Runtime.makes_of_run untracked converted).2⟩

variable {inside : Container} (run : ofContainer c = .ok g) (runs : ofContainer inside = .ok N.generation)
  (sub : g.timeline.names.Sublist N.generation.timeline.names)
include run runs sub

/-- Along a whole path the value of a nested item becomes what the runtime of its type makes of it
between the first version and the last. -/
theorem convert_nested_path {start stop : Release} (atStart : start ∈ g.timeline.releases)
    (atStop : stop ∈ g.timeline.releases)
    (present : ∀ r ∈ g.timeline.releases, min start.rank stop.rank ≤ r.rank →
      (item.statusIn c.kind g.timeline r).member? ≠ none) {m n : String × Option String}
    (before : (item.statusIn c.kind g.timeline start).member? = some m)
    (after : (item.statusIn c.kind g.timeline stop).member? = some n) {x : Entries Value Value}
    {v w : Value} {p q : Progress} (held : Value.member? x m.1 = some v) (untracked : p.tracker = none)
    (converted : rt.convert room start.name stop.name (.map x) place p = (.ok w, q)) :
    ∃ y u, w = .map y ∧ Value.member? y n.1 = some u ∧
      N.MakesHeld room item.hint start.name stop.name v u := by
  have inner := made_of_ofContainer runs
  refine made.convert_held_path run own (P := (· = none))
    (Q := fun r s v u => N.MakesHeld room item.hint r.name s.name v u) atStop after (fun v => ?_)
    (fun d r atR s atS hop m k before after x v w p q held untracked converted => made.convert_nested_step struct
      listed nested keeps own base unregistered registered atR atS hop before after held untracked converted)
    (fun d r atR s atS hop through v u w makes onward => ?_) start atStart present m x v w p q before held untracked
    converted
  · obtain ⟨stop', there, _, same, _⟩ := inner.sound.get_of_mem (sub.subset (List.mem_map_of_mem atStop))
    rw [← same]
    exact Runtime.makesHeld_self runs there item.hint v
  · obtain ⟨r', inR, s', inS, stop', inStop, nameR, nameS, nameStop, order⟩ :=
      made.sound.exists_of_sublist inner.sound sub atR atS atStop through
    have apart : r' ≠ s' := by
      rintro rfl
      have equal := made.sound.eq_of_name atR atS (nameR.symm.trans nameS)
      rw [equal] at hop
      cases d <;> simp only [Direction.Steps] at hop <;> omega
    rw [← nameR, ← nameS] at makes
    rw [← nameS, ← nameStop] at onward
    rw [← nameR, ← nameStop]
    exact makes.trans runs inR inS inStop order apart onward

end Registered

end Generation.Made

/-- An item with members of its own in two versions has one in every version from the older one on. -/
theorem Generation.Made.exists_members {c : Container} {g : Generation} (made : Made c g) {item : Item}
    (listed : item ∈ c.items) {a b : String} {first second : Definition} {before after : Member}
    (atA : g.definition a = .ok first) (atB : g.definition b = .ok second)
    (source : first.memberOfItem? item.name = some before)
    (target : second.memberOfItem? item.name = some after) :
    ∃ start ∈ g.timeline.releases, ∃ stop ∈ g.timeline.releases, start.name = a ∧ stop.name = b ∧
      (∀ r ∈ g.timeline.releases, min start.rank stop.rank ≤ r.rank →
        (item.statusIn c.kind g.timeline r).member? ≠ none) ∧
      (∃ m, (item.statusIn c.kind g.timeline start).member? = some m ∧ before.name = m.1) ∧
      ∃ n, (item.statusIn c.kind g.timeline stop).member? = some n ∧ after.name = n.1 := by
  obtain ⟨start, atStart, gotStart, rfl⟩ := made.definition_of_name atA
  obtain ⟨stop, atStop, gotStop, rfl⟩ := made.definition_of_name atB
  rw [made.memberOfItem?_eq listed] at source target
  obtain ⟨m, atSource, rfl⟩ := Option.map_eq_some_iff.mp source
  obtain ⟨n, atTarget, rfl⟩ := Option.map_eq_some_iff.mp target
  refine ⟨start, atStart, stop, atStop, Timeline.name_of_find? (Timeline.get_eq_ok_iff.mp gotStart),
    Timeline.name_of_find? (Timeline.get_eq_ok_iff.mp gotStop), ?_, ⟨m, atSource, rfl⟩, n, atTarget, rfl⟩
  intro r _ above absent
  rcases le_total start.rank stop.rank with up | down
  · cases atSource.symm.trans (Item.absent_of_le (by omega) absent)
  · cases atTarget.symm.trans (Item.absent_of_le (by omega) absent)

/-- Nested values follow the whole path of the instance that holds them: what a conversion makes of the
value of a nested item is what the runtime of its type makes of it between the same two versions, which
may have others in between. -/
theorem Runtime.convert_nested {ι : Type} {c inside : Container} {g : Generation} {rt N : Runtime ι}
    {room : Nat} {a b : String} {first second : Definition} {item : Item} {type : String}
    {before after : Member} {x : Entries Value Value} {v w : Value} {place : String} {p q : Progress}
    (run : Generation.ofContainer c = .ok g) (struct : c.kind = .struct) (own : rt.generation = g)
    (listed : item ∈ c.items) (nested : item.nested = true) (keeps : item.KeepsType)
    (typed : item.type = some type) (registered : rt.nested? (TypeName.base type) = some N)
    (unregistered : rt.functions.converter? (some (TypeName.base type)) (some (TypeName.base type)) = none)
    (runs : Generation.ofContainer inside = .ok N.generation)
    (sub : g.timeline.names.Sublist N.generation.timeline.names)
    (atA : g.definition a = .ok first) (atB : g.definition b = .ok second)
    (source : first.memberOfItem? item.name = some before)
    (target : second.memberOfItem? item.name = some after)
    (held : Value.member? x before.name = some v) (untracked : p.tracker = none)
    (converted : rt.convert room a b (.map x) place p = (.ok w, q)) :
    ∃ y u, w = .map y ∧ Value.member? y after.name = some u ∧
      N.MakesHeld room item.hint a b v u := by
  have made := Generation.made_of_ofContainer run
  obtain ⟨start, atStart, stop, atStop, rfl, rfl, present, ⟨m, atSource, old⟩, n, atTarget, new⟩ :=
    made.exists_members listed atA atB source target
  rw [old] at held
  rw [new]
  exact made.convert_nested_path struct listed nested keeps own (by rw [typed, Option.map_some])
    unregistered registered run runs sub atStart atStop present atSource atTarget held untracked converted

/-- A container with a version that `customer` does not have. -/
def Runtime.address : Container where
  name := "Address"
  kind := .struct
  doc := none
  versions := ["v1", "v2", "v3"].map Declaration.named
  items := [⟨"street", some "str", none, none, false, none, [], none⟩,
    ⟨"postcode", some "str", none, none, false, some ⟨"v2", none, some (.text "00000"), none⟩,
      [⟨"v3", some "zip", none, none, none⟩], none⟩]
  options := ⟨true, false⟩
  resource := none

/-- A container that holds a list of others. -/
def Runtime.customer : Container where
  name := "Customer"
  kind := .struct
  doc := none
  versions := ["v1", "v3"].map Declaration.named
  items := [⟨"homes", some "List[Address]", none, some .list, true, none,
    [⟨"v3", some "addresses", none, none, none⟩], none⟩]
  options := ⟨true, false⟩
  resource := none

/-- The homes of a customer are converted one by one, under the new name of the field. -/
theorem Runtime.convert_nested_customer :
    ∃ g h first second before after w q y u, Generation.ofContainer customer = .ok g ∧
      Generation.ofContainer address = .ok h ∧ g.timeline.names.Sublist h.timeline.names ∧
      g.definition "v1" = .ok first ∧ g.definition "v3" = .ok second ∧
      first.memberOfItem? "homes" = some before ∧ second.memberOfItem? "homes" = some after ∧
      before.name = "addresses" ∧
      (star .standard g [h]).convert 1 "v1" "v3"
        (.map [(.text "addresses", .list [.map [(.text "street", .text "Main")], .null])]) ""
        (Progress.start none) = (.ok w, q) ∧
      w = .map y ∧ Value.member? y after.name = some u ∧
      ((star .standard g [h]).move (some h)).MakesHeld 1 (some .list) "v1" "v3"
        (.list [.map [(.text "street", .text "Main")], .null]) u := by
  have members : (Generation.ofContainer customer).toOption.map (fun g =>
      (g.timeline.names, (g.definition "v1").toOption.map fun d => (d.memberOfItem? "homes").map (·.name),
        (g.definition "v3").toOption.map fun d => (d.memberOfItem? "homes").isSome)) =
      some (["v1", "v3"], some (some "addresses"), some true) := by decide +kernel
  have names : (Generation.ofContainer address).toOption.map (fun h => (h.timeline.names, h.name)) =
      some (["v1", "v2", "v3"], "Address") := by decide +kernel
  have converts : (Generation.ofContainer customer).toOption.bind (fun g =>
      (Generation.ofContainer address).toOption.map fun h =>
        ((star .standard g [h]).convert 1 "v1" "v3"
          (.map [(.text "addresses", .list [.map [(.text "street", .text "Main")], .null])]) ""
          (Progress.start none)).1.isOk) = some true := by decide +kernel
  obtain ⟨g, run, members⟩ := exists_of_toOption_map members
  obtain ⟨h, runs, names⟩ := exists_of_toOption_map names
  simp only [run, runs, Except.toOption, Option.map_some, Option.bind_some, Option.some.injEq] at converts
  simp only [Prod.mk.injEq] at members names
  obtain ⟨outer, atA, atB⟩ := members
  obtain ⟨first, atA, source⟩ := exists_of_toOption_map atA
  obtain ⟨before, source, old⟩ := Option.map_eq_some_iff.mp source
  obtain ⟨second, atB, target⟩ := exists_of_toOption_map atB
  obtain ⟨after, target⟩ := Option.isSome_iff_exists.mp target
  obtain ⟨w, converted⟩ := exists_of_isOk converts
  have base : TypeName.base "List[Address]" = "Address" := by decide +kernel
  have registered : (star .standard g [h]).nested? (TypeName.base "List[Address]") =
      some ((star .standard g [h]).move (some h)) := nested?_star .standard g (names.2.trans base.symm)
  have within : g.timeline.names.Sublist h.timeline.names := by
    rw [outer, names.1]
    decide
  obtain ⟨y, u, same, holds, makes⟩ := @convert_nested _ customer address g (star .standard g [h])
    ((star .standard g [h]).move (some h)) 1 "v1" "v3" first second
    ⟨"homes", some "List[Address]", none, some .list, true, none,
      [⟨"v3", some "addresses", none, none, none⟩], none⟩ "List[Address]" before after
    [(.text "addresses", .list [.map [(.text "street", .text "Main")], .null])]
    (.list [.map [(.text "street", .text "Main")], .null]) w "" (Progress.start none) _
    run rfl rfl (List.mem_cons_self ..) rfl (by simp [Item.KeepsType]) rfl registered rfl runs within
    atA atB source target (by rw [old]; rfl) rfl (Prod.ext converted rfl)
  exact ⟨g, h, first, second, before, after, w, _, y, u, run, runs, within, atA, atB, source, target, old,
    Prod.ext converted rfl, same, holds, makes⟩

end Lineage
