import Lineage.Proofs.Conversion.Composition

namespace Lineage

/-- The nested type whose values a step converts, if they keep the innermost type that they have. -/
def FieldStep.asked? : FieldStep → Option String
  | nested _ _ _ fromType toType _ =>
    if fromType.map TypeName.base = toType.map TypeName.base then toType.map TypeName.base else none
  | _ => none

/-- The nested type whose values a step converts as payloads, unless a function does that. -/
def VariantStep.asked? : VariantStep → Option String
  | keep _ _ _ function fromType toType nested =>
    if (filled? function).isNone && (nested || fromType != toType) then
      if fromType.map TypeName.base = toType.map TypeName.base then toType.map TypeName.base else none
    else none
  | fallback _ _ _ => none

/-- Whether some step leaves values to the container of a type. -/
def Steps.Asks (type : String) : Steps → Prop
  | fields steps _ => ∃ s ∈ steps, s.asked? = some type
  | variants steps => ∃ s ∈ steps, s.asked? = some type

namespace Run

/-- Whether a relation of steps of conversions holds of every step and itself, and of what is put together
of steps that are related. -/
structure Congruence (R : (α : Type) → Run α → Run α → Prop) : Prop where
  refl : ∀ {α : Type} (m : Run α), R α m m
  bind : ∀ {α β : Type} {m n : Run α} {k l : α → Run β}, R α m n → (∀ a, R β (k a) (l a)) →
    R β (m >>= k) (n >>= l)

namespace Congruence

theorem eq : Congruence fun _ m n => m = n := by
  refine ⟨fun _ => rfl, fun first rest => ?_⟩
  rw [first, funext rest]

variable {R : (α : Type) → Run α → Run α → Prop} (congr : Congruence R)
include congr

theorem foldlM {β γ : Type} {step step' : β → γ → Run β} {xs : List γ}
    (each : ∀ b, ∀ x ∈ xs, R β (step b x) (step' b x)) (b : β) :
    R β (xs.foldlM step b) (xs.foldlM step' b) := by
  induction xs generalizing b with
  | nil => exact congr.refl _
  | cons x rest ih =>
    rw [List.foldlM_cons, List.foldlM_cons]
    refine congr.bind (each b x (List.mem_cons_self ..)) fun c => ih ?_ c
    exact fun b y member => each b y (List.mem_cons_of_mem _ member)

end Congruence

/-- Whether a step of a conversion ends like another, unless the stack is full before. -/
def Refines {α : Type} (m n : Run α) : Prop :=
  ∀ p, (∃ q, m p = (.error (.fault (.tooDeep "")), q)) ∨ m p = n p

namespace Refines

variable {α : Type} {m n : Run α}

/-- Steps that refine others do so one after the other. -/
theorem congruence : Congruence fun _ m n => Refines m n := by
  refine ⟨fun m p => Or.inr rfl, fun {α β m n k l} first rest p => ?_⟩
  rcases first p with ⟨q, full⟩ | same
  · exact Or.inl ⟨q, bind_of_error full⟩
  · cases ends : m p with
    | mk outcome q =>
      have other := same.symm.trans ends
      cases outcome with
      | error failure => exact Or.inr ((bind_of_error ends).trans (bind_of_error other).symm)
      | ok a =>
        rw [bind_of_ok ends, bind_of_ok other]
        exact rest a q

theorem trans {l : Run α} (first : Refines m n) (second : Refines n l) : Refines m l := by
  intro p
  rcases first p with full | same
  · exact Or.inl full
  · rw [same]
    exact second p

theorem ok {a : α} {p q : Progress} (refines : Refines m n) (run : m p = (.ok a, q)) :
    n p = (.ok a, q) := by
  rcases refines p with ⟨_, full⟩ | same
  · cases run.symm.trans full
  · exact same.symm.trans run

end Refines

end Run

namespace Conversion

variable {depths : Depths} {functions : Functions} {edge : Edge} {R : (α : Type) → Run α → Run α → Prop}

/-- Whether values of a type are converted in related ways, if at all. -/
def Nesting.Related (R : (α : Type) → Run α → Run α → Prop) (first second : Nesting) (type : String) : Prop :=
  Option.Rel (fun convert convert' => ∀ v path, R Value (convert v path) (convert' v path)) (first type)
    (second type)

section Related

variable (congr : Run.Congruence R) {first second : Nesting}
include congr

/-- Related things are done to a nested value if they are by the containers of its type. -/
theorem nestedValue_related {fromType toType : Option String}
    (related : ∀ type, fromType.map TypeName.base = some type → toType.map TypeName.base = some type →
      Nesting.Related R first second type) (v : Value) (path : String) :
    R Value (nestedValue depths functions first edge fromType toType v path)
      (nestedValue depths functions second edge fromType toType v path) := by
  by_cases null : v = .null
  · rw [null]
    exact congr.refl _
  have inner : Option.Rel (fun convert convert' => ∀ v path, R Value (convert v path) (convert' v path))
      (if fromType.map TypeName.base = toType.map TypeName.base then
        (toType.map TypeName.base).bind first else none)
      (if fromType.map TypeName.base = toType.map TypeName.base then
        (toType.map TypeName.base).bind second else none) := by
    split
    · rename_i equal
      cases target : toType.map TypeName.base with
      | none => exact .none
      | some type => exact related type (equal.trans target) target
    · exact .none
  simp only [nestedValue]
  cases functions.converter? (fromType.map TypeName.base) (toType.map TypeName.base) with
  | some f => exact congr.refl _
  | none =>
    generalize (if fromType.map TypeName.base = toType.map TypeName.base then
      (toType.map TypeName.base).bind first else none) = f at inner
    generalize (if fromType.map TypeName.base = toType.map TypeName.base then
      (toType.map TypeName.base).bind second else none) = f' at inner
    cases inner with
    | none => exact congr.refl _
    | some each => exact each v path

theorem nestedItems_related {convert convert' : Value → (path : String) → Run Value}
    (each : ∀ v path, R Value (convert v path) (convert' v path)) (path : String) (index : Nat)
    (items : List Value) :
    R _ (nestedItems convert path index items) (nestedItems convert' path index items) := by
  induction items generalizing index with
  | nil => exact congr.refl _
  | cons v rest ih =>
    refine congr.bind (each v _) fun w => congr.bind (ih (index + 1)) fun ws => ?_
    exact congr.refl _

theorem hintedValue_related {fromType toType : Option String} {hint : Option Hint}
    (related : ∀ type, fromType.map TypeName.base = some type → toType.map TypeName.base = some type →
      Nesting.Related R first second type) (v : Value) (path : String) :
    R Value (hintedValue depths functions first edge fromType toType hint v path)
      (hintedValue depths functions second edge fromType toType hint v path) := by
  have single := @nestedValue_related depths functions edge R congr first second fromType toType related
  unfold hintedValue
  split
  · exact congr.bind (nestedItems_related congr single _ _ _) fun ws => congr.refl _
  · exact single v path

/-- A step does related things if the containers of the type that it asks for do. -/
theorem fieldStep_related {path : String} {fields out : Entries Value Value} {s : FieldStep}
    (related : ∀ type, s.asked? = some type → Nesting.Related R first second type) :
    R _ (fieldStep depths functions first edge path fields out s)
      (fieldStep depths functions second edge path fields out s) := by
  cases s with
  | copy | default | apply => exact congr.refl _
  | nested item source target fromType toType hint =>
    simp only [fieldStep, carry]
    split
    · refine congr.bind (hintedValue_related congr (fun type own other => related type ?_) _ _) fun w =>
        congr.refl _
      rw [FieldStep.asked?, own, other, if_pos rfl]
    · exact congr.refl _

/-- A variant is converted in related ways if the containers of the type of its payload do so. -/
theorem variantStep_related {path : String} {carried : Option Value} {s : VariantStep}
    (related : ∀ type, s.asked? = some type → Nesting.Related R first second type) :
    R _ (variantStep depths functions first edge path carried s)
      (variantStep depths functions second edge path carried s) := by
  cases s with
  | fallback => exact congr.refl _
  | keep item source target function fromType toType nested =>
    cases carried with
    | none => exact congr.refl _
    | some v =>
      refine congr.bind ?_ fun w => congr.refl _
      simp only [payload]
      cases call : filled? function with
      | some f => exact congr.refl _
      | none =>
        by_cases converts : (nested || fromType != toType) = true
        · simp only [converts, if_true]
          refine nestedValue_related congr (fun type own other => related type ?_) _ _
          rw [VariantStep.asked?, call, converts, own, other]
          simp
        · simp only [converts, Bool.false_eq_true, if_false]
          exact congr.refl _

/-- An edge does related things to a value if related things are done to the values of all types for which
its steps ask. -/
theorem applyEdge_related
    (related : ∀ type, edge.steps.Asks type → Nesting.Related R first second type) (v : Value)
    (path : String) :
    R Value (applyEdge depths functions first edge v path) (applyEdge depths functions second edge v path) := by
  refine congr.bind (congr.refl _) fun _ => ?_
  cases own : edge.steps with
  | fields steps dropped =>
    rw [own] at related
    cases v with
    | map fields =>
      refine congr.bind (congr.foldlM (fun out s member => ?_) []) fun out => congr.refl _
      exact fieldStep_related congr fun type asked => related type ⟨s, member, asked⟩
    | _ => exact congr.refl _
  | variants steps =>
    rw [own] at related
    simp only [applyVariants]
    split
    · exact congr.refl _
    · split
      · rename_i s found
        have member := List.mem_of_find?_eq_some found
        exact variantStep_related congr fun type asked => related type ⟨s, member, asked⟩
      · exact congr.refl _

end Related

end Conversion

namespace Generation

theorem mem_edges_of_edgesAlong {g : Generation} {current : String} {rs : List Release} {edges : List Edge}
    (along : g.edgesAlong current rs = .ok edges) : ∀ e ∈ edges, e ∈ g.edges := by
  induction rs generalizing current edges with
  | nil =>
    cases along
    exact List.forall_mem_nil _
  | cons r rest ih =>
    obtain ⟨e, others, found, onward, rfl⟩ := edgesAlong_cons_eq_ok_iff.mp along
    exact List.forall_mem_cons.mpr ⟨List.mem_of_find?_eq_some found, ih onward⟩

theorem mem_edges_of_edgesBetween {g : Generation} {a b : String} {edges : List Edge}
    (between : g.edgesBetween a b = .ok edges) : ∀ e ∈ edges, e ∈ g.edges := by
  obtain ⟨path, _, along⟩ := exists_of_bind between
  exact mem_edges_of_edgesAlong along

end Generation

namespace Runtime

variable {ι κ : Type} {depths : Depths}

/-- How nested values are converted from one version to another. -/
def inner (rt : Runtime ι) (depths : Depths) (room : Nat) (a b : String) : Nesting :=
  rt.follow (inside depths room) a b

/-- Of the containers that are registered under a name the last one counts. -/
theorem nested?_eq (rt : Runtime ι) (type : String) :
    rt.nested? type = (rt.node.registered.reverse.find? fun i => (rt.move i).name == type).map rt.move := by
  rw [nested?, nested, Entries.get?_ofList, Entries.get?, ← List.map_reverse, List.find?_map, Option.map_map]
  rfl

theorem exists_of_nested? {rt N : Runtime ι} {type : String} (registered : rt.nested? type = some N) :
    ∃ i ∈ rt.node.registered, N = rt.move i ∧ N.name = type := by
  rw [nested?_eq] at registered
  obtain ⟨i, found, rfl⟩ := Option.map_eq_some_iff.mp registered
  exact ⟨i, List.mem_reverse.mp (List.mem_of_find?_eq_some found), rfl, by simpa using List.find?_some found⟩

theorem nested?_star_eq (functions : Functions) (g : Generation) (hs : List Generation) (type : String) :
    (star functions g hs).nested? type = (hs.reverse.find? fun h => h.name == type).map fun h =>
      (star functions g hs).move (some h) := by
  have registered : (star functions g hs).node.registered = hs.map some := rfl
  rw [nested?_eq, registered, ← List.map_reverse, List.find?_map, Option.map_map]
  rfl

theorem nested?_star (functions : Functions) (g : Generation) {h : Generation} {type : String}
    (named : h.name = type) :
    (star functions g [h]).nested? type = some ((star functions g [h]).move (some h)) := by
  simp [nested?_star_eq, named]

/-- A container that is nested in itself. -/
def loop (g : Generation) (functions : Functions) : Runtime Unit :=
  ⟨fun _ => ⟨g, functions, [()]⟩, ()⟩

theorem nested?_loop {g : Generation} (functions : Functions) {type : String} (named : g.name = type) :
    (loop g functions).nested? type = some (loop g functions) := by
  rw [nested?_eq]
  simp [loop, node, move, name, generation, named]

section Related

variable {R : (α : Type) → Run α → Run α → Prop} (congr : Run.Congruence R) {rt : Runtime ι} {rt' : Runtime κ}
  {convert : Runtime ι → Converter} {convert' : Runtime κ → Converter}
include congr

/-- Two containers of which the same was generated are converted in related ways if the values that their
edges leave to others are. -/
theorem between_related (own : rt.generation = rt'.generation) (calls : rt.functions = rt'.functions)
    (related : ∀ e ∈ rt.generation.edges, ∀ type, e.steps.Asks type → Conversion.Nesting.Related R
      (rt.follow convert e.source.name e.target.name) (rt'.follow convert' e.source.name e.target.name) type)
    (a b : String) (v : Value) (path : String) :
    R Value (rt.between depths convert a b v path) (rt'.between depths convert' a b v path) := by
  cases along : rt.generation.edgesBetween a b with
  | error failure =>
    rw [between_of_error along, between_of_error (own ▸ along)]
    exact congr.refl _
  | ok edges =>
    rw [between_of_ok along, between_of_ok (own ▸ along)]
    refine congr.foldlM (fun w e among => ?_) v
    rw [applyBy, applyBy, ← calls]
    exact Conversion.applyEdge_related congr
      (related e (Generation.mem_edges_of_edgesBetween along e among)) w path

omit congr in
theorem follow_related {S : Runtime ι → Runtime κ → Prop} {type : String}
    (inner : Option.Rel S (rt.nested? type) (rt'.nested? type)) {a b : String}
    (each : ∀ N N', S N N' → ∀ v path, R Value (convert N a b v path) (convert' N' a b v path)) :
    Conversion.Nesting.Related R (rt.follow convert a b) (rt'.follow convert' a b) type := by
  rw [Conversion.Nesting.Related, follow, follow]
  generalize rt.nested? type = found at inner ⊢
  generalize rt'.nested? type = found' at inner ⊢
  cases inner with
  | none => exact .none
  | some related => exact .some (each _ _ related)

end Related

theorem inside_refines_succ (room : Nat) (rt : Runtime ι) (a b : String) (v : Value) (path : String) :
    (inside depths room rt a b v path).Refines (inside depths (room + 1) rt a b v path) := by
  induction room generalizing rt a b v path with
  | zero => exact fun p => Or.inl ⟨p, rfl⟩
  | succ room ih =>
    refine between_related Run.Refines.congruence rfl rfl (fun e _ type _ => ?_) a b v path
    refine follow_related (S := (· = ·)) ?_ fun N N' same w place => same ▸ ih N _ _ w place
    cases rt.nested? type with
    | none => exact .none
    | some N => exact .some rfl

/-- With more room a conversion ends as it does with less, unless the stack is full before. -/
theorem inside_refines {room enough : Nat} (fits : room ≤ enough) (rt : Runtime ι) (a b : String) (v : Value)
    (path : String) : (inside depths room rt a b v path).Refines (inside depths enough rt a b v path) := by
  induction fits with
  | refl => exact Run.Refines.congruence.refl _
  | step _ ih => exact ih.trans (inside_refines_succ _ rt a b v path)

theorem between_single {rt : Runtime ι} {e : Edge} {a b : String}
    (single : rt.generation.edgesBetween a b = .ok [e]) (convert : Runtime ι → Converter) :
    rt.between depths convert a b = rt.applyBy depths convert e := by
  funext v path
  rw [between_of_ok single, alongEdges]
  simp only [List.foldlM_cons, List.foldlM_nil, bind_pure]

end Runtime

theorem Timeline.Sound.pathBetween_step {t : Timeline} (sound : t.Sound) {r s : Release}
    (atS : s ∈ t.releases) {d : Direction} (step : d.Steps r s) : t.pathBetween r s = [s] := by
  cases d with
  | upgrade =>
    have next : s.rank = r.rank + 1 := step
    rw [pathBetween_up _ (by omega), ← next, sound.between_cons atS (Nat.lt_succ_self _),
      between_of_le _ le_rfl]
  | downgrade =>
    have next : r.rank = s.rank + 1 := step
    rw [pathBetween_down _ (by omega), next, sound.between_cons atS (Nat.lt_succ_self _),
      between_of_le _ le_rfl, List.reverse_singleton]

namespace Generation.Made

variable {ι : Type} {c : Container} {g : Generation} (made : Made c g) {r s : Release} {d : Direction}
  (atR : r ∈ g.timeline.releases) (atS : s ∈ g.timeline.releases) (step : d.Steps r s)
include made atR

/-- A conversion from a version to itself does nothing. -/
theorem convert_self {rt : Runtime ι} (own : rt.generation = g) (room : Nat) (v : Value)
    (path : String) : rt.convert room r.name r.name v path = pure v := by
  have got := made.sound.get_name atR
  have along : g.edgesBetween r.name r.name = .ok [] := by
    rw [edgesBetween_eq got got, Timeline.pathBetween_self]
    rfl
  rw [Runtime.convert, Runtime.convertOn, Runtime.between_of_ok (own ▸ along)]
  rfl

include atS step

theorem edgesBetween_step_eq_ok_iff {edges : List Edge} :
    g.edgesBetween r.name s.name = .ok edges ↔ ∃ e, g.edge? r.name s.name = some e ∧ edges = [e] := by
  rw [edgesBetween_eq (made.sound.get_name atR) (made.sound.get_name atS), made.sound.pathBetween_step atS step,
    edgesAlong_cons_eq_ok_iff]
  constructor
  · rintro ⟨e, later, found, rest, rfl⟩
    cases rest
    exact ⟨e, found, rfl⟩
  · rintro ⟨e, found, rfl⟩
    exact ⟨e, [], found, rfl, rfl⟩

/-- Between two versions that follow each other the only edge is applied, and it converts the values of
nested types as the runtimes of these types do between the same versions. -/
theorem convert_step {rt : Runtime ι} (own : rt.generation = g) {e : Edge}
    (found : g.edge? r.name s.name = some e) (room : Nat) (v : Value) (path : String) :
    rt.convert room r.name s.name v path =
      Conversion.applyEdge .free rt.functions (rt.inner .free room r.name s.name) e v path := by
  have joins := made.edge_found atR atS found
  have single : rt.generation.edgesBetween r.name s.name = .ok [e] := by
    rw [own]
    exact (made.edgesBetween_step_eq_ok_iff atR atS step).mpr ⟨e, found, rfl⟩
  rw [Runtime.convert, Runtime.convertOn, Runtime.between_single single, Runtime.applyBy, joins.source, joins.target]
  rfl

/-- Where versions are skipped there is no conversion. -/
theorem convert_step_fails {rt : Runtime ι} (own : rt.generation = g) (skips : ¬ c.Converts (d.older r s))
    (room : Nat) (v : Value) (path : String) (p : Progress) :
    ∃ failure q, rt.convert room r.name s.name v path p = (.error failure, q) := by
  cases along : g.edgesBetween r.name s.name with
  | ok edges =>
    obtain ⟨e, found, _⟩ := (made.edgesBetween_step_eq_ok_iff atR atS step).mp along
    exact absurd ((made.exists_edge?_iff atR atS step).mp ⟨e, found⟩) skips
  | error failure =>
    rw [Runtime.convert, Runtime.convertOn, Runtime.between_of_error (own ▸ along)]
    exact ⟨failure, p, rfl⟩

end Generation.Made

end Lineage
