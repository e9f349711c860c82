import Lineage.Proofs.Conversion.Nesting
import Lineage.Proofs.Entries

namespace Lineage

instance (type : String) : ∀ steps : Steps, Decidable (steps.Asks type)
  | .fields steps _ => inferInstanceAs (Decidable (∃ s ∈ steps, s.asked? = some type))
  | .variants steps => inferInstanceAs (Decidable (∃ s ∈ steps, s.asked? = some type))

namespace Generation

/-- Whether an edge of a container converts values of another that are nested in its own. -/
def Holds (g h : Generation) : Prop :=
  ∃ e ∈ g.edges, e.steps.Asks h.name

/-- Whether containers of a list are nested in a container no deeper than down to a level. -/
def NestsWithin (gs : List Generation) : (level : Nat) → Generation → Prop
  | 0, g => ∀ h ∈ gs, ¬ g.Holds h
  | level + 1, g => ∀ h ∈ gs, g.Holds h → NestsWithin gs level h

instance (g h : Generation) : Decidable (g.Holds h) :=
  inferInstanceAs (Decidable (∃ e ∈ g.edges, e.steps.Asks h.name))

instance decidableNestsWithin (gs : List Generation) : ∀ level g, Decidable (NestsWithin gs level g)
  | 0, g => inferInstanceAs (Decidable (∀ h ∈ gs, ¬ g.Holds h))
  | level + 1, g =>
    have := decidableNestsWithin gs level
    inferInstanceAs (Decidable (∀ h ∈ gs, g.Holds h → NestsWithin gs level h))

end Generation

namespace Runtime

section Matches

variable {ι κ : Type}

/-- Whether the same was generated of two containers, the same functions are called, and the values that edges
leave to others are left to containers in a relation. -/
structure Matches (S : Runtime ι → Runtime κ → Prop) (rt : Runtime ι) (rt' : Runtime κ) : Prop where
  own : rt.generation = rt'.generation
  calls : rt.functions = rt'.functions
  nested : ∀ e ∈ rt.generation.edges, ∀ type, e.steps.Asks type →
    Option.Rel S (rt.nested? type) (rt'.nested? type)

/-- Containers are converted alike if they match again and again. -/
theorem inside_eq_of_matches {S : Runtime ι → Runtime κ → Prop} (step : ∀ rt rt', S rt rt' → Matches S rt rt')
    {rt : Runtime ι} {rt' : Runtime κ} (related : S rt rt') (depths : Depths) (room : Nat) :
    inside depths room rt = inside depths room rt' := by
  induction room generalizing rt rt' with
  | zero => rfl
  | succ room ih =>
    obtain ⟨own, calls, nested⟩ := step rt rt' related
    funext a b v path
    refine between_related Run.Congruence.eq own calls (fun e listed type asks => ?_) a b v path
    refine follow_related (nested e listed type asks) fun N N' inner w place => ?_
    rw [ih inner]

theorem convertOn_eq_of_matches {S : Runtime ι → Runtime κ → Prop} (step : ∀ rt rt', S rt rt' → Matches S rt rt')
    {rt : Runtime ι} {rt' : Runtime κ} (related : S rt rt') (depths : Depths) (room : Nat) :
    rt.convertOn depths room = rt'.convertOn depths room :=
  inside_eq_of_matches step related depths (room + 1)

/-- What a check reads of a container: the functions it may call, and what was generated. -/
def source (rt : Runtime ι) : Functions × Generation :=
  (rt.functions, rt.generation)

/-- What a check reads of the containers that are registered with another, under their names. -/
def sources (rt : Runtime ι) : List (String × Functions × Generation) :=
  rt.node.registered.map fun i => ((rt.move i).name, (rt.move i).source)

theorem checked_source (rt : Runtime ι) :
    rt.checked.map source = rt.source :: (Entries.ofList rt.sources).map (·.2) := by
  have values := Entries.map_ofList source (rt.node.registered.map fun i => ((rt.move i).name, rt.move i))
  have both := congrArg (List.map Prod.snd) values
  simp only [List.map_map, Function.comp_def] at both
  rw [checked, List.map_cons, nested, List.map_map, Function.comp_def, both]
  rfl

/-- A check depends on what it reads of the container and of those registered with it. -/
theorem checkFunctions_congr {rt : Runtime ι} {rt' : Runtime κ} (own : rt.source = rt'.source)
    (registered : rt.sources = rt'.sources) : rt.checkFunctions = rt'.checkFunctions := by
  have each {κ : Type} (rts : List (Runtime κ)) :
      rts.mapM (fun inner => inner.functions.unresolved (Edge.functions inner.generation.edges)) =
        (rts.map source).mapM fun s => s.1.unresolved (Edge.functions s.2.edges) := by
    rw [List.mapM_map]
    rfl
  rw [checkFunctions, checkFunctions, each, each, checked_source, checked_source, own, registered]

end Matches

variable (functions : Functions) (gs : List Generation)

/-- A container in whose values all of a list are nested, in whose values all of them are nested too. -/
def linked (g : Generation) : Runtime Generation :=
  ⟨fun h => ⟨h, functions, gs⟩, g⟩

/-- A container in whose values all of a list are nested, in whose values these are nested too, and so on down
to a level. -/
def layered (level : Nat) (g : Generation) : Runtime (Nat × Generation) where
  table
    | (0, h) => ⟨h, functions, []⟩
    | (level + 1, h) => ⟨h, functions, gs.map (level, ·)⟩
  here := (level, g)

variable {functions gs}

@[simp] theorem layered_generation (level : Nat) (g : Generation) :
    (layered functions gs level g).generation = g := by
  cases level <;> rfl

@[simp] theorem layered_functions (level : Nat) (g : Generation) :
    (layered functions gs level g).functions = functions := by
  cases level <;> rfl

theorem nested?_linked (g : Generation) (type : String) :
    (linked functions gs g).nested? type =
      (gs.reverse.find? fun h => h.name == type).map (linked functions gs) :=
  nested?_eq ..

theorem nested?_layered_succ (level : Nat) (g : Generation) (type : String) :
    (layered functions gs (level + 1) g).nested? type =
      (gs.reverse.find? fun h => h.name == type).map (layered functions gs level) := by
  have named (h : Generation) : ((layered functions gs (level + 1) g).move (level, h)).name = h.name :=
    congrArg Generation.name (layered_generation level h)
  have registered : (layered functions gs (level + 1) g).node.registered = gs.map (level, ·) := rfl
  rw [nested?_eq, registered, ← List.map_reverse, List.find?_map, Option.map_map]
  simp only [Function.comp_def, named]
  rfl

theorem nested?_layered_zero (g : Generation) (type : String) :
    (layered functions gs 0 g).nested? type = none :=
  nested?_eq ..

section Asked

variable {g : Generation} {e : Edge} {type : String} (listed : e ∈ g.edges) (asks : e.steps.Asks type)
include listed asks

/-- What an edge asks for is nested one level less deep, if it is a container of the list. -/
theorem find?_of_nestsWithin_zero (within : g.NestsWithin gs 0) :
    gs.reverse.find? (fun h => h.name == type) = none := by
  refine List.find?_eq_none.mpr fun h member named => ?_
  rw [beq_iff_eq] at named
  exact within h (List.mem_reverse.mp member) ⟨e, listed, named ▸ asks⟩

theorem nestsWithin_of_find? {level : Nat} (within : g.NestsWithin gs (level + 1)) {h : Generation}
    (found : gs.reverse.find? (fun h => h.name == type) = some h) : h.NestsWithin gs level := by
  have named : h.name = type := by simpa using List.find?_some found
  exact within h (List.mem_reverse.mp (List.mem_of_find?_eq_some found)) ⟨e, listed, named ▸ asks⟩

end Asked

/-- Levels that are deeper than the containers are nested make no difference to a conversion. -/
theorem convertOn_layered {level : Nat} {g : Generation} (within : g.NestsWithin gs level) (more : Nat)
    (depths : Depths) (room : Nat) :
    (layered functions gs (level + more) g).convertOn depths room =
      (layered functions gs level g).convertOn depths room := by
  refine convertOn_eq_of_matches (S := fun rt rt' => ∃ level h, h.NestsWithin gs level ∧
    rt = layered functions gs (level + more) h ∧ rt' = layered functions gs level h) ?_
    ⟨level, g, within, rfl, rfl⟩ depths room
  rintro _ _ ⟨level, h, within, rfl, rfl⟩
  refine ⟨by simp, by simp, fun e listed type asks => ?_⟩
  rw [layered_generation] at listed
  cases level with
  | zero =>
    rw [nested?_layered_zero]
    cases more with
    | zero => exact .none
    | succ more =>
      rw [← Nat.add_assoc, nested?_layered_succ, find?_of_nestsWithin_zero listed asks within]
      exact .none
  | succ level =>
    rw [Nat.add_right_comm, nested?_layered_succ, nested?_layered_succ]
    cases found : gs.reverse.find? fun h => h.name == type with
    | none => exact .none
    | some inner => exact .some ⟨level, inner, nestsWithin_of_find? listed asks within found, rfl, rfl⟩

/-- Conversions in which all containers of a list are nested in each other are those in which they are nested
down to a level if they are nested no deeper than that. -/
theorem convertOn_linked {level : Nat} {g : Generation} (within : g.NestsWithin gs level) (depths : Depths)
    (room : Nat) :
    (linked functions gs g).convertOn depths room = (layered functions gs level g).convertOn depths room := by
  refine convertOn_eq_of_matches (S := fun rt rt' => ∃ level h, h.NestsWithin gs level ∧
    rt = linked functions gs h ∧ rt' = layered functions gs level h) ?_ ⟨level, g, within, rfl, rfl⟩ depths room
  rintro _ _ ⟨level, h, within, rfl, rfl⟩
  refine ⟨(layered_generation level h).symm, (layered_functions level h).symm, fun e listed type asks => ?_⟩
  rw [nested?_linked]
  cases level with
  | zero =>
    rw [nested?_layered_zero, find?_of_nestsWithin_zero listed asks within]
    exact .none
  | succ level =>
    rw [nested?_layered_succ]
    cases found : gs.reverse.find? fun h => h.name == type with
    | none => exact .none
    | some inner => exact .some ⟨level, inner, nestsWithin_of_find? listed asks within found, rfl, rfl⟩

/-- A container in whose values others are nested, in which there are none, has them down to the first level. -/
theorem convertOn_star (functions : Functions) (g : Generation) (gs : List Generation) (depths : Depths)
    (room : Nat) :
    (star functions g gs).convertOn depths room = (layered functions gs 1 g).convertOn depths room := by
  refine convertOn_eq_of_matches (S := fun rt rt' => rt = star functions g gs ∧ rt' = layered functions gs 1 g ∨
    ∃ h, rt = (star functions g gs).move (some h) ∧ rt' = layered functions gs 0 h) ?_ (Or.inl ⟨rfl, rfl⟩) depths
    room
  rintro _ _ (⟨rfl, rfl⟩ | ⟨h, rfl, rfl⟩)
  · refine ⟨rfl, rfl, fun e listed type asks => ?_⟩
    rw [nested?_layered_succ, nested?_star_eq]
    cases gs.reverse.find? fun h => h.name == type with
    | none => exact .none
    | some inner => exact .some (Or.inr ⟨inner, rfl, rfl⟩)
  · exact ⟨rfl, rfl, fun e listed type asks => .none⟩

section Checks

theorem source_layered (level : Nat) (g : Generation) : (layered functions gs level g).source = (functions, g) := by
  cases level <;> rfl

theorem sources_layered_succ (level : Nat) (g : Generation) :
    (layered functions gs (level + 1) g).sources = gs.map fun h => (h.name, functions, h) := by
  have registered : (layered functions gs (level + 1) g).node.registered = gs.map (level, ·) := rfl
  rw [sources, registered, List.map_map]
  refine List.map_congr_left fun h _ => ?_
  cases level <;> rfl

/-- It does not matter to a check how deeply others are nested in those that are registered. -/
theorem checkFunctions_layered (level more : Nat) (g : Generation) :
    (layered functions gs (level + 1 + more) g).checkFunctions =
      (layered functions gs (level + 1) g).checkFunctions := by
  refine checkFunctions_congr ((source_layered _ g).trans (source_layered _ g).symm) ?_
  rw [Nat.add_right_comm, sources_layered_succ, sources_layered_succ]

theorem checkFunctions_linked (level : Nat) (g : Generation) :
    (linked functions gs g).checkFunctions = (layered functions gs (level + 1) g).checkFunctions :=
  checkFunctions_congr (source_layered _ g).symm (sources_layered_succ level g).symm

theorem checkFunctions_star (functions : Functions) (g : Generation) (gs : List Generation) :
    (star functions g gs).checkFunctions = (layered functions gs 1 g).checkFunctions := by
  refine checkFunctions_congr rfl ?_
  rw [sources_layered_succ, sources, show (star functions g gs).node.registered = gs.map some from rfl,
    List.map_map]
  rfl

end Checks

end Runtime

end Lineage
