import Lineage.Proofs.Conversion.NestedRestoring
import Lineage.Proofs.Conversion.Escape
import Lineage.Room

namespace Lineage

namespace Conversion

/-- A conversion that a container of a table is asked for. -/
structure Call (ι : Type) where
  runtime : Runtime ι
  source : String
  target : String
  value : Value
  path : String
  progress : Progress

/-- How a conversion ends: with a value or with a failure, and with what it leaves behind. -/
abbrev Ending := Except Failure Value × Progress

/-- How conversions end that the containers of a table are asked for. -/
abbrev Answers (ι : Type) := Runtime ι → Converter

variable {ι : Type}

/-- How a conversion ends by the answers. -/
def Call.ending (c : Call ι) (answers : Answers ι) : Ending :=
  answers c.runtime c.source c.target c.value c.path c.progress

/-- Whether answers are the same for all calls of a list. -/
def Agree (answers answers' : Answers ι) (calls : List (Call ι)) : Prop :=
  ∀ c ∈ calls, c.ending answers = c.ending answers'

/-- Whether a step makes calls one after the other and no others, if they are answered as they are by
`actual`: other answers to other calls make no difference, and a call that fails is the last one. -/
structure MakesCalls {α : Type} (actual : Answers ι) (step : Answers ι → Run α) (p : Progress)
    (calls : List (Call ι)) : Prop where
  decided : ∀ answers, Agree answers actual calls → step answers p = step actual p
  stops : ∀ before c after, calls = before ++ c :: after → ∀ answers, Agree answers actual before →
    ∀ failure q, c.ending answers = (.error failure, q) → step answers p = (.error failure, q)

section Calls

variable {α β : Type} {actual : Answers ι} {p q : Progress}

theorem MakesCalls.const (m : Run α) (p : Progress) : MakesCalls actual (fun _ => m) p [] where
  decided _ _ := rfl
  stops := by
    intro before c after split
    simp at split

theorem MakesCalls.call (rt : Runtime ι) (a b : String) (v : Value) (path : String) (p : Progress) :
    MakesCalls actual (fun answers => answers rt a b v path) p [⟨rt, a, b, v, path, p⟩] where
  decided _ agree := agree _ (List.mem_singleton_self _)
  stops := by
    intro before c after split answers _ failure q fails
    obtain ⟨rfl, rfl, rfl⟩ | ⟨rest, rfl, absent⟩ := List.append_eq_cons_iff.mp split.symm
    · exact fails
    · simp at absent

variable {step : Answers ι → Run α} {next : α → Answers ι → Run β} {calls calls' : List (Call ι)}

/-- A step that succeeds makes its calls before those of the next. -/
theorem MakesCalls.bind_ok (first : MakesCalls actual step p calls) {a : α} (ends : step actual p = (.ok a, q))
    (second : MakesCalls actual (next a) q calls') :
    MakesCalls actual (fun answers => step answers >>= fun a => next a answers) p (calls ++ calls') where
  decided answers agree := by
    have same := first.decided answers fun c member => agree c (List.mem_append_left _ member)
    rw [Run.bind_of_ok (same.trans ends), Run.bind_of_ok ends]
    exact second.decided answers fun c member => agree c (List.mem_append_right _ member)
  stops before c after split answers agree failure r fails := by
    rcases List.append_eq_append_iff.mp split with ⟨middle, rfl, later⟩ | ⟨middle, earlier, later⟩
    · have same := first.decided answers fun d member => agree d (List.mem_append_left _ member)
      rw [Run.bind_of_ok (same.trans ends)]
      exact second.stops middle c after later answers
        (fun d member => agree d (List.mem_append_right _ member)) failure r fails
    · cases middle with
      | nil =>
        rw [List.append_nil] at earlier
        subst earlier
        rw [Run.bind_of_ok ((first.decided answers agree).trans ends)]
        exact second.stops [] c after later.symm answers (List.forall_mem_nil _) failure r fails
      | cons d rest =>
        cases later
        exact Run.bind_of_error (first.stops before c rest earlier answers agree failure r fails)

theorem MakesCalls.bind_error (first : MakesCalls actual step p calls) {failure : Failure}
    (ends : step actual p = (.error failure, q)) :
    MakesCalls actual (fun answers => step answers >>= fun a => next a answers) p calls where
  decided answers agree := by
    rw [Run.bind_of_error ((first.decided answers agree).trans ends), Run.bind_of_error ends]
  stops before c after split answers agree failure r fails :=
    Run.bind_of_error (first.stops before c after split answers agree failure r fails)

end Calls

/-- Whether a step makes only calls of a kind, finitely many of them. -/
def MakesOnly {α : Type} (P : Call ι → Prop) (actual : Answers ι) (step : Answers ι → Run α) : Prop :=
  ∀ p, ∃ calls, (∀ c ∈ calls, P c) ∧ MakesCalls actual step p calls

namespace MakesOnly

variable {α β : Type} {P : Call ι → Prop} {actual : Answers ι}

theorem const (m : Run α) : MakesOnly P actual fun _ => m :=
  fun p => ⟨[], List.forall_mem_nil _, .const m p⟩

theorem call {rt : Runtime ι} {a b : String} {v : Value} {path : String}
    (kind : ∀ p, P ⟨rt, a, b, v, path, p⟩) : MakesOnly P actual fun answers => answers rt a b v path :=
  fun p => ⟨_, List.forall_mem_singleton.mpr (kind p), .call rt a b v path p⟩

theorem mono {Q : Call ι → Prop} {step : Answers ι → Run α} (makes : MakesOnly P actual step)
    (kind : ∀ c, P c → Q c) : MakesOnly Q actual step := by
  intro p
  obtain ⟨calls, each, made⟩ := makes p
  exact ⟨calls, fun c member => kind c (each c member), made⟩

/-- Two steps of which each makes only calls of a kind do so one after the other. -/
theorem bind {step : Answers ι → Run α} {next : α → Answers ι → Run β} (first : MakesOnly P actual step)
    (second : ∀ a, MakesOnly P actual (next a)) :
    MakesOnly P actual fun answers => step answers >>= fun a => next a answers := by
  intro p
  obtain ⟨calls, kind, made⟩ := first p
  cases ends : step actual p with
  | mk outcome q =>
    cases outcome with
    | error failure => exact ⟨calls, kind, made.bind_error ends⟩
    | ok a =>
      obtain ⟨calls', kind', made'⟩ := second a q
      exact ⟨calls ++ calls', List.forall_mem_append.mpr ⟨kind, kind'⟩, made.bind_ok ends made'⟩

theorem foldlM {f : Answers ι → β → α → Run β} {xs : List α}
    (each : ∀ y, ∀ x ∈ xs, MakesOnly P actual fun answers => f answers y x) (y : β) :
    MakesOnly P actual fun answers => xs.foldlM (f answers) y := by
  induction xs generalizing y with
  | nil => exact const _
  | cons x rest ih =>
    simp only [List.foldlM_cons]
    exact bind (each y x (List.mem_cons_self ..)) fun z =>
      ih (fun w u member => each w u (List.mem_cons_of_mem _ member)) z

end MakesOnly

end Conversion

namespace Runtime

open Conversion

variable {ι : Type}

/-- A conversion that asks for all that are nested in it. -/
def asking (answers : Answers ι) : Answers ι := fun rt =>
  rt.between .free answers

/-- Whether a conversion ends, and how, after a number of nested ones: it makes calls one after the other,
all of which end. There is no bound on how many of them are inside of each other. -/
inductive Ends : Call ι → Ending → Nat → Prop
  | intro {c : Call ι} {answers : Answers ι} {calls : List (Call ι)} {count : Call ι → Nat}
      (made : MakesCalls answers (fun answers => asking answers c.runtime c.source c.target c.value c.path)
        c.progress calls)
      (each : ∀ d ∈ calls, Ends d (d.ending answers) (count d)) :
      Ends c (c.ending (asking answers)) (calls.map fun d => count d + 1).sum

open Classical in
/-- A conversion ends in one way. -/
theorem Ends.unique {c : Call ι} {ending ending' : Ending} {n n' : Nat} (first : Ends c ending n)
    (second : Ends c ending' n') : ending = ending' := by
  induction first generalizing ending' n' with
  | @intro c answers calls count made each ih =>
    cases second with
    | @intro _ answers' calls' count' made' each' =>
      -- Calls that both make end alike, so that there are answers of which both hold.
      let both : Answers ι := fun rt a b v path p =>
        if ⟨rt, a, b, v, path, p⟩ ∈ calls then answers rt a b v path p else answers' rt a b v path p
      have own : Agree both answers calls := fun d member => if_pos member
      have other : Agree both answers' calls' := by
        intro d member
        by_cases shared : d ∈ calls
        · exact (if_pos shared).trans (ih d shared (each' d member))
        · exact if_neg shared
      exact (made.decided both own).symm.trans (made'.decided both other)

/-- Finitely many calls that end with some room each have a room with which all of them end. -/
theorem exists_common_room {calls : List (Call ι)} {P : Call ι → Nat → Prop}
    (each : ∀ d ∈ calls, ∃ enough, ∀ room, enough ≤ room → P d room) :
    ∃ enough, ∀ d ∈ calls, ∀ room, enough ≤ room → P d room := by
  induction calls with
  | nil => exact ⟨0, List.forall_mem_nil _⟩
  | cons d rest ih =>
    rw [List.forall_mem_cons] at each
    obtain ⟨first, fits⟩ := each.1
    obtain ⟨others, fit⟩ := ih each.2
    refine ⟨max first others, List.forall_mem_cons.mpr ⟨fun room large => ?_, fun e member room large => ?_⟩⟩
    · exact fits room ((le_max_left ..).trans large)
    · exact fit e member room ((le_max_right ..).trans large)

/-- A conversion that ends has some room in which it does, and it ends in the same way if there is more. -/
theorem Ends.exists_room {c : Call ι} {ending : Ending} {n : Nat} (ends : Ends c ending n) :
    ∃ enough, ∀ room, enough ≤ room → c.ending (fun rt => rt.convert room) = ending := by
  induction ends with
  | @intro c answers calls count made _ ih =>
    obtain ⟨enough, fits⟩ := exists_common_room ih
    refine ⟨enough + 1, fun room large => ?_⟩
    obtain ⟨less, rfl⟩ : ∃ less, room = less + 1 := Nat.exists_eq_succ_of_ne_zero (by omega)
    exact made.decided (inside .free (less + 1)) fun d member => fits d member less (by omega)

/-- Whether a call is for a value that is nested in one, which is converted between two versions. -/
structure NestedCall (rt : Runtime ι) (a b : String) (depth : Nat) (c : Call ι) : Prop where
  inner : ∃ type, rt.nested? type = some c.runtime
  source : c.source = a
  target : c.target = b
  below : c.value.depth < depth

section Steps

variable {depths : Depths} {functions : Functions} {rt : Runtime ι} {a b : String} {actual : Answers ι}
  {depth : Nat} {edge : Edge}

/-- A nested value makes at most one call, for itself. -/
theorem nestedValue_makes {fromType toType : Option String} {v : Value} (below : v.depth < depth)
    (path : String) : MakesOnly (NestedCall rt a b depth) actual fun answers =>
      nestedValue depths functions (rt.follow answers a b) edge fromType toType v path := by
  by_cases null : v = .null
  · subst null
    exact .const _
  simp only [nestedValue]
  cases functions.converter? (fromType.map TypeName.base) (toType.map TypeName.base) with
  | some f => exact .const _
  | none =>
    by_cases same : fromType.map TypeName.base = toType.map TypeName.base
    · simp only [if_pos same]
      cases target : toType.map TypeName.base with
      | none => exact .const _
      | some type =>
        simp only [Option.bind_some, follow]
        cases inner : rt.nested? type with
        | none => exact .const _
        | some N => exact .call fun p => ⟨⟨type, inner⟩, rfl, rfl, below⟩
    · simp only [if_neg same]
      exact .const _

theorem nestedItems_makes {P : Call ι → Prop} {convert : Answers ι → Value → (path : String) → Run Value}
    {items : List Value} (each : ∀ v ∈ items, ∀ path, MakesOnly P actual fun answers => convert answers v path)
    (path : String) (index : Nat) :
    MakesOnly P actual fun answers => nestedItems (convert answers) path index items := by
  induction items generalizing index with
  | nil => exact .const _
  | cons v rest ih =>
    simp only [nestedItems]
    have later := ih fun w member => each w (List.mem_cons_of_mem _ member)
    exact .bind (each v (List.mem_cons_self ..) _) fun w => .bind (later _) fun ws => .const _

/-- A list of nested values makes calls for its items, which are less deep than the list. -/
theorem hintedValue_makes {fromType toType : Option String} {hint : Option Hint} {v : Value}
    (below : v.depth < depth) (path : String) : MakesOnly (NestedCall rt a b depth) actual fun answers =>
      hintedValue depths functions (rt.follow answers a b) edge fromType toType hint v path := by
  have single := @nestedValue_makes _ depths functions rt a b actual depth edge fromType toType v below path
  unfold hintedValue
  split
  · rename_i items
    refine .bind (nestedItems_makes (fun w member => nestedValue_makes ?_) path 0) fun ws => .const _
    have inside := Value.depth_le_itemDepth member
    simp only [Value.depth] at below
    omega
  · exact single

theorem fieldStep_makes {path : String} {fields out : Entries Value Value} (s : FieldStep) :
    MakesOnly (NestedCall rt a b (Value.map fields).depth) actual fun answers =>
      fieldStep depths functions (rt.follow answers a b) edge path fields out s := by
  cases s with
  | copy | default | apply => exact .const _
  | nested item source target fromType toType hint =>
    simp only [fieldStep, carry]
    cases present : Value.member? fields source with
    | none => exact .const _
    | some v => exact .bind (hintedValue_makes (Value.depth_lt_of_member? present) _) fun w => .const _

/-- The payload of a variant makes at most one call, for itself. -/
theorem payload_makes {path : String} {v : Value} (below : v.depth < depth) (s : VariantStep) :
    MakesOnly (NestedCall rt a b depth) actual fun answers =>
      payload depths functions (rt.follow answers a b) edge path v s := by
  cases s with
  | fallback => exact .const _
  | keep item source target function fromType toType nested =>
    simp only [payload]
    cases filled? function with
    | some f => exact .const _
    | none =>
      by_cases converts : (nested || fromType != toType) = true
      · simp only [if_pos converts]
        exact nestedValue_makes below _
      · simp only [if_neg converts]
        exact .const _

theorem variantStep_makes {path : String} {carried : Option Value} (below : ∀ v ∈ carried, v.depth < depth)
    (s : VariantStep) : MakesOnly (NestedCall rt a b depth) actual fun answers =>
      variantStep depths functions (rt.follow answers a b) edge path carried s := by
  cases s with
  | fallback => exact .const _
  | keep item source target function fromType toType nested =>
    cases carried with
    | none => exact .const _
    | some v => exact .bind (payload_makes (below v rfl) _) fun w => .const _

/-- An edge asks only for values that are nested in the one it is applied to. -/
theorem applyEdge_makes (v : Value) (path : String) :
    MakesOnly (NestedCall rt a b v.depth) actual fun answers =>
      applyEdge depths functions (rt.follow answers a b) edge v path := by
  refine .bind (.const _) fun _ => ?_
  cases edge.steps with
  | fields steps dropped =>
    cases v with
    | map fields =>
      exact .bind (.foldlM (fun out s _ => fieldStep_makes s) []) fun out => .const _
    | _ => exact .const _
  | variants steps =>
    simp only [applyVariants]
    cases shape : variantOf? v with
    | none => exact .const _
    | some pair =>
      obtain ⟨name, carried⟩ := pair
      simp only
      cases steps.find? fun s => Value.text s.source == name with
      | none => exact .const _
      | some s =>
        refine variantStep_makes ?_ s
        rintro payload ⟨⟩
        rw [eq_map_of_variantOf? shape]
        simp [Value.depth, Value.depth.entryDepth]

end Steps

/-- Whether a conversion ends after some number of nested ones. -/
def Terminates (c : Call ι) : Prop :=
  ∃ ending count, Ends c ending count

open Classical in
/-- How conversions end that do; others are answered anyhow. -/
noncomputable def settled : Answers ι := fun rt a b v path p =>
  if ends : Terminates ⟨rt, a, b, v, path, p⟩ then ends.choose else (.ok v, p)

theorem ends_settled {c : Call ι} (ends : Terminates c) : ∃ count, Ends c (c.ending settled) count := by
  have chosen : c.ending settled = ends.choose := dif_pos ends
  exact chosen ▸ ends.choose_spec

/-- A conversion ends if it makes only calls that do. -/
theorem Terminates.of_makes {rt : Runtime ι} {a b : String} {v : Value} {path : String} {p : Progress}
    (makes : MakesOnly Terminates settled fun answers => asking answers rt a b v path) :
    Terminates ⟨rt, a, b, v, path, p⟩ := by
  obtain ⟨calls, each, made⟩ := makes p
  choose! count ends using fun d (member : d ∈ calls) => ends_settled (each d member)
  exact ⟨_, _, .intro made ends⟩

end Runtime

theorem Generation.Made.edgesBetween_of_mem {c : Container} {g : Generation} (made : Made c g) {e : Edge}
    (member : e ∈ g.edges) : g.edgesBetween e.source.name e.target.name = .ok [e] := by
  have found := made.edge?_of_mem member
  obtain ⟨r, atR, s, atS, joins⟩ := made.joins_of_mem member
  rw [joins.source, joins.target] at found ⊢
  exact (made.edgesBetween_step_eq_ok_iff atR atS joins.step).mpr ⟨e, found, rfl⟩

namespace Runtime

open Conversion

variable {ι : Type} {rt : Runtime ι}

section Generated

variable (generated : ∃ c, Generation.ofContainer c = .ok rt.generation)
  (others : ∀ type N, rt.nested? type = some N → N = rt ∨ ∀ a b v path p, Terminates ⟨N, a, b, v, path, p⟩)
include others

/-- A call for a nested value ends if those for values of the container itself do. -/
theorem NestedCall.terminates {a b : String} {depth : Nat} {c : Call ι} (nested : NestedCall rt a b depth c)
    (own : ∀ v path p, v.depth < depth → Terminates ⟨rt, a, b, v, path, p⟩) : Terminates c := by
  obtain ⟨N, source, target, v, path, p⟩ := c
  obtain ⟨⟨type, inner⟩, rfl, rfl, below⟩ := nested
  rcases others type N inner with same | ends
  · cases same
    exact own v path p below
  · exact ends _ _ v path p

include generated

/-- A conversion along one edge meets its own container only in smaller values. -/
theorem terminates_along_edge {e : Edge} (member : e ∈ rt.generation.edges) (v : Value) (path : String)
    (p : Progress) : Terminates ⟨rt, e.source.name, e.target.name, v, path, p⟩ := by
  obtain ⟨c, run⟩ := generated
  have single := (Generation.made_of_ofContainer run).edgesBetween_of_mem member
  induction depth : v.depth using Nat.strong_induction_on generalizing v path p with
  | _ depth ih =>
    subst depth
    refine .of_makes ?_
    simp only [asking, between_single single]
    refine (applyEdge_makes v path).mono fun d nested => ?_
    exact nested.terminates others fun w place q below => ih w.depth below w place q rfl

/-- Values may grow from edge to edge, but each edge ends whatever it is applied to. -/
theorem terminates_of_others (a b : String) (v : Value) (path : String) (p : Progress) :
    Terminates ⟨rt, a, b, v, path, p⟩ := by
  refine .of_makes ?_
  cases along : rt.generation.edgesBetween a b with
  | error failure =>
    simp only [asking, between_of_error along]
    exact .const _
  | ok edges =>
    simp only [asking, between_of_ok along]
    refine .foldlM (fun w e among => (applyEdge_makes w path).mono fun d nested => ?_) v
    have member := Generation.mem_edges_of_edgesBetween along e among
    exact nested.terminates others fun w place q _ => terminates_along_edge generated others member w place q

end Generated

/-- Whether the containers that are nested in a container form a tree: each that is registered is the container
itself, or the root of a smaller tree. -/
inductive Tree : Runtime ι → Prop
  | intro {rt : Runtime ι} (each : ∀ i ∈ rt.node.registered, i ≠ rt.here → Tree (rt.move i)) : Tree rt

/-- Whether a container and all that it reaches can be generated. -/
def Generated (rt : Runtime ι) : Prop :=
  ∀ M, rt.Reaches M → ∃ c, Generation.ofContainer c = .ok M.generation

/-- What is nested in a container ends by induction on the tree, and the container itself because its values
become smaller. -/
theorem Tree.terminates (tree : Tree rt) (generated : rt.Generated) (a b : String) (v : Value)
    (path : String) (p : Progress) : Terminates ⟨rt, a, b, v, path, p⟩ := by
  induction tree generalizing a b v path p with
  | @intro rt _ ih =>
    refine terminates_of_others (generated _ (.refl _)) (fun type N inner => ?_) a b v path p
    obtain ⟨i, listed, rfl, _⟩ := exists_of_nested? inner
    by_cases itself : i = rt.here
    · exact Or.inl (itself ▸ rfl)
    · exact Or.inr (ih i listed itself fun M later => generated M (.nested inner later))

/-- A conversion makes finitely many nested ones and ends, in only one way, whatever edges insert and
however deeply containers are nested in each other and in themselves. So it does on a stack that has room
enough; on a smaller one it may end before, because the stack is full. -/
theorem convert_terminates (tree : Tree rt) (generated : rt.Generated) (a b : String) (v : Value)
    (path : String) (p : Progress) :
    ∃ ending count, Ends ⟨rt, a, b, v, path, p⟩ ending count ∧
      (∀ other count, Ends ⟨rt, a, b, v, path, p⟩ other count → other = ending) ∧
      (∃ enough, ∀ room, enough ≤ room → rt.convert room a b v path p = ending) ∧
      ∀ room, (∃ q, rt.convert room a b v path p = (.error (.fault (.tooDeep "")), q)) ∨
        rt.convert room a b v path p = ending := by
  obtain ⟨ending, count, ends⟩ := tree.terminates generated a b v path p
  obtain ⟨enough, fits⟩ := ends.exists_room
  refine ⟨ending, count, ends, fun other _ ended => ended.unique ends, ⟨enough, fits⟩, fun room => ?_⟩
  rw [← fits _ (le_max_right room enough)]
  exact inside_refines (Nat.succ_le_succ (le_max_left room enough)) rt a b v path p

theorem eq_of_reaches_loop {g : Generation} {functions : Functions} {M : Runtime Unit}
    (reach : (loop g functions).Reaches M) : M = loop g functions := by
  generalize own : loop g functions = rt at reach
  induction reach with
  | refl => rfl
  | nested inner later ih =>
    subst own
    obtain ⟨i, _, rfl, _⟩ := exists_of_nested? inner
    exact ih rfl

/-- A tree of the first version. -/
def seedling : Value :=
  .object [("label", .text "root")]

/-- A leaf of the tree that was dropped from the second version. -/
def droppedLeaf : Tracker :=
  Tracker.empty.record (.text ".branches") (.list [.object [("label", .text "leaf"), ("branches", .list [])]])

/-- The leaf comes back along the first edge and is converted along the second, as the tree is. -/
theorem convert_terminates_tree :
    ∃ g y q count, Generation.ofContainer tree = .ok g ∧ Tree (loop g .standard) ∧
      (loop g .standard).Generated ∧
      (loop g .standard).convert Room.standard.conversions "v1" "v3" seedling ""
        (Progress.start (some droppedLeaf)) = (.ok y, q) ∧ q.upgrades = 3 ∧
      Ends ⟨loop g .standard, "v1", "v3", seedling, "", Progress.start (some droppedLeaf)⟩ (.ok y, q) count := by
  have facts : (Generation.ofContainer tree).toOption.map (fun g =>
      let ends := (loop g .standard).convert Room.standard.conversions "v1" "v3" seedling ""
        (Progress.start (some droppedLeaf))
      (ends.1.isOk, ends.2.upgrades)) = some (true, 3) := by decide +kernel
  obtain ⟨g, run, facts⟩ := exists_of_toOption_map facts
  obtain ⟨ok, upgrades⟩ := Prod.mk.inj facts
  obtain ⟨y, ends⟩ := exists_of_isOk ok
  have itself : Tree (loop g .standard) := .intro fun _ _ other => absurd rfl other
  have generated : (loop g .standard).Generated := by
    intro M reach
    rw [eq_of_reaches_loop reach]
    exact ⟨tree, run⟩
  obtain ⟨ending, count, ended, _, _, bounded⟩ := convert_terminates itself generated "v1" "v3" seedling ""
    (Progress.start (some droppedLeaf))
  have whole : (loop g .standard).convert Room.standard.conversions "v1" "v3" seedling ""
      (Progress.start (some droppedLeaf)) = (.ok y, _) := Prod.ext ends rfl
  rcases bounded Room.standard.conversions with ⟨_, full⟩ | same
  · cases whole.symm.trans full
  · exact ⟨g, y, _, count, run, itself, generated, whole, upgrades, whole.symm.trans same ▸ ended⟩

end Runtime

end Lineage
