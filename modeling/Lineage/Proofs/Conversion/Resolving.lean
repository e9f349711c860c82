import Lineage.Proofs.Conversion.Escape

namespace Lineage

namespace FieldStep

variable {item : Item} {old new : Status} {s : FieldStep} {name : String}

theorem function?_carry {source target : String} {fromType toType : Option String}
    (calls : (carry item source target fromType toType).Calls name) :
    (carry item source target fromType toType).function? = some name := by
  unfold carry at calls
  split at calls <;> cases calls

theorem function?_convert {function : Option String} {source target : String} {fromType toType : Option String}
    (calls : (convert item function source target fromType toType).Calls name) :
    (convert item function source target fromType toType).function? = some name := by
  unfold convert at calls ⊢
  split at calls
  · rename_i f named
    cases calls
    exact filled?_eq_some.mpr ⟨rfl, (filled?_eq_some.mp named).2⟩
  · cases calls

/-- The function that a variant calls on the way up is named by its step. -/
theorem function?_upgrade (made : upgrade? item old new = some s) (calls : s.Calls name) :
    s.function? = some name := by
  unfold upgrade? at made
  split at made
  · cases made
  · cases made
    exact calls
  · cases made
    exact function?_convert calls
  · obtain ⟨m, _, rfl⟩ := Option.map_eq_some_iff.mp made
    exact function?_carry calls
  · cases made

theorem function?_downgrade (made : downgrade? item old new = some s) (calls : s.Calls name) :
    s.function? = some name := by
  unfold downgrade? at made
  split at made
  · cases made
    exact function?_convert calls
  · obtain ⟨m, _, rfl⟩ := Option.map_eq_some_iff.mp made
    exact function?_carry calls
  · cases made

end FieldStep

theorem VariantStep.calls_iff {s : VariantStep} {name : String} : s.Calls name ↔ s.function? = some name := by
  cases s with
  | keep => exact Iff.rfl
  | fallback => exact ⟨nofun, nofun⟩

/-- An edge that is generated lists every function that its steps call. -/
theorem Edge.Made.mem_functions {c : Container} {t : Timeline} {older newer : Release} {e : Edge}
    (made : Edge.Made c t older newer e) {name : String} (calls : e.steps.Calls name) :
    name ∈ e.steps.functions := by
  cases made with
  | structUpgrade =>
    obtain ⟨s, member, called⟩ := calls
    obtain ⟨item, _, own⟩ := List.mem_filterMap.mp member
    exact List.mem_filterMap.mpr ⟨s, member, FieldStep.function?_upgrade own called⟩
  | structDowngrade =>
    obtain ⟨s, member, called⟩ := calls
    obtain ⟨item, _, own⟩ := List.mem_filterMap.mp member
    exact List.mem_filterMap.mpr ⟨s, member, FieldStep.function?_downgrade own called⟩
  | enumUpgrade | enumDowngrade =>
    obtain ⟨s, member, called⟩ := calls
    exact List.mem_filterMap.mpr ⟨s, member, VariantStep.calls_iff.mp called⟩

theorem Generation.Made.mem_functions {c : Container} {g : Generation} (made : Made c g) {e : Edge}
    (member : e ∈ g.edges) {name : String} (calls : e.steps.Calls name) : name ∈ Edge.functions g.edges := by
  obtain ⟨older, newer, _, own⟩ := made.edge_of_mem member
  rw [Edge.functions, List.mem_eraseDups, List.mem_flatMap]
  exact ⟨e, member, own.mem_functions calls⟩

theorem Functions.unresolved_eq_nil_iff {fs : Functions} {names : List String} :
    fs.unresolved names = .ok [] ↔ ∀ name ∈ names, ∃ f, fs.resolve name = .ok f := by
  induction names with
  | nil => simp [unresolved]
  | cons name rest ih =>
    rw [List.forall_mem_cons, unresolved]
    cases result : fs.resolve name with
    | ok f => simp [ih]
    | error failure =>
      -- What is found goes into the list, so that it is not empty any more.
      cases failure <;> cases fs.unresolved rest <;> simp [bind, Except.bind, pure, Except.pure]

namespace Runtime

variable {ι : Type} {rt : Runtime ι}

/-- What is checked with a container is itself and what is registered with it. -/
theorem mem_checked_iff {M : Runtime ι} : M ∈ rt.checked ↔ M = rt ∨ ∃ type, rt.nested? type = some M := by
  have distinct : (rt.nested.map (·.1)).Nodup := Entries.nodup_keys_ofList _
  simp only [checked, List.mem_cons, List.mem_map, Prod.exists, exists_eq_right, nested?,
    Entries.get?_eq_some_iff distinct]

/-- A check succeeds exactly if all names are resolved that the checked containers call. -/
theorem checkFunctions_eq_ok_iff : rt.checkFunctions = .ok () ↔
    ∀ M ∈ rt.checked, ∀ name ∈ Edge.functions M.generation.edges, ∃ f, M.functions.resolve name = .ok f := by
  constructor
  · intro checked M member
    obtain ⟨lists, all, checked⟩ := exists_of_bind checked
    obtain ⟨messages, listed, found⟩ := exists_mem_of_mapM all member
    have empty : lists.flatten = [] := by
      cases flat : lists.flatten with
      | nil => rfl
      | cons => simp [flat] at checked
    rw [List.flatten_eq_nil_iff.mp empty messages listed] at found
    exact Functions.unresolved_eq_nil_iff.mp found
  · intro resolved
    have none : rt.checked.mapM (fun M => M.functions.unresolved (Edge.functions M.generation.edges)) =
        .ok (rt.checked.map fun _ => []) :=
      mapM_eq_ok_map fun M member => Functions.unresolved_eq_nil_iff.mpr (resolved M member)
    have empty : (rt.checked.map fun _ => ([] : List String)).flatten = [] := by simp
    rw [checkFunctions, none]
    simp only [bind, Except.bind, empty]
    rfl

/-- A conversion fails as conversions do of their own, or because of a name that is called by the runtime or
by one that it reaches and that leads to no function there. -/
theorem ofValues_or_exists_call {room : Nat} {a b : String} {v : Value} {path : String} {p q : Progress}
    {failure : Failure} (fails : rt.convert room a b v path p = (.error failure, q)) :
    failure.OfValues ∨ ∃ M, rt.Reaches M ∧ ∃ e ∈ M.generation.edges, ∃ name, e.steps.Calls name ∧
      M.functions.resolve name = .error failure := by
  have steady : (rt.convert room a b v path).Steady fun failure => failure.OfValues ∨ ∃ M, rt.Reaches M ∧
      ∃ e ∈ M.generation.edges, ∃ name, e.steps.Calls name ∧ M.functions.resolve name = .error failure :=
    inside_steady (fun _ own => Or.inl own) (room + 1) rt
      (fun M reach e member name calls _ fails => Or.inr ⟨M, reach, e, member, name, calls, fails⟩) a b v path
  exact steady.failing p failure q fails

/-- Every function of a container and of those registered with it is looked for where the conversions of that
container look for it, and only these are. A conversion fails as conversions do of their own, which is never
because of a name that leads to no function, or because of such a name in a runtime that it reaches; if the
check succeeded, this one is nested more deeply than those that were checked. -/
theorem checkFunctions_finds_nested
    (generated : ∀ M, rt.Reaches M → ∃ c, Generation.ofContainer c = .ok M.generation) :
    (rt.checkFunctions = .ok () ↔ ∀ M, (M = rt ∨ ∃ type, rt.nested? type = some M) →
        ∀ name ∈ Edge.functions M.generation.edges, ∃ f, M.functions.resolve name = .ok f) ∧
      ∀ room a b v path p failure q, rt.convert room a b v path p = (.error failure, q) →
        failure.OfValues ∨ ∃ M, rt.Reaches M ∧
          (∃ name ∈ Edge.functions M.generation.edges, M.functions.resolve name = .error failure) ∧
          (rt.checkFunctions = .ok () → M ≠ rt ∧ ∀ type, rt.nested? type ≠ some M) := by
  simp only [← mem_checked_iff]
  refine ⟨checkFunctions_eq_ok_iff, fun room a b v path p failure q fails => ?_⟩
  refine (ofValues_or_exists_call fails).imp_right ?_
  rintro ⟨M, reach, e, member, name, calls, unknown⟩
  obtain ⟨c, run⟩ := generated M reach
  have listed := (Generation.made_of_ofContainer run).mem_functions member calls
  refine ⟨M, reach, ⟨name, listed, unknown⟩, fun checked => ?_⟩
  have unchecked : M ∉ rt.checked := by
    intro among
    obtain ⟨f, known⟩ := checkFunctions_eq_ok_iff.mp checked M among name listed
    cases known.symm.trans unknown
  rw [mem_checked_iff, not_or, not_exists] at unchecked
  exact unchecked

/-- A container of one item in two versions. -/
def routePart (name : String) (item : Item) : Container where
  name := name
  kind := .struct
  doc := none
  versions := ["v1", "v2"].map Declaration.named
  items := [item]
  options := ⟨true, false⟩
  resource := none

/-- A fare with a price, which was a text before. -/
def fare : Container :=
  routePart "Fare" ⟨"price", some "float", none, none, false, none,
    [⟨"v2", none, some "str", some "price_of", none⟩], none⟩

/-- A leg with a fare. -/
def leg : Container :=
  routePart "Leg" ⟨"fare", some "Fare", none, none, true, none, [], none⟩

/-- A journey with a leg. -/
def journey : Container :=
  routePart "Journey" ⟨"leg", some "Leg", none, none, true, none, [], none⟩

/-- A journey, a leg and a fare, each of which is nested in the one before. The fare calls functions of its
own. -/
def route (g h k : Generation) (functions : Functions) : Runtime (Fin 3) where
  table
    | 0 => ⟨g, .standard, [1]⟩
    | 1 => ⟨h, .standard, [2]⟩
    | 2 => ⟨k, functions, []⟩
  here := 0

theorem exists_route : ∃ g h k, Generation.ofContainer journey = .ok g ∧ Generation.ofContainer leg = .ok h ∧
    Generation.ofContainer fare = .ok k := by
  obtain ⟨g, run⟩ := exists_of_isOk (show (Generation.ofContainer journey).isOk = true by decide +kernel)
  obtain ⟨h, runs⟩ := exists_of_isOk (show (Generation.ofContainer leg).isOk = true by decide +kernel)
  obtain ⟨k, ran⟩ := exists_of_isOk (show (Generation.ofContainer fare).isOk = true by decide +kernel)
  exact ⟨g, h, k, run, runs, ran⟩

section Route

variable {g h k : Generation} {functions : Functions}

theorem nested?_leg : ((route g h k functions).move 1).nested? k.name = some ((route g h k functions).move 2) := by
  rw [nested?_eq]
  simp [route, node, move, name, generation]

/-- A leg reaches itself and its fare. -/
theorem eq_of_reaches_leg {M : Runtime (Fin 3)} (reach : ((route g h k functions).move 1).Reaches M) :
    M = (route g h k functions).move 1 ∨ M = (route g h k functions).move 2 := by
  cases reach with
  | refl => exact Or.inl rfl
  | nested inner later =>
    obtain ⟨i, among, rfl, _⟩ := exists_of_nested? inner
    cases List.mem_singleton.mp among
    cases later with
    | refl => exact Or.inr rfl
    | nested inner =>
      obtain ⟨_, among, _⟩ := exists_of_nested? inner
      cases among

end Route

/-- The price is looked for among the functions of the fare of a leg, and is checked there. -/
theorem checkFunctions_finds_nested_leg :
    ∃ g h k functions, Generation.ofContainer leg = .ok h ∧ Generation.ofContainer fare = .ok k ∧
      (∀ M, ((route g h k functions).move 1).Reaches M → ∃ c, Generation.ofContainer c = .ok M.generation) ∧
      ((route g h k functions).move 1).checkFunctions = .ok () ∧
      ∀ room a b v path p failure q, ((route g h k functions).move 1).convert room a b v path p =
        (.error failure, q) → failure.OfValues := by
  let functions := Functions.standard.register "price_of" (Library.exactly "price_of" Value.toReal)
  have check : (Generation.ofContainer journey).toOption.bind (fun g =>
      (Generation.ofContainer leg).toOption.bind fun h => (Generation.ofContainer fare).toOption.map fun k =>
        ((route g h k functions).move 1).checkFunctions.isOk) = some true := by decide +kernel
  obtain ⟨g, h, k, run, runs, ran⟩ := exists_route
  rw [run, runs, ran] at check
  obtain ⟨_, checked⟩ := exists_of_isOk (Option.some.inj check)
  have generated : ∀ M, ((route g h k functions).move 1).Reaches M →
      ∃ c, Generation.ofContainer c = .ok M.generation := by
    intro M reach
    rcases eq_of_reaches_leg reach with rfl | rfl
    · exact ⟨leg, runs⟩
    · exact ⟨fare, ran⟩
  refine ⟨g, h, k, functions, runs, ran, generated, checked, fun room a b v path p failure q fails => ?_⟩
  refine ((checkFunctions_finds_nested generated).2 room a b v path p failure q fails).resolve_right ?_
  rintro ⟨M, reach, _, deeper⟩
  obtain ⟨other, indirect⟩ := deeper checked
  rcases eq_of_reaches_leg reach with same | rfl
  · exact other same
  · exact indirect k.name nested?_leg

/-- A journey of the old version. -/
def oldJourney : Value :=
  .object [("leg", .object [("fare", .object [("price", .text "4.50")])])]

/-- The price in the fare of the leg of a journey is not looked for before it is converted. -/
theorem journey_unchecked :
    ∃ g h k q, Generation.ofContainer journey = .ok g ∧ Generation.ofContainer leg = .ok h ∧
      Generation.ofContainer fare = .ok k ∧ (route g h k .standard).checkFunctions = .ok () ∧
      (route g h k .standard).convert 2 "v1" "v2" oldJourney "" (Progress.start none) =
        (.error (.conversion (.unregistered "price_of")), q) ∧
      Failure.Unresolved (.conversion (.unregistered "price_of")) := by
  have both : (Generation.ofContainer journey).toOption.bind (fun g =>
      (Generation.ofContainer leg).toOption.bind fun h => (Generation.ofContainer fare).toOption.map fun k =>
        let ends := (route g h k .standard).convert 2 "v1" "v2" oldJourney "" (Progress.start none)
        ((route g h k .standard).checkFunctions, ends.1.map fun _ => ())) =
      some (.ok (), .error (.conversion (.unregistered "price_of"))) := by decide +kernel
  obtain ⟨g, h, k, run, runs, ran⟩ := exists_route
  rw [run, runs, ran] at both
  obtain ⟨checked, fails⟩ := Prod.mk.inj (Option.some.inj both)
  exact ⟨g, h, k, _, run, runs, ran, checked, Prod.ext (eq_error_of_map fails) rfl, trivial⟩

end Runtime

end Lineage
