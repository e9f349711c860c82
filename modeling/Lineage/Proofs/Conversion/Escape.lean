import Lineage.Proofs.Conversion.Nesting

namespace Lineage

/-- Whether a failure is no fault of a conversion, yet comes out of one: a version that is not known,
an argument of the wrong kind or out of range, a number with too many digits to be written, something that
is nested too deeply, or what an import ends with. -/
def Failure.Escapes (raised : Fault → Prop) : Failure → Prop
  | .unknownVersion _ _ => True
  | .fault cause => cause.family = .kind ∨ cause.family = .range ∨ cause = .digitsWritten ∨
    cause.family = .depth ∨ raised cause
  | _ => False

theorem Failure.escapes_tooDeep (raised : Fault → Prop) (ending : String) :
    (Failure.fault (.tooDeep ending)).Escapes raised :=
  Or.inr (Or.inr (Or.inr (Or.inl rfl)))

/-- Whether a failure is a fault of a conversion, or one that escapes from it. -/
def Failure.OfConversion (raised : Fault → Prop) (failure : Failure) : Prop :=
  (∃ cause, failure = .conversion cause) ∨ failure.Escapes raised

theorem Failure.OfConversion.imp_raised {raised raised' : Fault → Prop} {failure : Failure}
    (own : failure.OfConversion raised) (imp : ∀ cause, raised cause → raised' cause) :
    failure.OfConversion raised' := by
  refine own.imp_right fun escapes => ?_
  cases failure with
  | fault cause => exact escapes.imp_right (.imp_right (.imp_right (.imp_right (imp cause))))
  | unknownVersion => trivial
  | _ => exact escapes

/-- Whether a failure is that a name leads to no function. -/
def Failure.Unresolved : Failure → Prop
  | .conversion (.unregistered _) | .conversion (.forbidden _) | .conversion (.unresolved _ _)
  | .conversion (.notCallable _) | .fault (.relativeModule _) => True
  | _ => False

theorem Failure.family_of_unresolved {cause : Fault} (unresolved : (Failure.fault cause).Unresolved) :
    cause.family = .kind := by
  unfold Unresolved at unresolved
  split at unresolved <;> first | contradiction | (rename_i same; cases same; rfl)

/-- Whether a failure is one that a conversion has of its own, and not because a name leads to no
function. -/
def Failure.OfValues (failure : Failure) : Prop :=
  failure.OfConversion (fun _ => False) ∧ ¬ failure.Unresolved

theorem Failure.ofValues_tooDeep (ending : String) : (Failure.fault (.tooDeep ending)).OfValues :=
  ⟨Or.inr (escapes_tooDeep ..), nofun⟩

/-- Whether a step calls the function of a name. -/
def FieldStep.Calls (name : String) : FieldStep → Prop
  | default _ _ _ supplier _ => filled? supplier = some name
  | apply _ _ _ function => function = name
  | copy _ _ _ | nested _ _ _ _ _ _ => False

/-- Whether a step calls the function of a name. -/
def VariantStep.Calls (name : String) : VariantStep → Prop
  | keep _ _ _ function _ _ _ => filled? function = some name
  | fallback _ _ _ => False

/-- Whether some step calls the function of a name. -/
def Steps.Calls (name : String) : Steps → Prop
  | fields steps _ => ∃ s ∈ steps, s.Calls name
  | variants steps => ∃ s ∈ steps, s.Calls name

/-- Whether the import of some function ends with a fault. -/
def Functions.Raises (fs : Functions) (cause : Fault) : Prop :=
  ∃ module member, fs.library module member = .raised cause

/-- A function that is not resolved is a fault of the conversion, or its import fails in some other way. -/
theorem Functions.resolve_errsOnly (fs : Functions) (name : String) :
    ErrsOnly (Failure.OfConversion fs.Raises) (fs.resolve name) := by
  intro failure fails
  unfold resolve at fails
  split at fails
  · cases fails
  simp only at fails
  split at fails
  · cases fails
    exact Or.inl ⟨_, rfl⟩
  split at fails
  · cases fails
    exact Or.inl ⟨_, rfl⟩
  split at fails
  · cases fails
    exact Or.inr (Or.inl rfl)
  split at fails <;> cases fails
  · exact Or.inl ⟨_, rfl⟩
  · exact Or.inl ⟨_, rfl⟩
  · rename_i found
    exact Or.inr (Or.inr (Or.inr (Or.inr (Or.inr ⟨_, _, found⟩))))

namespace Value

theorem integerOfText_error {base : Nat} {literal : String} {cs : List Char} {cause : Fault}
    (fails : integerOfText base literal cs = .error cause) : cause.family = .value := by
  unfold integerOfText at fails
  split at fails <;> cases fails <;> rfl

/-- What is no integer is of the wrong value or kind, or out of range. -/
theorem toInteger_error {v : Value} {cause : Fault} (fails : v.toInteger = .error cause) :
    cause.family = .value ∨ cause.family = .kind ∨ cause.family = .range := by
  unfold toInteger at fails
  split at fails
  · cases fails
  · cases fails
  · split at fails
    · cases fails
    · cases fails
      split
      · exact Or.inl rfl
      · exact Or.inr (Or.inr rfl)
  · exact Or.inl (integerOfText_error fails)
  · exact Or.inl (integerOfText_error fails)
  · cases fails
    exact Or.inr (Or.inl rfl)

/-- What is no real number is of the wrong value or kind, or out of range. -/
theorem toReal_error {v : Value} {cause : Fault} (fails : v.toReal = .error cause) :
    cause.family = .value ∨ cause.family = .kind ∨ cause.family = .range := by
  unfold toReal at fails
  split at fails
  · cases fails
  · rename_i n
    unfold floatOfInt at fails
    split at fails
    · cases fails
    · cases fails
      exact Or.inr (Or.inr rfl)
  · cases fails
  · unfold floatOfText at fails
    split at fails <;> cases fails
    exact Or.inl rfl
  · unfold floatOfText at fails
    split at fails <;> cases fails
    exact Or.inl rfl
  · cases fails
    exact Or.inr (Or.inl rfl)

end Value

namespace Conversion

variable {depths : Depths}

/-- A coercion fails because a value is of the wrong value or kind, out of range or too deep. -/
theorem coercion_error {type : String} {coerce : Value → Except Fault Value} {v : Value} {cause : Fault}
    (coercion : coercion? depths type = some coerce) (fails : coerce v = .error cause) :
    cause.family = .value ∨ cause.family = .kind ∨ cause.family = .range ∨ cause.family = .depth := by
  unfold coercion? at coercion
  split at coercion
  · cases coercion
    unfold Depths.write at fails
    split at fails
    · unfold Value.toText at fails
      split at fails <;> cases fails
      exact Or.inl rfl
    · cases fails
      exact Or.inr (Or.inr (Or.inr rfl))
  split at coercion
  · cases coercion
    exact (Value.toInteger_error fails).imp_right (.imp_right .inl)
  split at coercion
  · cases coercion
    exact (Value.toReal_error fails).imp_right (.imp_right .inl)
  split at coercion
  · cases coercion
    cases fails
  · cases coercion

section Steady

variable {P : Failure → Prop} (values : ∀ failure : Failure, failure.OfValues → P failure)
  {functions : Functions} {nesting : Nesting}
include values

theorem refuse_steady {α : Type} {cause : ConversionFault}
    (resolved : ¬ (Failure.conversion cause).Unresolved) : (Run.refuse cause : Run α).Steady P :=
  .ofExcept fun _ same => Except.error.inj same ▸ values _ ⟨Or.inl ⟨cause, rfl⟩, resolved⟩

theorem byConverter_steady (f : Function) (source target : Option String) (path : String) (v : Value) :
    (byConverter f source target path v).Steady P := by
  unfold byConverter
  split
  · exact .pure _
  · exact refuse_steady values nofun
  · exact refuse_steady values nofun

/-- A coercion fails as conversions do of values, and leaves the tracker alone. -/
theorem byCoercion_steady {type : String} {coerce : Value → Except Fault Value}
    (coercion : coercion? depths type = some coerce) (source target : Option String) (path : String) (v : Value) :
    (byCoercion coerce source target path v).Steady P := by
  unfold byCoercion
  split
  · exact .pure _
  · rename_i cause fails
    split
    · exact refuse_steady values nofun
    · exact refuse_steady values nofun
    · exact refuse_steady values nofun
    · rename_i noKind noValue _
      refine .ofExcept fun failure same => ?_
      cases same
      have resolved : ¬ (Failure.fault cause).Unresolved := fun unresolved =>
        noKind (Failure.family_of_unresolved unresolved)
      rcases coercion_error coercion fails with value | kind | range | depth
      · exact absurd value noValue
      · exact absurd kind noKind
      · exact values _ ⟨Or.inr (Or.inr (Or.inl range)), resolved⟩
      · exact values _ ⟨Or.inr (Or.inr (Or.inr (Or.inr (Or.inl depth)))), resolved⟩

/-- A copy fails only because its value is too deep. -/
theorem copy_steady (v : Value) : (Run.ofExcept (depths.copy v)).Steady P := by
  unfold Depths.copy
  split
  · exact .pure _
  · refine .ofExcept fun failure same => ?_
    cases same
    exact values _ (Failure.ofValues_tooDeep _)

theorem call_steady {name : String} (resolves : ErrsOnly P (functions.resolve name)) (args : List Value) :
    (Run.ofExcept (functions.call name args)).Steady P := by
  refine .ofExcept (resolves.bind fun f failure fails => ?_)
  split at fails <;> cases fails
  · exact values _ ⟨Or.inl ⟨_, rfl⟩, nofun⟩
  · exact values _ ⟨Or.inl ⟨_, rfl⟩, nofun⟩

/-- A new value fails only as its supplier does, or because the default value is too deep. -/
theorem newValue_steady (type : Option String) {supplier : Option String} (value : Option Value)
    (path : String) (calls : ∀ name, filled? supplier = some name → ErrsOnly P (functions.resolve name)) :
    (newValue depths functions type supplier value path).Steady P := by
  have taken : (take path).Steady P := .of_ok fun p => by
    unfold take
    have got : (get : Run Progress) p = (.ok p, p) := rfl
    rw [Run.bind_of_ok got]
    cases found : p.tracker.bind fun t => (t.get? (.text path)).map fun v => (t.erase (.text path), v) with
    | none => exact ⟨_, _, rfl, rfl⟩
    | some taken =>
      obtain ⟨t, tracked, _⟩ := Option.bind_eq_some_iff.mp found
      exact ⟨_, _, rfl, (congrArg Option.isSome tracked).symm⟩
  refine .bind taken fun found => ?_
  split
  · exact .pure _
  split
  · rename_i f named
    exact call_steady values (calls f named) _
  · cases value with
    | none => exact .pure _
    | some v => exact copy_steady values v

omit values in
theorem carry_steady {instances : Entries Value Value × Entries Value Value} {source target : String}
    {convert : Value → Run Value} (each : ∀ v, (convert v).Steady P) :
    (carry instances source target convert).Steady P := by
  unfold carry
  split
  · exact .bind (each _) fun w => .pure _
  · exact .pure _

omit values in
theorem nestedItems_steady {convert : Value → (path : String) → Run Value}
    (each : ∀ v path, (convert v path).Steady P) (path : String) (index : Nat) (items : List Value) :
    (nestedItems convert path index items).Steady P := by
  induction items generalizing index with
  | nil => exact .pure _
  | cons v rest ih =>
    unfold nestedItems
    exact .bind (each _ _) fun w => .bind (ih _) fun ws => .pure _

/-- Recording keeps the tracker, and fails only because a value is too deep. -/
theorem recordDropped_steady (path : String) (fields : Entries Value Value) (dropped : List Dropped) :
    (recordDropped depths path fields dropped).Steady P := by
  induction dropped with
  | nil => exact .pure _
  | cons d rest ih =>
    refine .bind ⟨fun p failure q fails => ?_, fun p _ q run => ?_⟩ fun _ => ih
    · rcases record_cases depths (path ++ d.path) (Value.member? fields d.source) p with done | deep
      · cases done.symm.trans fails
      · cases deep.symm.trans fails
        exact values _ (Failure.ofValues_tooDeep _)
    · rcases record_cases depths (path ++ d.path) (Value.member? fields d.source) p with done | deep
      · cases done.symm.trans run
        exact Option.isSome_map
      · cases deep.symm.trans run

variable (inner : ∀ type convert, nesting type = some convert → ∀ v path, (convert v path).Steady P)
include inner

/-- A nested value fails in the ways of its type, or of the container of its type. -/
theorem nestedValue_steady (edge : Edge) (fromType toType : Option String) (v : Value) (path : String) :
    (nestedValue depths functions nesting edge fromType toType v path).Steady P := by
  unfold nestedValue
  split
  · exact .pure _
  simp only
  split
  · exact byConverter_steady values _ _ _ _ _
  split
  · rename_i convert found
    split at found
    · obtain ⟨type, _, nested⟩ := Option.bind_eq_some_iff.mp found
      exact inner type convert nested _ _
    · cases found
  split
  · rename_i coerce found
    obtain ⟨type, _, coercion⟩ := Option.bind_eq_some_iff.mp found
    exact byCoercion_steady values coercion _ _ _ _
  split
  · exact .pure _
  · exact refuse_steady values nofun

theorem hintedValue_steady (edge : Edge) (fromType toType : Option String) (hint : Option Hint)
    (v : Value) (path : String) :
    (hintedValue depths functions nesting edge fromType toType hint v path).Steady P := by
  have each : ∀ v path, (nestedValue depths functions nesting edge fromType toType v path).Steady P :=
    nestedValue_steady values inner edge fromType toType
  unfold hintedValue
  simp only
  split
  · exact .bind (nestedItems_steady each _ _ _) fun ws => .pure _
  · exact each _ _

theorem fieldStep_steady (edge : Edge) (path : String) (fields out : Entries Value Value)
    {step : FieldStep} (calls : ∀ name, step.Calls name → ErrsOnly P (functions.resolve name)) :
    (fieldStep depths functions nesting edge path fields out step).Steady P := by
  cases step with
  | default => exact .bind (newValue_steady values _ _ _ calls) fun w => .pure _
  | copy => exact carry_steady fun v => .pure v
  | apply => exact carry_steady fun v => call_steady values (calls _ rfl) _
  | nested => exact carry_steady fun v => hintedValue_steady values inner _ _ _ _ _ _

theorem applyFields_steady (edge : Edge) {steps : List FieldStep} (dropped : List Dropped) (v : Value)
    (path : String) (calls : ∀ s ∈ steps, ∀ name, s.Calls name → ErrsOnly P (functions.resolve name)) :
    (applyFields depths functions nesting edge steps dropped v path).Steady P := by
  unfold applyFields
  split
  · refine .bind (.foldlM (fun out step member => ?_) _) fun out => ?_
    · exact fieldStep_steady values inner _ _ _ out (calls step member)
    · exact .bind (recordDropped_steady values _ _ _) fun _ => .pure _
  · exact refuse_steady values nofun

/-- A payload fails in the ways of its function, of its type, or of the container of its type. -/
theorem payload_steady (edge : Edge) (path : String) (v : Value) {step : VariantStep}
    (calls : ∀ name, step.Calls name → ErrsOnly P (functions.resolve name)) :
    (payload depths functions nesting edge path v step).Steady P := by
  unfold payload
  split
  · split
    · rename_i f named
      exact call_steady values (calls f named) _
    split
    · exact nestedValue_steady values inner _ _ _ _ _
    · exact .pure _
  · exact .pure _

theorem variantStep_steady (edge : Edge) (path : String) (carried : Option Value) {step : VariantStep}
    (calls : ∀ name, step.Calls name → ErrsOnly P (functions.resolve name)) :
    (variantStep depths functions nesting edge path carried step).Steady P := by
  unfold variantStep
  split
  · exact .bind (payload_steady values inner _ _ _ calls) fun w => .pure _
  · exact .pure _

/-- An instance of an enum fails in the ways of its variant, or because it has none. -/
theorem applyVariants_steady (edge : Edge) {steps : List VariantStep} (v : Value) (path : String)
    (calls : ∀ s ∈ steps, ∀ name, s.Calls name → ErrsOnly P (functions.resolve name)) :
    (applyVariants depths functions nesting edge steps v path).Steady P := by
  unfold applyVariants
  split
  · exact refuse_steady values nofun
  split
  · rename_i found
    exact variantStep_steady values inner _ _ _ (calls _ (List.mem_of_find?_eq_some found))
  split
  · refine .ofExcept fun failure same => ?_
    cases same
    exact values _ ⟨Or.inr (Or.inr (Or.inr (Or.inl rfl))), nofun⟩
  · exact refuse_steady values nofun

/-- An edge keeps the tracker, and all its failures have a property if those that conversions have of their
own do, those of the names that its steps call, and those of what it follows in nested values. -/
theorem applyEdge_steady {edge : Edge} (v : Value) (path : String)
    (calls : ∀ name, edge.steps.Calls name → ErrsOnly P (functions.resolve name)) :
    (applyEdge depths functions nesting edge v path).Steady P := by
  refine .bind (.of_ok fun p => ⟨_, _, rfl, congrArg _ (count_tracker p edge.direction)⟩) fun _ => ?_
  split
  · rename_i steps dropped own
    refine applyFields_steady values inner _ _ _ _ fun s member name called => calls name ?_
    rw [own]
    exact ⟨s, member, called⟩
  · rename_i steps own
    refine applyVariants_steady values inner _ _ _ fun s member name called => calls name ?_
    rw [own]
    exact ⟨s, member, called⟩

end Steady

end Conversion

namespace Generation

theorem edgesAlong_errsOnly (g : Generation) (current : String) (rs : List Release) :
    ErrsOnly Failure.OfValues (g.edgesAlong current rs) := by
  induction rs generalizing current with
  | nil => exact .ok _
  | cons step rest ih =>
    unfold edgesAlong
    split
    · exact .bind (ih step.name) fun _ => .ok _
    · intro failure fails
      cases fails
      exact ⟨Or.inl ⟨_, rfl⟩, nofun⟩

theorem edgesBetween_errsOnly (g : Generation) (current desired : String) :
    ErrsOnly Failure.OfValues (g.edgesBetween current desired) := by
  have declared : ∀ name, ErrsOnly Failure.OfValues (g.timeline.get name) := by
    intro name failure fails
    unfold Timeline.get at fails
    split at fails <;> cases fails
    exact ⟨Or.inr trivial, nofun⟩
  have path : ErrsOnly Failure.OfValues (g.timeline.path current desired) :=
    .bind (declared current) fun _ => .bind (declared desired) fun _ => .ok _
  exact .bind path fun rs => g.edgesAlong_errsOnly current rs

end Generation

namespace Runtime

variable {ι : Type} {depths : Depths}

/-- Whether a runtime is another itself, or is nested in its values, however deeply. -/
inductive Reaches : Runtime ι → Runtime ι → Prop
  | refl (rt : Runtime ι) : Reaches rt rt
  | nested {rt N M : Runtime ι} {type : String} (inner : rt.nested? type = some N) (later : Reaches N M) :
      Reaches rt M

/-- Whether all failures to resolve the names that a runtime and those that it reaches call have a
property. -/
def CallsErrOnly (P : Failure → Prop) (rt : Runtime ι) : Prop :=
  ∀ M, rt.Reaches M → ∀ e ∈ M.generation.edges, ∀ name, e.steps.Calls name →
    ErrsOnly P (M.functions.resolve name)

/-- Whether an import ends with a fault that a runtime does, or one that it reaches, for a function. -/
def Raises (rt : Runtime ι) (cause : Fault) : Prop :=
  ∃ M, rt.Reaches M ∧ M.functions.Raises cause

variable {P : Failure → Prop} (values : ∀ failure : Failure, failure.OfValues → P failure)
include values

/-- A conversion fails in the ways of its own steps, or in those of the containers that it reaches. -/
theorem between_steady {rt : Runtime ι} {convert : Runtime ι → Converter}
    (inner : ∀ type N, rt.nested? type = some N → ∀ a b v path, (convert N a b v path).Steady P)
    (calls : ∀ e ∈ rt.generation.edges, ∀ name, e.steps.Calls name → ErrsOnly P (rt.functions.resolve name))
    (a b : String) (v : Value) (path : String) : (rt.between depths convert a b v path).Steady P := by
  cases along : rt.generation.edgesBetween a b with
  | error cause =>
    rw [between_of_error along]
    refine .ofExcept fun failure same => ?_
    cases same
    exact values _ (rt.generation.edgesBetween_errsOnly a b _ along)
  | ok edges =>
    rw [between_of_ok along]
    refine .foldlM (fun w e member => ?_) v
    have listed := Generation.mem_edges_of_edgesBetween along e member
    refine Conversion.applyEdge_steady values (fun type convert' follows w place => ?_) w path (calls e listed)
    obtain ⟨N, registered, rfl⟩ := Option.map_eq_some_iff.mp follows
    exact inner type N registered _ _ w place

/-- A conversion keeps its tracker, and all its failures have a property if those that conversions have of
their own do, and those of the names that the runtime and those nested in it call, however deeply. -/
theorem inside_steady (room : Nat) (rt : Runtime ι) (calls : rt.CallsErrOnly P) (a b : String) (v : Value)
    (path : String) : (inside depths room rt a b v path).Steady P := by
  induction room generalizing rt a b v path with
  | zero =>
    refine .ofExcept fun failure same => ?_
    cases same
    exact values _ (Failure.ofValues_tooDeep _)
  | succ room ih =>
    refine between_steady values (fun type N registered => ?_) (calls _ (.refl _)) a b v path
    exact ih N fun M later => calls M (.nested registered later)

omit values

/-- What a conversion fails with is a fault of it, or a failure that escapes from it, however deeply
containers are nested in each other. -/
theorem convert_converts (rt : Runtime ι) (room : Nat) (a b : String) (v : Value) (path : String) :
    (rt.convertOn depths room a b v path).Steady (Failure.OfConversion rt.Raises) := by
  refine inside_steady (fun _ own => own.1.imp_raised nofun) (room + 1) rt (fun M reach e _ name _ => ?_) a b v path
  exact fun failure fails => (M.functions.resolve_errsOnly name failure fails).imp_raised fun cause raises =>
    ⟨M, reach, raises⟩

end Runtime

end Lineage
