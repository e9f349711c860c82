import Lineage.Proofs.Conversion.Nesting
import Lineage.Proofs.Edge

namespace Lineage

namespace Run

/-- Whether two steps of conversions end alike if they start with the same tracker, or without any
unless something is tracked: both fail, or both have the same result and leave the same tracker. -/
def Alike {α : Type} (tracked : Bool) (m n : Run α) : Prop :=
  ∀ p q : Progress, p.tracker = q.tracker → (tracked = false → p.tracker = none) →
    (∃ a p' q', m p = (.ok a, p') ∧ n q = (.ok a, q') ∧ p'.tracker = q'.tracker ∧
      (tracked = false → p'.tracker = none)) ∨
    ∃ failure other p' q', m p = (.error failure, p') ∧ n q = (.error other, q')

namespace Alike

variable {α β : Type} {tracked : Bool} {m n : Run α}

protected theorem pure (a : α) : Alike tracked (pure a : Run α) (pure a) := by
  intro p q same untracked
  exact Or.inl ⟨a, p, q, rfl, rfl, same, untracked⟩

theorem ofExcept (result : Except Failure α) : Alike tracked (Run.ofExcept result) (Run.ofExcept result) := by
  intro p q same untracked
  cases result with
  | ok a => exact Or.inl ⟨a, p, q, rfl, rfl, same, untracked⟩
  | error failure => exact Or.inr ⟨failure, failure, p, q, rfl, rfl⟩

theorem refuse (cause other : ConversionFault) : Alike tracked (Run.refuse cause : Run α) (Run.refuse other) := by
  intro p q _ _
  exact Or.inr ⟨_, _, p, q, rfl, rfl⟩

theorem symm (alike : Alike tracked m n) : Alike tracked n m := by
  intro p q same untracked
  have start : tracked = false → q.tracker = none := fun off => same ▸ untracked off
  rcases alike q p same.symm start with ⟨a, q', p', left, right, leave, off⟩ | ⟨_, _, q', p', left, right⟩
  · exact Or.inl ⟨a, p', q', right, left, leave.symm, fun none => leave ▸ off none⟩
  · exact Or.inr ⟨_, _, p', q', right, left⟩

protected theorem trans {l : Run α} (first : Alike tracked m n) (second : Alike tracked n l) :
    Alike tracked m l := by
  intro p q same untracked
  rcases first p p rfl untracked with ⟨a, p', r, left, mid, leave, off⟩ | ⟨_, _, p', r, left, mid⟩
  · rcases second p q same untracked with ⟨b, r', q', mid', right, leave', _⟩ | ⟨_, _, r', q', mid', _⟩
    · cases mid.symm.trans mid'
      exact Or.inl ⟨a, p', q', left, right, leave.trans leave', off⟩
    · cases mid.symm.trans mid'
  · rcases second p q same untracked with ⟨b, r', q', mid', _⟩ | ⟨_, _, r', q', mid', right⟩
    · cases mid.symm.trans mid'
    · exact Or.inr ⟨_, _, p', q', left, right⟩

theorem bind {k l : α → Run β} (first : Alike tracked m n) (rest : ∀ a, Alike tracked (k a) (l a)) :
    Alike tracked (m >>= k) (n >>= l) := by
  intro p q same untracked
  rcases first p q same untracked with ⟨a, p', q', left, right, leave, off⟩ | ⟨_, _, p', q', left, right⟩
  · rw [bind_of_ok left, bind_of_ok right]
    exact rest a p' q' leave off
  · exact Or.inr ⟨_, _, p', q', bind_of_error left, bind_of_error right⟩

theorem foldlM {γ : Type} {step step' : β → γ → Run β} {xs : List γ}
    (each : ∀ b, ∀ x ∈ xs, Alike tracked (step b x) (step' b x)) (b : β) :
    Alike tracked (xs.foldlM step b) (xs.foldlM step' b) := by
  induction xs generalizing b with
  | nil => exact .pure b
  | cons x rest ih =>
    rw [List.foldlM_cons, List.foldlM_cons]
    refine (each b x (List.mem_cons_self ..)).bind fun c => ih ?_ c
    intro b y member
    exact each b y (List.mem_cons_of_mem _ member)

/-- What one of two steps that end alike succeeds with, the other does too. -/
theorem ok {a : α} {p p' q : Progress} (alike : Alike tracked m n) (same : p.tracker = q.tracker)
    (untracked : tracked = false → p.tracker = none) (run : m p = (.ok a, p')) :
    ∃ q', n q = (.ok a, q') ∧ q'.tracker = p'.tracker ∧ (tracked = false → p'.tracker = none) := by
  rcases alike p q same untracked with ⟨b, r, q', left, right, leave, off⟩ | ⟨_, _, r, q', left, _⟩
  · cases run.symm.trans left
    exact ⟨q', right, leave.symm, off⟩
  · cases run.symm.trans left

theorem ok_iff {a : α} {t : Option Tracker} (alike : Alike true m n) (p : Progress) :
    (∃ q, m p = (.ok a, q) ∧ q.tracker = t) ↔ ∃ q, n p = (.ok a, q) ∧ q.tracker = t := by
  constructor
  · rintro ⟨q, run, rfl⟩
    obtain ⟨q', other, same, _⟩ := alike.ok rfl nofun run
    exact ⟨q', other, same⟩
  · rintro ⟨q, run, rfl⟩
    obtain ⟨q', other, same, _⟩ := alike.symm.ok rfl nofun run
    exact ⟨q', other, same⟩

/-- Steps that fail end alike. -/
theorem of_fails (left : ∀ p, ∃ failure p', m p = (.error failure, p'))
    (right : ∀ p, ∃ failure p', n p = (.error failure, p')) : Alike tracked m n := by
  intro p q _ _
  obtain ⟨failure, p', fails⟩ := left p
  obtain ⟨other, q', fails'⟩ := right q
  exact Or.inr ⟨failure, other, p', q', fails, fails'⟩

/-- A step ends like another that succeeds just as it does. -/
theorem of_ok_iff (self : Alike tracked m m) (same : ∀ p a q, m p = (.ok a, q) ↔ n p = (.ok a, q)) :
    Alike tracked m n := by
  intro p q start untracked
  cases ends : n q with
  | mk result q' =>
    rcases self p q start untracked with ⟨a, p', r, left, right, leave, off⟩ | ⟨f, f', p', r, left, right⟩
    · exact Or.inl ⟨a, p', r, left, ends ▸ (same q a r).mp right, leave, off⟩
    · cases result with
      | ok a => cases right.symm.trans ((same q a q').mpr ends)
      | error failure => exact Or.inr ⟨f, failure, p', q', left, rfl⟩

end Alike

end Run

namespace Conversion

open Run (Alike)

variable {depths : Depths} {functions : Functions} {nesting nesting' : Nesting} {e e' : Edge} {path place : String}
  {tracked : Bool}

/-- Whether nested values of the same types are converted, and in ways that end alike at the same places.
Without a tracker the places do not matter. -/
def Nesting.Alike (tracked : Bool) (nesting nesting' : Nesting) : Prop :=
  ∀ type, Option.Rel (fun convert convert' => ∀ v path place, (tracked = true → path = place) →
    Run.Alike tracked (convert v path) (convert' v place)) (nesting type) (nesting' type)

variable (places : tracked = true → path = place)
include places

theorem field_places (item : String) : tracked = true → s!"{path}.{item}" = s!"{place}.{item}" := by
  intro on
  rw [places on]

/-- What is taken out of the tracker depends on the tracker only. -/
theorem take_alike : Alike tracked (take path) (take place) := by
  intro p q same untracked
  have got : ∀ p : Progress, (get : Run Progress) p = (.ok p, p) := fun _ => rfl
  cases tracked with
  | false =>
    have none := untracked rfl
    have other := same ▸ none
    refine Or.inl ⟨_, p, q, take_missing ?_, take_missing ?_, same, untracked⟩
    · rw [none, Option.bind_none]
    · rw [other, Option.bind_none]
  | true =>
    rw [← places rfl, take, Run.bind_of_ok (got p), Run.bind_of_ok (got q), ← same]
    generalize (p.tracker.bind fun t => (t.get? (.text path)).map fun v => (t.erase (.text path), v)) = found
    cases found with
    | none => exact Or.inl ⟨none, p, q, rfl, rfl, same, fun off => by cases off⟩
    | some pair => exact Or.inl ⟨some pair.2, _, _, rfl, rfl, rfl, fun off => by cases off⟩

theorem newValue_alike (type supplier : Option String) (value : Option Value) :
    Alike tracked (newValue depths functions type supplier value path)
      (newValue depths functions type supplier value place) := by
  refine (take_alike places).bind fun found => ?_
  split
  · exact .pure _
  · split
    · exact .ofExcept _
    · exact .ofExcept _

/-- Whether a value is too deep to be recorded matters with a tracker only. -/
theorem record_alike (v : Option Value) : Alike tracked (record depths path v) (record depths place v) := by
  intro p q same untracked
  by_cases copies : ∀ w, v = some w → depths.Copies w
  · refine Or.inl ⟨(), _, _, record_apply copies path p, record_apply copies place q, ?_, ?_⟩
    · cases tracked with
      | false => simp only [← same, untracked rfl, Option.map_none]
      | true => simp only [same, places rfl]
    · intro off
      simp only [untracked off, Option.map_none]
  · push Not at copies
    obtain ⟨w, rfl, deep⟩ := copies
    cases tracker : p.tracker with
    | none =>
      have other := same.symm.trans tracker
      exact Or.inl ⟨(), p, q, record_untracked tracker .., record_untracked other .., same, untracked⟩
    | some t =>
      have other := same.symm.trans tracker
      exact Or.inr ⟨_, _, p, q, record_deep tracker deep path, record_deep other deep place⟩

omit places in
theorem byConverter_alike (f : Function) (source target : Option String) (v : Value) :
    Alike tracked (byConverter f source target path v) (byConverter f source target place v) := by
  unfold byConverter
  split
  · exact .pure _
  · exact .refuse _ _
  · exact .refuse _ _

omit places in
theorem byCoercion_alike (coerce : Value → Except Fault Value) (source target : Option String)
    (v : Value) :
    Alike tracked (byCoercion coerce source target path v) (byCoercion coerce source target place v) := by
  unfold byCoercion
  split
  · exact .pure _
  · split
    · exact .refuse _ _
    · exact .refuse _ _
    · exact .refuse _ _
    · exact .ofExcept _

omit places in
theorem nestedItems_alike {convert convert' : Value → (path : String) → Run Value}
    (each : ∀ v path place, (tracked = true → path = place) →
      Alike tracked (convert v path) (convert' v place)) (items : List Value) (index : Nat)
    (places : tracked = true → path = place) :
    Alike tracked (nestedItems convert path index items) (nestedItems convert' place index items) := by
  induction items generalizing index with
  | nil => exact .pure _
  | cons v rest ih =>
    have here : tracked = true → s!"{path}[{index}]" = s!"{place}[{index}]" := fun on => by rw [places on]
    refine (each v _ _ here).bind fun w => (ih (index + 1)).bind fun ws => ?_
    exact .pure _

section Nested

variable (inner : Nesting.Alike tracked nesting nesting')
include inner

omit places in
/-- A nested value is converted alike if the containers of its type convert alike. -/
theorem nestedValue_alike (fromType toType : Option String) (v : Value) (path place : String)
    (places : tracked = true → path = place) :
    Alike tracked (nestedValue depths functions nesting e fromType toType v path)
      (nestedValue depths functions nesting' e' fromType toType v place) := by
  by_cases null : v = .null
  · rw [null]
    exact .pure _
  have follow : Option.Rel (fun convert convert' => ∀ v path place, (tracked = true → path = place) →
        Alike tracked (convert v path) (convert' v place))
      (if fromType.map TypeName.base = toType.map TypeName.base then
        (toType.map TypeName.base).bind nesting else none)
      (if fromType.map TypeName.base = toType.map TypeName.base then
        (toType.map TypeName.base).bind nesting' else none) := by
    split
    · cases toType.map TypeName.base with
      | none => exact .none
      | some type => exact inner type
    · exact .none
  simp only [nestedValue]
  split
  · exact byConverter_alike _ _ _ _
  · generalize (if fromType.map TypeName.base = toType.map TypeName.base then
      (toType.map TypeName.base).bind nesting else none) = found at follow
    generalize (if fromType.map TypeName.base = toType.map TypeName.base then
      (toType.map TypeName.base).bind nesting' else none) = found' at follow
    cases follow with
    | some each => exact each v path place places
    | none =>
      dsimp only
      split
      · exact byCoercion_alike _ _ _ _
      · split
        · exact .pure _
        · exact .refuse _ _

theorem hintedValue_alike (fromType toType : Option String) (hint : Option Hint) (v : Value) :
    Alike tracked (hintedValue depths functions nesting e fromType toType hint v path)
      (hintedValue depths functions nesting' e' fromType toType hint v place) := by
  have single := fun v path place => @nestedValue_alike depths functions nesting nesting' e e' tracked inner
    fromType toType v path place
  unfold hintedValue
  split
  · exact (nestedItems_alike single _ _ places).bind fun ws => .pure _
  · exact single v path place places

/-- A step does alike things to maps that hold the same under the name that it reads. -/
theorem fieldStep_alike {fields fields' : Entries Value Value} {s : FieldStep}
    (reads : ∀ source, s.source? = some source → Value.member? fields source = Value.member? fields' source)
    (out : Entries Value Value) :
    Alike tracked (fieldStep depths functions nesting e path fields out s)
      (fieldStep depths functions nesting' e' place fields' out s) := by
  have carried : ∀ (source target : String) (convert convert' : Value → Run Value),
      s.source? = some source → (∀ v, Alike tracked (convert v) (convert' v)) →
      Alike tracked (carry (fields, out) source target convert) (carry (fields', out) source target convert') := by
    intro source target convert convert' own each
    simp only [carry, ← reads source own]
    split
    · exact (each _).bind fun w => .pure _
    · exact .pure _
  cases s with
  | default item target type supplier value =>
    exact (newValue_alike (field_places places item) type supplier value).bind fun w => .pure _
  | copy item source target => exact carried source target _ _ rfl fun v => .pure v
  | apply item source target function => exact carried source target _ _ rfl fun v => .ofExcept _
  | nested item source target fromType toType hint =>
    exact carried source target _ _ rfl fun v =>
      hintedValue_alike (field_places places item) inner fromType toType hint v

omit inner in
/-- The same is recorded of maps that hold the same under the names that are dropped. -/
theorem recordDropped_alike {fields fields' : Entries Value Value} {dropped : List Dropped}
    (drops : ∀ d ∈ dropped, Value.member? fields d.source = Value.member? fields' d.source) :
    Alike tracked (recordDropped depths path fields dropped) (recordDropped depths place fields' dropped) := by
  induction dropped with
  | nil => exact .pure _
  | cons d rest ih =>
    have own : tracked = true → path ++ d.path = place ++ d.path := fun on => by rw [places on]
    rw [List.forall_mem_cons] at drops
    rw [recordDropped, recordDropped, ← drops.1]
    exact (record_alike own _).bind fun _ => ih drops.2

/-- Steps do alike things to maps that hold the same under the names that they read or drop. -/
theorem applyFields_alike {fields fields' : Entries Value Value} {steps : List FieldStep}
    {dropped : List Dropped}
    (reads : ∀ s ∈ steps, ∀ source, s.source? = some source →
      Value.member? fields source = Value.member? fields' source)
    (drops : ∀ d ∈ dropped, Value.member? fields d.source = Value.member? fields' d.source) :
    Alike tracked (applyFields depths functions nesting e steps dropped (.map fields) path)
      (applyFields depths functions nesting' e' steps dropped (.map fields') place) := by
  have fold : ∀ out, Alike tracked (steps.foldlM (fieldStep depths functions nesting e path fields) out)
      (steps.foldlM (fieldStep depths functions nesting' e' place fields') out) :=
    Alike.foldlM fun out s member => fieldStep_alike places inner (reads s member) out
  refine (fold []).bind fun out => (recordDropped_alike places drops).bind fun _ => ?_
  exact .pure _

/-- A variant is converted alike if the containers of its payload convert alike. -/
theorem variantStep_alike (carried : Option Value) (s : VariantStep) :
    Alike tracked (variantStep depths functions nesting e path carried s)
      (variantStep depths functions nesting' e' place carried s) := by
  unfold variantStep
  split
  · refine Alike.bind ?_ fun w => .pure _
    unfold payload
    split
    · split
      · exact .ofExcept _
      · split
        · exact nestedValue_alike inner _ _ _ _ _ (field_places places _)
        · exact .pure _
    · exact .pure _
  · exact .pure _

omit places inner in
theorem count_alike (d d' : Direction) :
    Alike tracked (modify fun p => p.count d : Run Unit) (modify fun p => p.count d') := by
  intro p q same untracked
  refine Or.inl ⟨(), p.count d, q.count d', rfl, rfl, ?_, ?_⟩
  · rw [count_tracker, count_tracker, same]
  · rw [count_tracker]
    exact untracked

theorem applyEdge_fields_alike {fields fields' : Entries Value Value} {steps : List FieldStep}
    {dropped : List Dropped} (own : e.steps = .fields steps dropped) (own' : e'.steps = .fields steps dropped)
    (reads : ∀ s ∈ steps, ∀ source, s.source? = some source →
      Value.member? fields source = Value.member? fields' source)
    (drops : ∀ d ∈ dropped, Value.member? fields d.source = Value.member? fields' d.source) :
    Alike tracked (applyEdge depths functions nesting e (.map fields) path)
      (applyEdge depths functions nesting' e' (.map fields') place) := by
  refine (count_alike _ _).bind fun _ => ?_
  rw [own, own']
  exact applyFields_alike places inner reads drops

/-- Edges with the same steps make the same of a value, whatever they are called. -/
theorem applyEdge_alike (steps : e.steps = e'.steps) (v : Value) :
    Alike tracked (applyEdge depths functions nesting e v path)
      (applyEdge depths functions nesting' e' v place) := by
  refine (count_alike _ _).bind fun _ => ?_
  rw [← steps]
  split
  · cases v with
    | map fields => exact applyFields_alike places inner (fun _ _ _ _ => rfl) fun _ _ => rfl
    | _ => exact .refuse _ _
  · unfold applyVariants
    split
    · exact .refuse _ _
    · split
      · exact variantStep_alike places inner _ _
      · split
        · exact .ofExcept _
        · exact .refuse _ _

end Nested

end Conversion

namespace Runtime

variable {ι : Type} {tracked : Bool} {depths : Depths}

theorem follow_alike {convert : Runtime ι → Converter} (inner : ∀ N a b v path place,
      (tracked = true → path = place) → Run.Alike tracked (convert N a b v path) (convert N a b v place))
    (rt : Runtime ι) (a b : String) :
    Conversion.Nesting.Alike tracked (rt.follow convert a b) (rt.follow convert a b) := by
  intro type
  rw [follow]
  cases rt.nested? type with
  | none => exact .none
  | some N => exact .some (inner N a b)

theorem between_alike {convert : Runtime ι → Converter} (inner : ∀ N a b v path place,
      (tracked = true → path = place) → Run.Alike tracked (convert N a b v path) (convert N a b v place))
    (rt : Runtime ι) (a b : String) (v : Value) (path place : String)
    (places : tracked = true → path = place) :
    Run.Alike tracked (rt.between depths convert a b v path) (rt.between depths convert a b v place) :=
  (Run.Alike.ofExcept _).bind fun _ =>
    .foldlM (fun w _ _ => Conversion.applyEdge_alike places (follow_alike inner rt _ _) rfl w) v

/-- The result of a conversion depends on the tracker only, and without one not even on where the value
stands. -/
theorem inside_alike (room : Nat) (rt : Runtime ι) (a b : String) (v : Value) (path place : String)
    (places : tracked = true → path = place) :
    Run.Alike tracked (inside depths room rt a b v path) (inside depths room rt a b v place) := by
  induction room generalizing rt a b v path place with
  | zero => exact .ofExcept _
  | succ room ih => exact between_alike ih rt a b v path place places

theorem inner_alike (rt : Runtime ι) (room : Nat) (a b : String) :
    Conversion.Nesting.Alike tracked (rt.inner depths room a b) (rt.inner depths room a b) :=
  follow_alike (inside_alike room) rt a b

end Runtime

end Lineage
