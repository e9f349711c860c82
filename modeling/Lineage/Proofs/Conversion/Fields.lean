import Lineage.Proofs.Conversion.Run
import Lineage.Proofs.Entries

namespace Lineage

/-- Whether a value is what a field gets that is new: what its supplier gives, or else its default
value, or else what its type defaults to. -/
def Addition.Gives (functions : Functions) (type : Option String) (a : Addition) (v : Value) : Prop :=
  match filled? a.supplier with
  | some f => functions.call f [] = .ok v
  | none => v = a.default.getD (TypeName.defaultValue type)

/-- What a field gets that is new, unless its supplier fails. -/
def Addition.given? (functions : Functions) (type : Option String) (a : Addition) : Option Value :=
  match filled? a.supplier with
  | some f => (functions.call f []).toOption
  | none => some (a.default.getD (TypeName.defaultValue type))

theorem Addition.given?_eq_some {functions : Functions} {type : Option String} {a : Addition} {v : Value} :
    a.given? functions type = some v ↔ a.Gives functions type v := by
  unfold given? Gives
  split
  · rename_i f _
    cases functions.call f [] <;> simp [Except.toOption]
  · rw [Option.some.injEq, eq_comm]

/-- Only a supplier can fail to give a value. -/
theorem Addition.exists_gives {functions : Functions} {a : Addition}
    (supplier : ∀ f, filled? a.supplier = some f → ∃ v, functions.call f [] = .ok v)
    (type : Option String) : ∃ v, a.Gives functions type v := by
  unfold Gives
  cases filled : filled? a.supplier with
  | some f => exact supplier f filled
  | none => exact ⟨_, rfl⟩

namespace Conversion

variable {depths : Depths} {functions : Functions} {nesting : Nesting} {edge : Edge} {path : String}
  {fields : Entries Value Value}

/-- Does a step on an instance if there is one. -/
def optionalStep (depths : Depths) (functions : Functions) (nesting : Nesting) (edge : Edge) (path : String)
    (fields out : Entries Value Value) : Option FieldStep → Run (Entries Value Value)
  | some step => fieldStep depths functions nesting edge path fields out step
  | none => pure out

/-- Whether a step, if there is one, puts an entry, if there is one, into what is made of an instance.
It leaves a tracker of one kind in place of one of another. -/
def Puts (depths : Depths) (functions : Functions) (nesting : Nesting) (edge : Edge) (path : String)
    (fields : Entries Value Value) (before after : Option Tracker → Prop) (step : Option FieldStep)
    (entry : Option (Value × Value)) : Prop :=
  ∀ (out : Entries Value Value) (p : Progress), before p.tracker →
    ∃ q, optionalStep depths functions nesting edge path fields out step p =
      (.ok (Entries.putAll out entry.toList), q) ∧ after q.tracker

section Steps

variable {before after : Option Tracker → Prop}

theorem puts_nothing (still : ∀ tracker, before tracker → after tracker) :
    Puts depths functions nesting edge path fields before after none none :=
  fun _ p holds => ⟨p, rfl, still _ holds⟩

/-- A copy puts what the source has, and nothing if it has nothing. -/
theorem puts_copy (still : ∀ tracker, before tracker → after tracker) (item source target : String) :
    Puts depths functions nesting edge path fields before after (some (.copy item source target))
      ((Value.member? fields source).map (.text target, ·)) := by
  intro out p holds
  refine ⟨p, ?_, still _ holds⟩
  cases present : Value.member? fields source with
  | none =>
    simp only [optionalStep, fieldStep, carry, present]
    rfl
  | some v =>
    simp only [optionalStep, fieldStep, carry, present]
    rfl

/-- A step with a function puts what the function makes of what the source has. -/
theorem puts_apply (still : ∀ tracker, before tracker → after tracker) {source function : String}
    {value : Option Value} (absent : Value.member? fields source = none → value = none)
    (calls : ∀ v, Value.member? fields source = some v →
      ∃ w, value = some w ∧ functions.call function [v] = .ok w) (item target : String) :
    Puts depths functions nesting edge path fields before after (some (.apply item source target function))
      (value.map (.text target, ·)) := by
  intro out p holds
  refine ⟨p, ?_, still _ holds⟩
  cases present : Value.member? fields source with
  | none =>
    rw [absent present]
    simp only [optionalStep, fieldStep, carry, present]
    rfl
  | some v =>
    obtain ⟨w, rfl, call⟩ := calls v present
    simp only [optionalStep, fieldStep, carry, present, call]
    rfl

/-- A step for a new field puts what the field gets. -/
theorem puts_default {type supplier : Option String} {value : Option Value} {v : Value} {item : String}
    (gives : ∀ p : Progress, before p.tracker →
      ∃ q, newValue depths functions type supplier value s!"{path}.{item}" p = (.ok v, q) ∧ after q.tracker)
    (target : String) :
    Puts depths functions nesting edge path fields before after (some (.default item target type supplier value))
      (some (.text target, v)) := by
  intro out p holds
  obtain ⟨q, made, left⟩ := gives p holds
  refine ⟨q, ?_, left⟩
  simp only [optionalStep, fieldStep]
  rw [Run.bind_of_ok made]
  rfl

/-- Steps that put their entries one by one put all of them, in their order. The tracker is of a kind
that depends on the items that are still to come. -/
theorem foldlM_fieldStep {items : List Item} {step? : Item → Option FieldStep}
    (entry : Item → Option (Value × Value)) (inv : List Item → Option Tracker → Prop)
    (each : ∀ item rest, item :: rest <:+ items →
      Puts depths functions nesting edge path fields (inv (item :: rest)) (inv rest) (step? item) (entry item))
    (out : Entries Value Value) {p : Progress} (start : inv items p.tracker) :
    ∃ q, (items.filterMap step?).foldlM (fieldStep depths functions nesting edge path fields) out p =
      (.ok (Entries.putAll out (items.filterMap entry)), q) ∧ inv [] q.tracker := by
  induction items generalizing out p with
  | nil => exact ⟨p, rfl, start⟩
  | cons item rest ih =>
    obtain ⟨q, first, still⟩ := each item rest (List.suffix_refl _) out p start
    have later := fun out => ih (fun i more suffix => each i more (suffix.trans (List.suffix_cons ..))) out still
    have entries : (item :: rest).filterMap entry =
        (entry item).toList ++ rest.filterMap entry := by
      cases own : entry item <;> simp [own]
    rw [entries, Entries.putAll_append]
    obtain ⟨last, made, left⟩ := later (Entries.putAll out (entry item).toList)
    refine ⟨last, ?_, left⟩
    cases step : step? item with
    | none =>
      rw [step, optionalStep, Run.pure_apply] at first
      obtain ⟨same, rfl⟩ := Prod.mk.inj first
      rw [List.filterMap_cons_none step]
      rw [← Except.ok.inj same] at made ⊢
      exact made
    | some s =>
      rw [step] at first
      rw [List.filterMap_cons_some step, List.foldlM_cons]
      exact (Run.bind_of_ok first).trans made

end Steps

section NewValues

variable {type supplier : Option String} {value : Option Value} {v : Value} {p : Progress}

/-- Nothing is taken where nothing is recorded. -/
theorem take_missing {place : String} (missing : p.tracker.bind (·.get? (.text place)) = none) :
    take place p = (.ok none, p) := by
  have got : (get : Run Progress) p = (.ok p, p) := rfl
  have nothing : (p.tracker.bind fun t =>
      (t.get? (.text place)).map fun v => (t.erase (.text place), v)) = none := by
    cases tracker : p.tracker with
    | none => rfl
    | some t =>
      rw [tracker] at missing
      exact congrArg (Option.map _) missing
  rw [take, Run.bind_of_ok got, nothing]
  rfl

/-- Where nothing is recorded, a new field gets what its addition gives. -/
theorem newValue_missing {a : Addition} (gives : a.Gives functions type v) {place : String}
    (missing : p.tracker.bind (·.get? (.text place)) = none) :
    newValue .free functions type a.supplier a.default place p = (.ok v, p) := by
  rw [newValue, Run.bind_of_ok (take_missing missing)]
  rw [Addition.Gives] at gives
  cases supplier : filled? a.supplier with
  | some f =>
    rw [supplier] at gives
    simp only [gives]
    rfl
  | none =>
    rw [supplier] at gives
    rw [gives]
    cases a.default <;> rfl

theorem newValue_untracked {a : Addition} (gives : a.Gives functions type v) (untracked : p.tracker = none)
    (place : String) : newValue .free functions type a.supplier a.default place p = (.ok v, p) :=
  newValue_missing gives (by rw [untracked, Option.bind_none])

section Tracked

variable {t : Tracker} {place : String} (tracked : p.tracker = some t) (kept : t.get? (.text place) = some v)
include tracked kept

theorem take_tracked : take place p = (.ok (some v), { p with tracker := some (t.erase (.text place)) }) := by
  have got : (get : Run Progress) p = (.ok p, p) := rfl
  rw [take, Run.bind_of_ok got]
  simp only [tracked, Option.bind_some, kept, Option.map_some]
  rfl

/-- What was recorded is taken, and no supplier is called. -/
theorem newValue_tracked : newValue depths functions type supplier value place p =
    (.ok v, { p with tracker := some (t.erase (.text place)) }) := by
  rw [newValue, Run.bind_of_ok (take_tracked tracked kept)]
  rfl

end Tracked

end NewValues

/-- The fields that are dropped, under the paths where they are recorded. -/
def droppedEntries (path : String) (fields : Entries Value Value) (dropped : List Dropped) :
    Entries Value Value :=
  dropped.filterMap fun d => (Value.member? fields d.source).map (.text (path ++ d.path), ·)

/-- Whether none of the fields that are dropped is too deep to be copied. -/
def CopiesDropped (depths : Depths) (fields : Entries Value Value) (dropped : List Dropped) : Prop :=
  ∀ d ∈ dropped, ∀ v, Value.member? fields d.source = some v → depths.Copies v

theorem copiesDropped_free (fields : Entries Value Value) (dropped : List Dropped) :
    CopiesDropped .free fields dropped :=
  fun _ _ v _ => Depths.copies_free v

theorem record_apply {v : Option Value} (copies : ∀ w, v = some w → depths.Copies w) (place : String)
    (p : Progress) : record depths place v p = (.ok (), { p with
      tracker := p.tracker.map fun t => ⟨Entries.putAll t.values (v.map (.text place, ·)).toList⟩ }) := by
  have got : (get : Run Progress) p = (.ok p, p) := rfl
  rw [record, Run.bind_of_ok got]
  obtain ⟨tracker, upgrades, downgrades⟩ := p
  cases tracker with
  | none => rfl
  | some t =>
    cases v with
    | none => rfl
    | some w =>
      simp only [Depths.copy, if_pos (copies w rfl)]
      rfl

theorem record_untracked {p : Progress} (untracked : p.tracker = none) (place : String) (v : Option Value) :
    record depths place v p = (.ok (), p) := by
  have got : (get : Run Progress) p = (.ok p, p) := rfl
  rw [record, Run.bind_of_ok got, untracked]
  rfl

theorem record_deep {p : Progress} {t : Tracker} {v : Value} (tracked : p.tracker = some t)
    (deep : ¬ depths.Copies v) (place : String) :
    record depths place (some v) p = (.error (.fault (.tooDeep "")), p) := by
  have got : (get : Run Progress) p = (.ok p, p) := rfl
  rw [record, Run.bind_of_ok got, tracked]
  simp only [Depths.copy, if_neg deep]
  rfl

/-- A value is recorded, or it is too deep. -/
theorem record_cases (depths : Depths) (place : String) (v : Option Value) (p : Progress) :
    record depths place v p = (.ok (), { p with
      tracker := p.tracker.map fun t => ⟨Entries.putAll t.values (v.map (.text place, ·)).toList⟩ }) ∨
    record depths place v p = (.error (.fault (.tooDeep "")), p) := by
  cases tracked : p.tracker with
  | none =>
    refine Or.inl ((record_untracked tracked place v).trans ?_)
    rw [Option.map_none, ← tracked]
  | some t =>
    by_cases copies : ∀ w, v = some w → depths.Copies w
    · rw [← tracked]
      exact Or.inl (record_apply copies place p)
    · push Not at copies
      obtain ⟨w, rfl, deep⟩ := copies
      exact Or.inr (record_deep tracked deep place)

/-- What is dropped is recorded under the paths of its items, unless something in it is too deep. -/
theorem recordDropped_apply (path : String) {dropped : List Dropped}
    (copies : CopiesDropped depths fields dropped) (p : Progress) :
    recordDropped depths path fields dropped p = (.ok (), { p with
      tracker := p.tracker.map fun t => ⟨Entries.putAll t.values (droppedEntries path fields dropped)⟩ }) := by
  induction dropped generalizing p with
  | nil =>
    have same : p.tracker.map (fun t => (⟨Entries.putAll t.values []⟩ : Tracker)) = p.tracker := Option.map_id' ..
    exact congrArg (fun tracker => (Except.ok (), { p with tracker := tracker })) same.symm
  | cons d rest ih =>
    have later := ih fun e among => copies e (List.mem_cons_of_mem _ among)
    have entries : droppedEntries path fields (d :: rest) =
        ((Value.member? fields d.source).map (.text (path ++ d.path), ·)).toList ++
          droppedEntries path fields rest := by
      cases present : Value.member? fields d.source <;> simp [droppedEntries, present]
    rw [recordDropped, Run.bind_of_ok (record_apply (copies d (List.mem_cons_self ..)) _ p), later, Option.map_map,
      entries]
    simp only [Function.comp_def, Entries.putAll_append]

/-- What is recorded without a fault is recorded as it is. -/
theorem recordDropped_ok {dropped : List Dropped} {p q : Progress}
    (run : recordDropped depths path fields dropped p = (.ok (), q)) :
    q = { p with tracker := p.tracker.map fun t =>
      ⟨Entries.putAll t.values (droppedEntries path fields dropped)⟩ } := by
  cases tracked : p.tracker with
  | none =>
    have idle : recordDropped depths path fields dropped p = (.ok (), p) := by
      clear run
      induction dropped with
      | nil => rfl
      | cons d rest ih => rw [recordDropped, Run.bind_of_ok (record_untracked tracked ..), ih]
    cases run.symm.trans idle
    rw [Option.map_none, ← tracked]
  | some t =>
    have copies : CopiesDropped depths fields dropped := by
      induction dropped generalizing p t with
      | nil => exact List.forall_mem_nil _
      | cons d rest ih =>
        obtain ⟨_, r, first, later⟩ := Run.bind_eq_ok_iff.mp run
        have own : ∀ v, Value.member? fields d.source = some v → depths.Copies v := by
          intro v held
          by_contra deep
          rw [held, record_deep tracked deep] at first
          cases first
        rw [record_apply own] at first
        cases first
        exact List.forall_mem_cons.mpr ⟨own, ih later _ (congrArg (Option.map _) tracked)⟩
    cases run.symm.trans (recordDropped_apply path copies p)
    rw [tracked]

/-- An edge does its steps on a map and records what it drops. -/
theorem applyEdge_of_fields {steps : List FieldStep} {dropped : List Dropped}
    {out : Entries Value Value} {p q : Progress} (own : edge.steps = .fields steps dropped)
    (copies : CopiesDropped depths fields dropped)
    (made : steps.foldlM (fieldStep depths functions nesting edge path fields) [] (p.count edge.direction) =
      (.ok out, q)) :
    applyEdge depths functions nesting edge (.map fields) path p = (.ok (.map out), { q with
      tracker := q.tracker.map fun t => ⟨Entries.putAll t.values (droppedEntries path fields dropped)⟩ }) := by
  have first : (modify fun p => p.count edge.direction : Run Unit) p =
      (.ok (), p.count edge.direction) := rfl
  rw [applyEdge, Run.bind_of_ok first]
  simp only [own, applyFields]
  rw [Run.bind_of_ok made, Run.bind_of_ok (recordDropped_apply path copies q)]
  rfl

theorem count_tracker (p : Progress) (direction : Direction) :
    (p.count direction).tracker = p.tracker := by
  cases direction <;> rfl

end Conversion

end Lineage
