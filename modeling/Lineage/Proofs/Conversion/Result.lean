import Lineage.Proofs.Conversion.Steps
import Lineage.Proofs.Conversion.Variants

namespace Lineage

namespace Conversion

variable {depths : Depths} {functions : Functions} {nesting : Nesting} {e : Edge} {path : String}
  {fields out made : Entries Value Value} {p q : Progress}

/-- A value is carried over if the source has it, and else nothing is done. -/
theorem carry_run {source target : String} {convert : Value → Run Value}
    (run : carry (fields, out) source target convert p = (.ok made, q)) :
    (Value.member? fields source = none ∧ made = out) ∨
      ∃ v w, Value.member? fields source = some v ∧ convert v p = (.ok w, q) ∧
        made = Entries.put out (.text target) w := by
  unfold carry at run
  cases present : Value.member? fields source with
  | none =>
    simp only [present] at run
    cases run
    exact Or.inl ⟨rfl, rfl⟩
  | some v =>
    simp only [present] at run
    obtain ⟨w, r, converted, last⟩ := Run.bind_eq_ok_iff.mp run
    cases last
    exact Or.inr ⟨v, w, rfl, converted, rfl⟩

/-- A step touches no field but its target. -/
theorem fieldStep_run {s : FieldStep}
    (run : fieldStep depths functions nesting e path fields out s p = (.ok made, q)) :
    made = out ∨ ∃ w, made = Entries.put out (.text s.target) w := by
  have carried : ∀ {source target : String} {convert : Value → Run Value},
      carry (fields, out) source target convert p = (.ok made, q) →
        made = out ∨ ∃ w, made = Entries.put out (.text target) w := by
    intro source target convert run
    rcases carry_run run with ⟨_, same⟩ | ⟨_, w, _, _, same⟩
    · exact Or.inl same
    · exact Or.inr ⟨w, same⟩
  cases s with
  | default item target type supplier value =>
    obtain ⟨w, r, _, last⟩ := Run.bind_eq_ok_iff.mp run
    cases last
    exact Or.inr ⟨w, rfl⟩
  | copy | apply | nested => exact carried run

/-- What no step of a list writes to is left as it was. -/
theorem member?_foldlM {steps : List FieldStep} {name : String} (other : ∀ s ∈ steps, s.target ≠ name)
    (run : steps.foldlM (fieldStep depths functions nesting e path fields) out p = (.ok made, q)) :
    Value.member? made name = Value.member? out name := by
  induction steps generalizing out p with
  | nil =>
    cases run
    rfl
  | cons s rest ih =>
    rw [List.foldlM_cons] at run
    obtain ⟨mid, r, first, later⟩ := Run.bind_eq_ok_iff.mp run
    have here := other s (List.mem_cons_self ..)
    rw [ih (fun t member => other t (List.mem_cons_of_mem _ member)) later]
    rcases fieldStep_run first with rfl | ⟨w, rfl⟩
    · rfl
    · exact Entries.get?_put_of_ne_text fun same => here (Value.text.inj same).symm

/-- An edge of a struct makes a map of a map by its steps, and records what it drops. -/
theorem fields_of_applyEdge {steps : List FieldStep} {dropped : List Dropped} {v w : Value}
    (own : e.steps = .fields steps dropped) (run : applyEdge depths functions nesting e v path p = (.ok w, q)) :
    ∃ fields made q', v = .map fields ∧ w = .map made ∧
      steps.foldlM (fieldStep depths functions nesting e path fields) [] (p.count e.direction) = (.ok made, q') ∧
      q.tracker = q'.tracker.map fun t => ⟨Entries.putAll t.values (droppedEntries path fields dropped)⟩ := by
  have first : (modify fun p => p.count e.direction : Run Unit) p = (.ok (), p.count e.direction) := rfl
  rw [applyEdge, Run.bind_of_ok first] at run
  simp only [own] at run
  cases v with
  | map fields =>
    obtain ⟨made, q', fold, rest⟩ := Run.bind_eq_ok_iff.mp run
    obtain ⟨_, r, records, last⟩ := Run.bind_eq_ok_iff.mp rest
    cases last
    exact ⟨fields, made, q', rfl, rfl, fold, congrArg Progress.tracker (recordDropped_ok records)⟩
  | _ => cases run

/-- Only maps are converted by the steps of fields. -/
theorem applyEdge_refuses {steps : List FieldStep} {dropped : List Dropped} {v : Value}
    (own : e.steps = .fields steps dropped) (other : ∀ fields, v ≠ .map fields) (p : Progress) :
    ∃ failure q, applyEdge depths functions nesting e v path p = (.error failure, q) := by
  have first : (modify fun p => p.count e.direction : Run Unit) p = (.ok (), p.count e.direction) := rfl
  rw [applyEdge, Run.bind_of_ok first]
  simp only [own]
  cases v with
  | map fields => exact absurd rfl (other fields)
  | _ => exact ⟨_, _, rfl⟩

/-- What an edge makes is a map or the name of a variant. -/
theorem applyEdge_makes {v w : Value} (run : applyEdge depths functions nesting e v path p = (.ok w, q)) :
    (∃ entries, w = .map entries) ∨ ∃ name, w = .text name := by
  cases own : e.steps with
  | fields steps dropped =>
    obtain ⟨_, made, _, _, rfl, _⟩ := fields_of_applyEdge own run
    exact Or.inl ⟨made, rfl⟩
  | variants steps =>
    have first : (modify fun p => p.count e.direction : Run Unit) p = (.ok (), p.count e.direction) := rfl
    rw [applyEdge, Run.bind_of_ok first] at run
    simp only [own, applyVariants] at run
    cases shape : variantOf? v with
    | none =>
      simp only [shape] at run
      cases run
    | some variant =>
      obtain ⟨name, carried⟩ := variant
      simp only [shape] at run
      cases found : steps.find? fun s => Value.text s.source == name with
      | none =>
        simp only [found] at run
        split at run <;> cases run
      | some s =>
        simp only [found] at run
        unfold variantStep at run
        split at run
        · obtain ⟨u, r, _, last⟩ := Run.bind_eq_ok_iff.mp run
          cases last
          exact Or.inl ⟨_, rfl⟩
        · cases run
          exact Or.inr ⟨_, rfl⟩

/-- The keys of what steps make stand in the order of their targets. -/
theorem keys_of_foldlM {steps : List FieldStep}
    (distinct : (out.map (·.1) ++ steps.map fun s => Value.text s.target).Nodup)
    (run : steps.foldlM (fieldStep depths functions nesting e path fields) out p = (.ok made, q)) :
    (made.map (·.1)).Sublist (out.map (·.1) ++ steps.map fun s => Value.text s.target) := by
  induction steps generalizing out p with
  | nil =>
    cases run
    rw [List.map_nil, List.append_nil]
  | cons s rest ih =>
    rw [List.foldlM_cons] at run
    obtain ⟨mid, r, first, later⟩ := Run.bind_eq_ok_iff.mp run
    have skip : (out.map (·.1) ++ rest.map fun s => Value.text s.target).Sublist
        (out.map (·.1) ++ (s :: rest).map fun s => Value.text s.target) :=
      List.Sublist.append_left (List.sublist_cons_self ..) _
    rcases fieldStep_run first with rfl | ⟨w, rfl⟩
    · exact (ih (distinct.sublist skip) later).trans skip
    · have new : ∀ entry ∈ out, (entry.1 == Value.text s.target) = false := by
        intro entry there
        have apart := (List.nodup_append.mp distinct).2.2 entry.1 (List.mem_map_of_mem there)
          (.text s.target) (List.mem_cons_self ..)
        exact Bool.eq_false_iff.mpr fun same => apart (Value.beq_text.mp same)
      have keys : (Entries.put out (.text s.target) w).map (·.1) ++ rest.map (fun s => Value.text s.target) =
          out.map (·.1) ++ (s :: rest).map fun s => Value.text s.target := by
        rw [Entries.put_of_new new, List.map_append, List.append_assoc]
        rfl
      have after := ih (keys ▸ distinct) later
      rwa [keys] at after

end Conversion

namespace Item

/-- The value that a map has for an item under its name in a version. -/
def heldIn (kind : Kind) (t : Timeline) (r : Release) (fields : Entries Value Value) (item : Item) :
    Option Value :=
  (item.statusIn kind t r).member?.bind fun m => Value.member? fields m.1

end Item

namespace Generation.Made

variable {c : Container} {g : Generation} (made : Made c g) {r s : Release} {e : Edge}
  (atR : r ∈ g.timeline.releases) (atS : s ∈ g.timeline.releases) (joins : e.Joins c g.timeline r s)
  {functions : Functions} {nesting : Nesting} {path : String} {v w : Value} {p q : Progress}
include made atR atS joins

/-- What an edge makes of a map is an instance of its target: it has the names of items as its keys, in
their order. -/
theorem instance_of_applyEdge (struct : c.kind = .struct)
    (run : Conversion.applyEdge depths functions nesting e v path p = (.ok w, q)) :
    ∃ entries, w = .map entries ∧
      entries = c.instanceIn g.timeline (Item.heldIn c.kind g.timeline s entries) s := by
  have own := joins.fields struct
  obtain ⟨fields, entries, q', rfl, rfl, fold, _⟩ := Conversion.fields_of_applyEdge own run
  have distinct := made.distinct s atS
  have targets : (c.items.filterMap (FieldStep.along? c g.timeline e.direction r s)).map (·.target) |>.Sublist
      (c.definitionIn g.timeline s).names := by
    rw [Container.names_definitionIn, List.map_filterMap]
    refine filterMap_sublist fun item listed name own => ?_
    obtain ⟨step, along, rfl⟩ := Option.map_eq_some_iff.mp own
    obtain ⟨m, present, leads⟩ := made.along?_target atR atS joins.step listed along
    rw [present, leads]
    rfl
  have texts := targets.map Value.text
  rw [List.map_map] at texts
  have apart : ((c.items.filterMap (FieldStep.along? c g.timeline e.direction r s)).map fun step =>
      Value.text step.target).Nodup := (distinct.map fun _ _ => Value.text.inj).sublist texts
  have keys : (entries.map (·.1)).Sublist
      ((c.items.filterMap (FieldStep.along? c g.timeline e.direction r s)).map fun step =>
        Value.text step.target) :=
    @Conversion.keys_of_foldlM _ functions nesting e path fields [] entries _ _ _ apart fold
  refine ⟨entries, rfl, (Entries.eq_filterMap_of_sublist distinct (keys.trans texts)).trans ?_⟩
  rw [Container.names_definitionIn, List.filterMap_filterMap, Container.instanceIn]
  refine List.filterMap_congr fun item _ => ?_
  rw [Item.keyedIn, Item.heldIn]
  cases (item.statusIn c.kind g.timeline s).member? <;> rfl

/-- A variant that is not in the source of an edge is not converted. -/
theorem applyEdge_fails (enum : c.kind = .enum)
    (unknown : ∀ item ∈ c.items, ∀ m, (item.statusIn c.kind g.timeline r).member? = some m →
      ∀ carried, Conversion.variantOf? v ≠ some (.text m.1, carried)) :
    ∃ failure q, Conversion.applyEdge depths functions nesting e v path p = (.error failure, q) := by
  obtain ⟨own, all⟩ := joins.variants enum
  have first : (modify fun p => p.count e.direction : Run Unit) p = (.ok (), p.count e.direction) := rfl
  rw [Conversion.applyEdge, Run.bind_of_ok first]
  simp only [own, Conversion.applyVariants]
  cases shape : Conversion.variantOf? v with
  | none => exact ⟨_, _, rfl⟩
  | some variant =>
    obtain ⟨name, carried⟩ := variant
    have missing : (c.items.filterMap fun item =>
        (VariantStep.along? c g.timeline e.direction r s item).toOption.join).find?
          (fun step => Value.text step.source == name) = none := by
      rw [List.find?_eq_none]
      intro step among same
      obtain ⟨item, listed, along⟩ := List.mem_filterMap.mp among
      obtain ⟨found, run⟩ := all item listed
      have rel := made.along?_returns atR atS joins.step listed run
      rw [run] at along
      cases along
      cases there : Member.ofStatus? item (item.statusIn c.kind g.timeline r) with
      | none =>
        rw [there] at rel
        cases rel
      | some m =>
        rw [there] at rel
        cases rel with
        | some leads =>
          refine unknown item listed _ (Member.of_ofStatus? there).2 carried ?_
          rw [shape, Value.text_beq.mp same, leads.2.1]
    simp only [missing]
    split <;> exact ⟨_, _, rfl⟩

/-- What an edge makes of a variant is a variant of its target. -/
theorem variant_of_applyEdge (enum : c.kind = .enum)
    (run : Conversion.applyEdge depths functions nesting e v path p = (.ok w, q)) :
    ∃ item ∈ c.items, ∃ m, (item.statusIn c.kind g.timeline s).member? = some m ∧
      ∃ carried, Conversion.variantOf? w = some (.text m.1, carried) := by
  by_cases known : ∀ item ∈ c.items, ∀ m, (item.statusIn c.kind g.timeline r).member? = some m →
      ∀ carried, Conversion.variantOf? v ≠ some (.text m.1, carried)
  · obtain ⟨failure, q', fails⟩ := made.applyEdge_fails atR atS joins enum known
    cases run.symm.trans fails
  · push Not at known
    obtain ⟨item, listed, m, present, carried, shape⟩ := known
    obtain ⟨member, own, _, named⟩ := Member.ofStatus?_eq_some item present
    obtain ⟨steps, step, variants, found, _, leads⟩ := made.find?_variant atR atS enum joins listed own
    rw [named] at found
    rw [Conversion.applyEdge_of_variants variants found shape] at run
    have target : step.target ∈ (c.definitionIn g.timeline s).names := by
      have leads := leads.2.2
      split at leads
      · rename_i kept there
        rw [leads.2]
        exact List.mem_map_of_mem (List.mem_of_find?_eq_some there)
      · exact leads.2
    obtain ⟨other, among, n, after, same⟩ := Container.mem_names_definitionIn.mp target
    refine ⟨other, among, n, after, ?_⟩
    rw [same]
    unfold Conversion.variantStep at run
    split at run
    · obtain ⟨u, _, _, last⟩ := Run.bind_eq_ok_iff.mp run
      cases last
      exact ⟨some u, rfl⟩
    · cases run
      exact ⟨none, rfl⟩

end Generation.Made

end Lineage
