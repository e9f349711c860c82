import Lineage.Bundle
import Lineage.Proofs.Entries
import Lineage.Proofs.Generation.Verdict

namespace Lineage

/-- A generation ends with a failure that counts as one of the outcomes of generations, and never with a
fault. -/
theorem Generation.outcome_of_failure {c : Container} {failure : Failure}
    (fails : ofContainer c = .error failure) : ∃ o, Outcome.ofFailure? failure = some o := by
  by_cases well : c.WellFormed c.options.allowUnsorted
  · rcases (ofContainer_eq_error_iff well).mp fails with
      ⟨r, names, _, rfl⟩ | ⟨_, older, newer, item, cause, _, rfl⟩
    · exact ⟨_, rfl⟩
    · exact ⟨_, rfl⟩
  · cases (ofContainer_of_not_wellFormed well).symm.trans fails
    exact ⟨_, rfl⟩

namespace Bundle

variable {α : Type} {b : Bundle} {c : Container} {cs : List Container} {name : String}

/-- The generation of a container of the bundle, if it does not fail. -/
def made? (b : Bundle) (c : Container) : Option Generation :=
  (b.generateOne c).toOption

/-- What a container of the bundle fails with, if it does. -/
def failure? (b : Bundle) (c : Container) : Option Failure :=
  match b.generateOne c with
  | .ok _ => none
  | .error failure => some failure

theorem made?_eq_some_iff {g : Generation} : b.made? c = some g ↔ b.generateOne c = .ok g := by
  rw [made?]
  cases b.generateOne c <;> simp [Except.toOption]

/-- What some containers have, under their names. -/
def filed (of : Container → Option α) (cs : List Container) : List (String × α) :=
  cs.filterMap fun c => (of c).map fun a => (c.name, a)

/-- How the generation of a container of the bundle ends, with the kind of the container. -/
def counted (b : Bundle) (cs : List Container) : List (Kind × Outcome) :=
  cs.filterMap fun c => (Generation.outcome? (b.generateOne c)).map fun o => (c.kind, o)

theorem outcome?_generateOne (b : Bundle) (c : Container) :
    ∃ o, Generation.outcome? (b.generateOne c) = some o := by
  cases made : b.generateOne c with
  | ok g => exact ⟨_, rfl⟩
  | error failure =>
    unfold generateOne at made
    split at made
    · exact Generation.outcome_of_failure made
    · cases made
      exact ⟨_, rfl⟩

theorem filed_singleton (of : Container → Option α) (c : Container) :
    filed of [c] = ((of c).map fun a => (c.name, a)).toList := by
  cases own : of c <;> simp [filed, own]

theorem filed_cons (of : Container → Option α) (c : Container) (cs : List Container) :
    filed of (c :: cs) = filed of [c] ++ filed of cs :=
  List.filterMap_append (l := [c])

theorem counted_singleton (b : Bundle) (c : Container) :
    ∃ o, Generation.outcome? (b.generateOne c) = some o ∧ b.counted [c] = [(c.kind, o)] := by
  obtain ⟨o, ends⟩ := b.outcome?_generateOne c
  exact ⟨o, ends, by simp [counted, ends]⟩

theorem counted_cons (b : Bundle) (c : Container) (cs : List Container) :
    b.counted (c :: cs) = b.counted [c] ++ b.counted cs :=
  List.filterMap_append (l := [c])

/-- A container is recorded with the generations or else with the failures, and its outcome is counted. -/
theorem record_eq (r : BundleResult) (c : Container) : record r c (b.generateOne c) =
    ⟨r.name, r.results.putAll (filed b.made? [c]), r.failures.putAll (filed b.failure? [c]),
      r.outcomes ++ b.counted [c], r.interrupted⟩ := by
  obtain ⟨o, ends, once⟩ := b.counted_singleton c
  unfold record
  rw [filed_singleton, filed_singleton, once, ends, made?, failure?]
  cases made : b.generateOne c with
  | ok g => rfl
  | error failure =>
    rw [made] at ends
    cases failure with
    | fault => cases ends
    | _ => rfl

/-- While nothing interrupts it, a generation files every container as it turns out, one after the other. -/
theorem foldl_record (r : BundleResult) (going : r.interrupted = none) :
    cs.foldl (fun result c => if result.interrupted.isSome then result else
        record result c (b.generateOne c)) r =
      ⟨r.name, r.results.putAll (filed b.made? cs), r.failures.putAll (filed b.failure? cs),
        r.outcomes ++ b.counted cs, none⟩ := by
  induction cs generalizing r with
  | nil =>
    rw [← going]
    simp [filed, counted, Entries.putAll]
  | cons c rest ih =>
    rw [List.foldl_cons, if_neg (by simp [going]), record_eq, ih]
    · simp only [filed_cons _ c rest, counted_cons _ c rest, Entries.putAll_append, List.append_assoc]
    · exact going

theorem generate_eq (b : Bundle) : b.generate =
    ⟨b.name, Entries.ofList (filed b.made? b.containers), Entries.ofList (filed b.failure? b.containers),
      b.counted b.containers, none⟩ :=
  foldl_record _ rfl

/-- What the last container of a name has, of those that have something. -/
def lastNamed? (of : Container → Option α) (cs : List Container) (name : String) : Option α :=
  cs.reverse.findSome? fun c => if c.name = name then of c else none

theorem get?_filed (of : Container → Option α) (cs : List Container) :
    Entries.get? (filed of cs) name = cs.findSome? fun c => if c.name = name then of c else none := by
  induction cs with
  | nil => rfl
  | cons c rest ih =>
    rw [filed_cons, Entries.get?_append, ih, filed_singleton, List.findSome?_cons]
    by_cases same : c.name = name <;> cases of c <;> simp [Entries.get?, same]

theorem get?_ofList_filed (of : Container → Option α) (cs : List Container) :
    Entries.get? (Entries.ofList (filed of cs)) name = lastNamed? of cs name := by
  rw [Entries.get?_ofList, lastNamed?, ← get?_filed, filed, filed, List.filterMap_reverse]

theorem keys_filed_sublist (of : Container → Option α) (cs : List Container) :
    ((filed of cs).map (·.1)).Sublist (cs.map (·.name)) := by
  induction cs with
  | nil => exact .slnil
  | cons c rest ih =>
    rw [filed_cons, filed_singleton, List.map_append, List.map_cons]
    cases of c with
    | none => exact .cons _ ih
    | some a => exact .cons_cons _ ih

/-- Each container has a generation or a failure, and not both. -/
theorem made?_or_failure? (b : Bundle) (c : Container) :
    (∃ g, b.made? c = some g ∧ b.failure? c = none) ∨
      ∃ failure, b.made? c = none ∧ b.failure? c = some failure := by
  rw [made?, failure?]
  cases b.generateOne c with
  | ok g => exact .inl ⟨g, rfl, rfl⟩
  | error failure => exact .inr ⟨failure, rfl, rfl⟩

theorem length_filed (b : Bundle) (cs : List Container) :
    (filed b.made? cs).length + (filed b.failure? cs).length = cs.length := by
  induction cs with
  | nil => rfl
  | cons c rest ih =>
    rw [filed_cons b.made? c rest, filed_cons b.failure? c rest, List.length_append, List.length_append,
      filed_singleton, filed_singleton, List.length_cons]
    rcases b.made?_or_failure? c with ⟨g, made, failed⟩ | ⟨failure, made, failed⟩ <;> rw [made, failed] <;>
      simp only [Option.map_some, Option.map_none, Option.toList_some, Option.toList_none, List.length_cons,
        List.length_nil] <;> omega

theorem kinds_counted (b : Bundle) (cs : List Container) : (b.counted cs).map (·.1) = cs.map (·.kind) := by
  induction cs with
  | nil => rfl
  | cons c rest ih =>
    obtain ⟨o, _, once⟩ := b.counted_singleton c
    rw [counted_cons, once, List.map_append, ih]
    rfl

/-- Where no two containers share a name, the one of a name is found by it. -/
theorem findSome?_of_distinct {of : Container → Option α} (distinct : (cs.map (·.name)).Nodup)
    (member : c ∈ cs) : cs.findSome? (fun d => if d.name = c.name then of d else none) = of c := by
  induction cs with
  | nil => cases member
  | cons d rest ih =>
    obtain ⟨new, distinct⟩ := List.nodup_cons.mp distinct
    rw [List.findSome?_cons]
    rcases List.mem_cons.mp member with rfl | later
    · have others : rest.findSome? (fun d => if d.name = c.name then of d else none) = none := by
        refine List.findSome?_eq_none_iff.mpr fun d among => if_neg fun same => new ?_
        exact List.mem_map.mpr ⟨d, among, same⟩
      rw [if_pos rfl, others]
      cases of c <;> rfl
    · have apart : d.name ≠ c.name := fun same => new (List.mem_map.mpr ⟨c, later, same.symm⟩)
      rw [if_neg apart]
      exact ih distinct later

theorem lastNamed?_of_distinct {of : Container → Option α} (distinct : (cs.map (·.name)).Nodup)
    (member : c ∈ cs) : lastNamed? of cs c.name = of c :=
  findSome?_of_distinct (by rw [List.map_reverse]; exact List.nodup_reverse.mpr distinct)
    (List.mem_reverse.mpr member)

/-- Whether a result accounts for every container of a bundle: under its name stands its own generation with
the results, or else its own failure with the failures, and nothing else is there. -/
structure Accounted (b : Bundle) (r : BundleResult) : Prop where
  each : ∀ c ∈ b.containers, Entries.get? r.results c.name = b.made? c ∧
    Entries.get? r.failures c.name = b.failure? c
  total : r.results.length + r.failures.length = b.containers.length

theorem accounted_of_distinct (distinct : (b.containers.map (·.name)).Nodup) : b.Accounted b.generate := by
  have fresh : ∀ {β : Type} (of : Container → Option β), Entries.ofList (filed of b.containers) =
      filed of b.containers := fun of =>
    Entries.ofList_of_nodup (distinct.sublist (keys_filed_sublist of b.containers))
  rw [generate_eq]
  refine ⟨fun c member => ?_, ?_⟩
  · rw [get?_ofList_filed, get?_ofList_filed]
    exact ⟨lastNamed?_of_distinct distinct member, lastNamed?_of_distinct distinct member⟩
  · simp only [fresh]
    exact b.length_filed b.containers

/-- If every container is accounted for, no two of them share a name. -/
theorem distinct_of_accounted (accounted : b.Accounted b.generate) : (b.containers.map (·.name)).Nodup := by
  obtain ⟨results, failures⟩ : b.generate.results = Entries.ofList (filed b.made? b.containers) ∧
      b.generate.failures = Entries.ofList (filed b.failure? b.containers) := by
    rw [generate_eq]
    exact ⟨rfl, rfl⟩
  have named : b.generate.results.map (·.1) ++ b.generate.failures.map (·.1) ⊆ b.containers.map (·.name) := by
    rw [results, failures]
    exact List.append_subset.mpr
      ⟨fun _ among => (keys_filed_sublist ..).subset (Entries.keys_ofList_subset _ among),
        fun _ among => (keys_filed_sublist ..).subset (Entries.keys_ofList_subset _ among)⟩
  -- No name stands for a generation and for a failure, so there are as many names as containers.
  have distinct : (b.generate.results.map (·.1) ++ b.generate.failures.map (·.1)).Nodup := by
    refine List.nodup_append.mpr
      ⟨results ▸ Entries.nodup_keys_ofList _, failures ▸ Entries.nodup_keys_ofList _, ?_⟩
    rintro name made _ failed rfl
    obtain ⟨c, member, rfl⟩ := List.mem_map.mp (named (List.mem_append_left _ made))
    obtain ⟨g, atResults⟩ := Entries.mem_keys_iff.mp made
    obtain ⟨failure, atFailures⟩ := Entries.mem_keys_iff.mp failed
    obtain ⟨ownResult, ownFailure⟩ := accounted.each c member
    rcases b.made?_or_failure? c with ⟨_, _, none⟩ | ⟨_, none, _⟩
    · cases (atFailures.symm.trans ownFailure).trans none
    · cases (atResults.symm.trans ownResult).trans none
  have total : (b.containers.map (·.name)).length ≤
      (b.generate.results.map (·.1) ++ b.generate.failures.map (·.1)).length := by
    rw [List.length_map, List.length_append, List.length_map, List.length_map, accounted.total]
  exact ((List.subperm_of_subset distinct named).perm_of_length_le total).nodup_iff.mp distinct

/-- Every container of a bundle is generated by itself, whatever becomes of the others, and is counted. What
stands under a name is the outcome of the last container of this name, so that all containers are accounted
for exactly if their names are distinct. -/
theorem generate_accounts (b : Bundle) :
    (∀ others c, { b with containers := others }.generateOne c = b.generateOne c) ∧
      b.generate.interrupted = none ∧ b.generate.outcomes.map (·.1) = b.containers.map (·.kind) ∧
      (∀ name, Entries.get? b.generate.results name = lastNamed? b.made? b.containers name ∧
        Entries.get? b.generate.failures name = lastNamed? b.failure? b.containers name) ∧
      (b.Accounted b.generate ↔ (b.containers.map (·.name)).Nodup) := by
  refine ⟨fun _ _ => rfl, ?_, ?_, fun name => ?_, distinct_of_accounted, accounted_of_distinct⟩
  · rw [generate_eq]
  · rw [generate_eq]
    exact b.kinds_counted b.containers
  · rw [generate_eq]
    exact ⟨get?_ofList_filed .., get?_ofList_filed ..⟩

/-- A shop that has one container for the number of an order, and another of the same name for its total. -/
def shop : Bundle where
  name := "shop"
  versions := [Declaration.named "v1"]
  containers := [("id", "int"), ("total", "float")].map fun (item, type) =>
    { name := "Order"
      kind := .struct
      doc := none
      versions := []
      items := [⟨item, some type, none, none, false, none, [], none⟩]
      options := ⟨false, false⟩
      resource := none }
  options := ⟨true, false⟩

/-- Both orders are generated, but only one of them is kept. -/
theorem shop_order_lost : (∀ c ∈ shop.containers, ∃ g, shop.generateOne c = .ok g) ∧
    shop.containers.length = 2 ∧ shop.generate.results.length = 1 ∧ shop.generate.failures.length = 0 ∧
    ¬ shop.Accounted shop.generate := by
  have generated : ∀ c ∈ shop.containers, (shop.generateOne c).isOk = true := by decide +kernel
  have counts : shop.generate.results.length = 1 ∧ shop.generate.failures.length = 0 := by decide +kernel
  refine ⟨fun c member => exists_of_isOk (generated c member), rfl, counts.1, counts.2, fun accounted => ?_⟩
  have total := accounted.total
  rw [counts.1, counts.2] at total
  cases total

end Bundle

end Lineage
