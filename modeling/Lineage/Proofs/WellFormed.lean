import Mathlib.Data.List.Basic
import Mathlib.Data.List.Nodup
import Lineage.Lifecycle
import Lineage.Proofs.Text

namespace Lineage

/-- The rules for the history of an item. Actions are ordered by where their versions are declared
first, so that the rules say something of every list of versions. -/
structure Item.WellFormed (versions : List String) (kind : Kind) (item : Item) : Prop where
  declared : ∀ since ∈ item.actions.map (·.2), since ∈ versions
  added_first : ∀ a ∈ item.added, ∀ c ∈ item.changes, versions.idxOf a.since < versions.idxOf c.since
  deprecated_last :
    ∀ d ∈ item.deprecated, ∀ c ∈ item.changes, versions.idxOf c.since < versions.idxOf d.since
  added_before_deprecated :
    ∀ a ∈ item.added, ∀ d ∈ item.deprecated, versions.idxOf a.since < versions.idxOf d.since
  changes_apart : (item.changes.map fun c => versions.idxOf c.since).Nodup
  marked_iff : kind.mark.toList <+: item.name.toList ↔ item.deprecated.isSome = true
  previous_unmarked : ∀ c ∈ item.changes, ∀ name, c.fromName = some name → name ≠ "" →
    ¬ kind.mark.toList <+: name.toList
  typed : kind = .struct → ∃ type, item.type = some type ∧ type ≠ ""
  alters : ∀ c ∈ item.changes, c.fromName ≠ none ∨ c.fromType ≠ none
  functions_typed : ∀ c ∈ item.changes, ∀ f, f ≠ "" →
    c.upgradeWith = some f ∨ c.downgradeWith = some f → c.fromType ≠ none
  supplier_named : ∀ a ∈ item.added, ∀ f, a.supplier = some f → ∃ ch ∈ f.toList, Text.isBlank ch = false
  fallback_of_variant : ∀ a ∈ item.added, ∀ f, a.fallback = some f → f ≠ "" → kind = .enum

/-- The rules for a container; `unsorted` says whether its versions may stand in any order. -/
structure Container.WellFormed (unsorted : Bool) (c : Container) : Prop where
  versions : checkDeclarations unsorted c.versions = []
  items : ∀ item ∈ c.items, item.WellFormed (c.versions.map (·.name)) c.kind
  storage : ∀ r ∈ c.resource, ∀ version, r.storageVersion = some version → version ≠ "" →
    version ∈ c.versions.map (·.name)

theorem filled?_eq_some {s : Option String} {text : String} :
    filled? s = some text ↔ s = some text ∧ text ≠ "" := by
  simp [filled?, Option.filter_eq_some_iff]

theorem filled?_isSome_iff {s : Option String} :
    (filled? s).isSome = true ↔ ∃ text, s = some text ∧ text ≠ "" := by
  simp only [Option.isSome_iff_exists, filled?_eq_some]

theorem Kind.isMarked_iff {kind : Kind} {name : String} :
    kind.isMarked name = true ↔ kind.mark.toList <+: name.toList := by
  rw [isMarked, Option.isSome_iff_exists]
  refine exists_congr fun rest => ?_
  rw [Text.dropPrefix?_eq_some_iff, eq_comm]

section Ranks

/-- The rank of a name is that of its first declaration, counted from a start. -/
theorem ranksFrom_get? (rank : Nat) (known : Ranks) (ds : List Declaration) (name : String) :
    Entries.get? (ranksFrom rank known ds) name = (Entries.get? known name <|>
      if name ∈ ds.map (·.name) then some ((rank + (ds.map (·.name)).idxOf name : Nat) : Int) else none) := by
  induction ds generalizing rank known with
  | nil => simp [ranksFrom]
  | cons d rest ih =>
    rw [ranksFrom, ih]
    have shifted : rank + 1 + (rest.map (·.name)).idxOf name = rank + ((rest.map (·.name)).idxOf name + 1) := by
      omega
    by_cases same : d.name = name
    · subst same
      cases present : Entries.has known d.name with
      | true =>
        rw [Entries.has_eq_isSome_get?, Option.isSome_iff_exists] at present
        obtain ⟨r, found⟩ := present
        simp [found]
      | false =>
        rw [Entries.has_eq_isSome_get?, Option.isSome_eq_false_iff, Option.isNone_iff_eq_none] at present
        have appended : Entries.get? (known ++ [(d.name, (rank : Int))]) d.name = some (rank : Int) := by
          simp only [Entries.get?, Option.map_eq_none_iff] at present
          simp [Entries.get?, List.find?_append, present]
        simp [present, appended]
    · have other : ∀ r : Int, Entries.get? (known ++ [(d.name, r)]) name = Entries.get? known name := by
        intro r
        simp [Entries.get?, List.find?_append, same]
      have unchanged : Entries.get?
          (if Entries.has known d.name then known else known ++ [(d.name, (rank : Int))]) name =
          Entries.get? known name := by
        split
        · rfl
        · exact other _
      rw [unchanged, shifted, List.map_cons, List.idxOf_cons_ne _ same]
      simp [Ne.symm same]

/-- The rank of a name is the place of its first declaration. -/
theorem Ranks.get?_eq (ds : List Declaration) (name : String) :
    Entries.get? (Ranks.ofDeclarations ds) name =
      if name ∈ ds.map (·.name) then some ((ds.map (·.name)).idxOf name : Int) else none := by
  rw [ofDeclarations, ranksFrom_get?]
  simp [Entries.get?]

theorem Ranks.get?_of_declared {ds : List Declaration} {name : String} (declared : name ∈ ds.map (·.name)) :
    Entries.get? (Ranks.ofDeclarations ds) name = some ((ds.map (·.name)).idxOf name : Int) := by
  rw [get?_eq, if_pos declared]

theorem Ranks.has_iff {ds : List Declaration} {name : String} :
    Entries.has (Ranks.ofDeclarations ds) name = true ↔ name ∈ ds.map (·.name) := by
  rw [Entries.has_eq_isSome_get?, get?_eq]
  split <;> simp_all

end Ranks

/-- No name recurs exactly if all are distinct and none was seen before. -/
theorem recurring_eq_nil_iff {names seen : List String} :
    recurring seen names = [] ↔ names.Nodup ∧ ∀ name ∈ names, name ∉ seen := by
  induction names generalizing seen with
  | nil => simp [recurring]
  | cons name rest ih =>
    by_cases known : name ∈ seen
    · simp [recurring, known]
    · have apart : ∀ other ∈ rest, other ∉ name :: seen ↔ other ≠ name ∧ other ∉ seen := by simp
      simp only [recurring, List.contains_iff_mem, known, if_false, ih, List.nodup_cons,
        List.forall_mem_cons, not_false_eq_true, true_and]
      constructor
      · rintro ⟨distinct, fresh⟩
        refine ⟨⟨fun again => ?_, distinct⟩, fun other member => ?_⟩
        · exact ((apart name again).mp (fresh name again)).1 rfl
        · exact ((apart other member).mp (fresh other member)).2
      · rintro ⟨⟨single, distinct⟩, fresh⟩
        refine ⟨distinct, fun other member => (apart other member).mpr ⟨?_, fresh other member⟩⟩
        rintro rfl
        exact single member

namespace Item

variable {item : Item} {kind : Kind} {ds : List Declaration}

theorem checkVersions_eq_nil_iff : item.checkVersions (Ranks.ofDeclarations ds) = [] ↔
    ∀ since ∈ item.actions.map (·.2), since ∈ ds.map (·.name) := by
  rw [checkVersions, List.map_eq_nil_iff, List.filter_eq_nil_iff, List.forall_mem_map]
  refine forall₂_congr fun entry _ => ?_
  rw [← Ranks.has_iff]
  simp

/-- No actions are in conflict exactly if no two of them take place in the same version. -/
theorem checkCombinations_eq_nil_iff : item.checkCombinations = [] ↔
    (∀ a ∈ item.added, ∀ d ∈ item.deprecated, a.since ≠ d.since) ∧
      (∀ a ∈ item.added, ∀ c ∈ item.changes, a.since ≠ c.since) ∧
      (∀ d ∈ item.deprecated, ∀ c ∈ item.changes, c.since ≠ d.since) ∧
      (item.changes.map (·.since)).Nodup := by
  simp only [checkCombinations, List.append_eq_nil_iff, List.map_eq_nil_iff, recurring_eq_nil_iff,
    and_assoc]
  refine and_congr ?_ (and_congr ?_ (and_congr ?_ ?_))
  · cases item.added <;> cases item.deprecated <;> simp
  · cases item.added <;> simp [eq_comm]
  · cases item.deprecated <;> simp
  · simp

section Declared

variable {versions : List String} (declared : ∀ since ∈ item.actions.map (·.2), since ∈ versions)
include declared

theorem declared_added : ∀ a ∈ item.added, a.since ∈ versions := by
  intro a added
  exact declared _ (by simp [actions, Option.mem_def.mp added])

theorem declared_changed : ∀ c ∈ item.changes, c.since ∈ versions := by
  intro c changed
  refine declared _ ?_
  simp only [actions, List.map_append, List.map_map, List.mem_append, List.mem_map]
  exact Or.inl (Or.inr ⟨c, changed, rfl⟩)

theorem declared_deprecated : ∀ d ∈ item.deprecated, d.since ∈ versions := by
  intro d deprecated
  exact declared _ (by simp [actions, Option.mem_def.mp deprecated])

end Declared

section Order

variable (declared : ∀ since ∈ item.actions.map (·.2), since ∈ ds.map (·.name))
include declared

/-- The actions of an item are in order exactly if it is added before it changes and deprecated last. -/
theorem checkOrder_eq_nil_iff : item.checkOrder (Ranks.ofDeclarations ds) = [] ↔
    (∀ a ∈ item.added, ∀ d ∈ item.deprecated,
        (ds.map (·.name)).idxOf a.since ≤ (ds.map (·.name)).idxOf d.since) ∧
      (∀ a ∈ item.added, ∀ c ∈ item.changes,
        (ds.map (·.name)).idxOf a.since < (ds.map (·.name)).idxOf c.since) ∧
      ∀ d ∈ item.deprecated, ∀ c ∈ item.changes,
        (ds.map (·.name)).idxOf c.since < (ds.map (·.name)).idxOf d.since := by
  have atAdded := fun a added => Ranks.get?_of_declared (declared_added declared a added)
  have atDeprecated := fun d deprecated => Ranks.get?_of_declared (declared_deprecated declared d deprecated)
  have ranks : item.changes.filterMap (fun c => Entries.get? (Ranks.ofDeclarations ds) c.since) =
      item.changes.map fun c => ((ds.map (·.name)).idxOf c.since : Int) := by
    rw [← List.filterMap_eq_map]
    refine List.filterMap_congr fun c changed => ?_
    rw [Ranks.get?_of_declared (declared_changed declared c changed), Function.comp_apply]
  simp only [checkOrder, List.append_eq_nil_iff, ranks]
  refine and_congr ?_ ?_
  · cases added : item.added with
    | none => simp
    | some a =>
      cases deprecated : item.deprecated with
      | none => simp
      | some d => simp [atAdded a added, atDeprecated d deprecated]
  · cases added : item.added with
    | none =>
      cases deprecated : item.deprecated with
      | none => simp
      | some d => simp [atDeprecated d deprecated]
    | some a =>
      cases deprecated : item.deprecated with
      | none => simp [atAdded a added]
      | some d => simp [atAdded a added, atDeprecated d deprecated, forall_and]

/-- The checks of combinations compare names, and the checks of order compare ranks. Both agree,
because names of declared versions are as distinct as their ranks. -/
theorem checkHistory_eq_nil_iff :
    item.checkCombinations = [] ∧ item.checkOrder (Ranks.ofDeclarations ds) = [] ↔
      (∀ a ∈ item.added, ∀ c ∈ item.changes,
          (ds.map (·.name)).idxOf a.since < (ds.map (·.name)).idxOf c.since) ∧
        (∀ d ∈ item.deprecated, ∀ c ∈ item.changes,
          (ds.map (·.name)).idxOf c.since < (ds.map (·.name)).idxOf d.since) ∧
        (∀ a ∈ item.added, ∀ d ∈ item.deprecated,
          (ds.map (·.name)).idxOf a.since < (ds.map (·.name)).idxOf d.since) ∧
        (item.changes.map fun c => (ds.map (·.name)).idxOf c.since).Nodup := by
  have singly : (item.changes.map fun c => (ds.map (·.name)).idxOf c.since) =
      (item.changes.map (·.since)).map (ds.map (·.name)).idxOf := by
    rw [List.map_map]
    rfl
  have reflects : ∀ x ∈ item.changes.map (·.since), ∀ y ∈ item.changes.map (·.since),
      (ds.map (·.name)).idxOf x = (ds.map (·.name)).idxOf y → x = y := by
    rw [List.forall_mem_map]
    exact fun c changed _ _ => (List.idxOf_inj (declared_changed declared c changed)).mp
  rw [checkCombinations_eq_nil_iff, checkOrder_eq_nil_iff declared, singly]
  constructor
  · rintro ⟨⟨apart, _, _, distinct⟩, ordered, addedFirst, deprecatedLast⟩
    refine ⟨addedFirst, deprecatedLast, fun a added d deprecated => ?_, distinct.map_on reflects⟩
    refine Nat.lt_of_le_of_ne (ordered a added d deprecated) fun same => ?_
    exact apart a added d deprecated ((List.idxOf_inj (declared_added declared a added)).mp same)
  · rintro ⟨addedFirst, deprecatedLast, ordered, distinct⟩
    have apart : ∀ {x y : String},
        (ds.map (·.name)).idxOf x < (ds.map (·.name)).idxOf y → x ≠ y := by
      rintro x _ below rfl
      exact Nat.lt_irrefl _ below
    exact ⟨⟨fun a added d deprecated => apart (ordered a added d deprecated),
      fun a added c changed => apart (addedFirst a added c changed),
      fun d deprecated c changed => apart (deprecatedLast d deprecated c changed), distinct.of_map _⟩,
      fun a added d deprecated => Nat.le_of_lt (ordered a added d deprecated), addedFirst, deprecatedLast⟩

end Order

/-- The names of an item are right exactly if just a deprecated one is marked, and no former one. -/
theorem checkNames_eq_nil_iff : item.checkNames kind = [] ↔
    (kind.mark.toList <+: item.name.toList ↔ item.deprecated.isSome = true) ∧
      ∀ c ∈ item.changes, ∀ name, c.fromName = some name → ¬ kind.mark.toList <+: name.toList := by
  simp only [checkNames, List.append_eq_nil_iff, List.filterMap_eq_nil_iff, List.mem_filterMap,
    forall_exists_index, and_imp, ← Kind.isMarked_iff]
  refine and_congr ?_ ?_
  · cases item.deprecated <;> cases kind.isMarked item.name <;> simp
  · constructor
    · intro clean c changed name previous
      simpa using clean name c changed previous
    · intro clean name c changed previous
      simpa using clean c changed name previous

/-- A change is right exactly if it changes something, and has functions only if it changes a type. -/
theorem checkChange_eq_nil_iff {c : Change} : checkChange c = [] ↔
    (c.fromName ≠ none ∨ c.fromType ≠ none) ∧
      ∀ f, f ≠ "" → c.upgradeWith = some f ∨ c.downgradeWith = some f → c.fromType ≠ none := by
  have given : ∀ s : Option String, (filled? s).isSome = false ↔ ∀ f, f ≠ "" → s ≠ some f := by
    intro s
    rw [← Bool.not_eq_true, filled?_isSome_iff, not_exists]
    exact forall_congr' fun f => by tauto
  cases typed : c.fromType with
  | some type => simp [checkChange, typed]
  | none =>
    have upgrade := given c.upgradeWith
    have downgrade := given c.downgradeWith
    have named : c.fromName.isNone = true ↔ c.fromName = none := Option.isNone_iff_eq_none
    simp only [checkChange, typed, Option.isSome_none, Bool.false_eq_true, if_false,
      List.append_eq_nil_iff, ite_eq_right_iff, reduceCtorEq, imp_false, Bool.not_eq_true, upgrade,
      downgrade, ← named, ne_eq, not_true_eq_false, or_false, not_or]
    constructor
    · rintro ⟨⟨up, down⟩, changed⟩
      exact ⟨by simpa using changed, fun f filled => ⟨up f filled, down f filled⟩⟩
    · rintro ⟨changed, unused⟩
      exact ⟨⟨fun f filled => (unused f filled).1, fun f filled => (unused f filled).2⟩,
        by simpa using changed⟩

/-- An addition is right exactly if its supplier is not blank, and only a variant has a fallback. -/
theorem checkAddition_eq_nil_iff {a : Addition} : checkAddition kind a = [] ↔
    (∀ f, a.supplier = some f → ∃ ch ∈ f.toList, Text.isBlank ch = false) ∧
      ∀ f, a.fallback = some f → f ≠ "" → kind = .enum := by
  simp only [checkAddition, List.append_eq_nil_iff, ite_eq_right_iff, reduceCtorEq, imp_false]
  refine and_congr ?_ ?_
  · cases a.supplier with
    | none => simp
    | some f =>
      rw [Option.any_some, Text.strip_isEmpty_iff]
      simp
  · simp only [Bool.and_eq_true, filled?_isSome_iff, bne_iff_ne, not_and, not_not]
    exact ⟨fun clean f given filled => clean ⟨f, given, filled⟩,
      fun clean ⟨f, given, filled⟩ => clean f given filled⟩

theorem checkArguments_eq_nil_iff : item.checkArguments kind = [] ↔
    (kind = .struct → ∃ type, item.type = some type ∧ type ≠ "") ∧
      (∀ c ∈ item.changes, checkChange c = []) ∧ ∀ a ∈ item.added, checkAddition kind a = [] := by
  simp only [checkArguments, List.append_eq_nil_iff, List.flatMap_eq_nil_iff, Option.mem_toList,
    ite_eq_right_iff, reduceCtorEq, imp_false, and_assoc]
  refine and_congr ?_ Iff.rfl
  rw [← filled?_isSome_iff]
  cases kind <;> simp [Option.isSome_iff_ne_none]

/-- The checks of an item find nothing exactly if it is well formed. -/
theorem problems_eq_nil_iff : item.problems (Ranks.ofDeclarations ds) kind = [] ↔
    item.WellFormed (ds.map (·.name)) kind := by
  simp only [problems, List.append_eq_nil_iff, checkVersions_eq_nil_iff, checkNames_eq_nil_iff,
    checkArguments_eq_nil_iff, checkChange_eq_nil_iff, checkAddition_eq_nil_iff]
  constructor
  · rintro ⟨⟨⟨⟨declared, combinations⟩, order⟩, marked, unmarked⟩, typed, changes, added⟩
    obtain ⟨addedFirst, deprecatedLast, ordered, apart⟩ :=
      (checkHistory_eq_nil_iff declared).mp ⟨combinations, order⟩
    exact {
      declared := declared
      added_first := addedFirst
      deprecated_last := deprecatedLast
      added_before_deprecated := ordered
      changes_apart := apart
      marked_iff := marked
      previous_unmarked := fun c changed name previous _ => unmarked c changed name previous
      typed := typed
      alters := fun c changed => (changes c changed).1
      functions_typed := fun c changed => (changes c changed).2
      supplier_named := fun a adds => (added a adds).1
      fallback_of_variant := fun a adds => (added a adds).2 }
  · intro well
    obtain ⟨combinations, order⟩ := (checkHistory_eq_nil_iff well.declared).mpr
      ⟨well.added_first, well.deprecated_last, well.added_before_deprecated, well.changes_apart⟩
    refine ⟨⟨⟨⟨well.declared, combinations⟩, order⟩, well.marked_iff, fun c changed name previous => ?_⟩,
      well.typed, fun c changed => ⟨well.alters c changed, well.functions_typed c changed⟩,
      fun a adds => ⟨well.supplier_named a adds, well.fallback_of_variant a adds⟩⟩
    by_cases empty : name = ""
    · subst empty
      cases kind <;> decide
    · exact well.previous_unmarked c changed name previous empty

/-- An item that is not well formed is named by each of its problems. -/
theorem named_of_not_wellFormed (ill : ¬ item.WellFormed (ds.map (·.name)) kind) :
    ∃ p ∈ item.check (Ranks.ofDeclarations ds) kind, ∃ rule, p = .item item.name rule := by
  rw [← problems_eq_nil_iff] at ill
  obtain ⟨rule, broken⟩ := List.exists_mem_of_ne_nil _ ill
  exact ⟨.item item.name rule, List.mem_map_of_mem broken, rule, rfl⟩

end Item

namespace Container

variable {unsorted : Bool} {c : Container}

/-- No problem is found exactly if a container is well formed. -/
theorem check_eq_nil_iff : c.check unsorted = [] ↔ c.WellFormed unsorted := by
  unfold check
  rw [List.append_eq_nil_iff, List.append_eq_nil_iff, List.flatMap_eq_nil_iff]
  simp only [Item.check, List.map_eq_nil_iff, Item.problems_eq_nil_iff]
  refine Iff.trans (and_congr_right' ?_)
    ⟨fun ⟨⟨versions, items⟩, stored⟩ => ⟨versions, items, stored⟩,
      fun well => ⟨⟨well.versions, well.items⟩, well.storage⟩⟩
  split
  · rename_i version given
    obtain ⟨r, served, stored⟩ := Option.bind_eq_some_iff.mp given
    obtain ⟨same, filled⟩ := filled?_eq_some.mp stored
    simp [served, same, filled, Ranks.has_iff]
  · rename_i missing
    refine iff_of_true rfl fun r served version same filled => ?_
    have none := Option.bind_eq_none_iff.mp missing r served
    rw [filled?_eq_some.mpr ⟨same, filled⟩] at none
    cases none

theorem named_of_not_wellFormed {item : Item} (member : item ∈ c.items)
    (ill : ¬ item.WellFormed (c.versions.map (·.name)) c.kind) :
    ∃ p ∈ c.check unsorted, p.item? = some item.name := by
  obtain ⟨_, found, rule, rfl⟩ := Item.named_of_not_wellFormed ill
  refine ⟨.item item.name rule, ?_, rfl⟩
  simp only [check, List.mem_append, List.mem_flatMap]
  exact Or.inl (Or.inr ⟨item, member, found⟩)

theorem validate_of_wellFormed {override : Option Bool}
    (well : c.WellFormed (override.getD c.options.allowUnsorted)) :
    c.validate override = .ok ⟨c, ⟨Timeline.releasesFrom 0 c.versions⟩⟩ := by
  simp only [validate, check_eq_nil_iff.mpr well, Timeline.ofDeclarations, well.versions]
  rfl

theorem validate_of_not_wellFormed {override : Option Bool}
    (ill : ¬ c.WellFormed (override.getD c.options.allowUnsorted)) :
    c.validate override = .error (.invalid c.name (c.check (override.getD c.options.allowUnsorted))) := by
  rw [← check_eq_nil_iff] at ill
  cases found : c.check (override.getD c.options.allowUnsorted) with
  | nil => exact absurd found ill
  | cons p rest => simp only [validate, found]

/-- A container is accepted exactly if it is well formed. Otherwise all its problems are reported
together, and every item that breaks a rule is named by one of them. -/
theorem validate_decides (override : Option Bool) (c : Container) :
    ((∃ v, c.validate override = .ok v) ↔ c.WellFormed (override.getD c.options.allowUnsorted)) ∧
      (¬ c.WellFormed (override.getD c.options.allowUnsorted) →
        ∃ problems, c.validate override = .error (.invalid c.name problems) ∧
          ∀ item ∈ c.items, ¬ item.WellFormed (c.versions.map (·.name)) c.kind →
            ∃ p ∈ problems, p.item? = some item.name) := by
  refine ⟨⟨fun ⟨v, valid⟩ => ?_, fun well => ⟨_, validate_of_wellFormed well⟩⟩, fun ill => ?_⟩
  · by_contra ill
    rw [validate_of_not_wellFormed ill] at valid
    cases valid
  · exact ⟨_, validate_of_not_wellFormed ill, fun item member => named_of_not_wellFormed member⟩

end Container

end Lineage
