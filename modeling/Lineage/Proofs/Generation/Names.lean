import Lineage.Proofs.Entries
import Lineage.Proofs.Generation

namespace Lineage

namespace Chain

/-- The name that an item has in a version, if it is present there. -/
def nameIn? (r : Release) (chain : Chain) : Option String :=
  (chain.statusAt r).toOption.bind fun s => s.member?.map (·.1)

/-- The row of an item in a table of statuses. -/
def Fills (chain : Chain) (row : String × Value) : Prop :=
  row.1 = chain.item.name ∧ ∃ history, chain.history = .ok history ∧
    row.2 = .object (history.map fun (r, s) => (r.name, s.toValue))

variable {kind : Kind} {t : Timeline} (sound : t.Sound)
include sound

theorem nameIn?_ofStatuses {item : Item} {r : Release} (member : r ∈ t.releases) :
    (ofStatuses kind t item).nameIn? r = (item.statusIn kind t r).member?.map (·.1) := by
  rw [nameIn?, statusAt_ofStatuses sound member]
  rfl

/-- The items that are present in a version have the names of the definition there. -/
theorem filterMap_nameIn? {c : Container} {r : Release} (member : r ∈ t.releases) :
    (c.items.map (ofStatuses c.kind t)).filterMap (nameIn? r) = (c.definitionIn t r).names := by
  rw [List.filterMap_map, Container.names_definitionIn]
  exact List.filterMap_congr fun item _ => nameIn?_ofStatuses sound member

theorem history_ofStatuses (item : Item) :
    (ofStatuses kind t item).history = .ok (t.releases.map fun r => (r, item.statusIn kind t r)) := by
  have each : ∀ r ∈ t.releases, (do return (r, ← (ofStatuses kind t item).statusAt r)) =
      (.ok (r, item.statusIn kind t r) : Except Fault (Release × Status)) := by
    intro r member
    rw [statusAt_ofStatuses sound member]
    rfl
  exact mapM_eq_ok_map each

end Chain

/-- A name is shared by two items or more exactly if it stands twice among the names that there are. -/
theorem Chain.duplicate_filterMap_iff {chains : List Chain} {r : Release} {name : String} :
    List.Duplicate name (chains.filterMap (nameIn? r)) ↔
      2 ≤ chains.countP fun chain => chain.nameIn? r == some name := by
  rw [List.duplicate_iff_two_le_count, List.count_filterMap]

/-- What comes of the assembly of a definition: it fails exactly if two items that are present share a
name, and then reports in ascending order the names that two items or more have. -/
structure Definition.Distinguishes (v : Validated) (chains : List Chain) (r : Release) : Prop where
  succeeds : (∃ d, assemble v chains r = .ok d) ↔ (chains.filterMap (Chain.nameIn? r)).Nodup
  reports : ∀ failure, assemble v chains r = .error failure →
    ∃ names, failure = .collision v.container.name r.name names ∧
      (names.Pairwise fun s t => Text.before s t = true) ∧
      ∀ name, name ∈ names ↔ 2 ≤ chains.countP fun chain => chain.nameIn? r == some name

/-- Items are identified by their names: these differ, the table of statuses has exactly one row for
each, and in every version the member under an item's name is that of the item, or there is none
exactly if the item is absent. -/
structure Generation.Identifies (g : Generation) (items : List Item) : Prop where
  chained : g.chains.map (·.item) = items
  distinct : (items.map (·.name)).Nodup
  rows : ∃ rows : List (String × Value), g.chainTable = .ok (.object rows) ∧
    List.Forall₂ Chain.Fills g.chains rows
  members : ∀ r ∈ g.timeline.releases, ∃ d, g.definition r.name = .ok d ∧ d.release = r ∧
    ∀ chain ∈ g.chains, ∃ s, chain.statusAt r = .ok s ∧
      d.memberOfItem? chain.item.name = Member.ofStatus? chain.item s ∧
      (d.memberOfItem? chain.item.name = none ↔ s = .absent)

/-- A version is assembled exactly if no name is shared in it, and else those are reported that are. -/
theorem Definition.distinguishes {c : Container} {t : Timeline} (sound : t.Sound) {r : Release}
    (member : r ∈ t.releases) : Distinguishes ⟨c, t⟩ (c.items.map (Chain.ofStatuses c.kind t)) r where
  succeeds := by
    rw [assemble_eq sound member, Chain.filterMap_nameIn? sound member]
    by_cases distinct : (c.definitionIn t r).names.Nodup
    · simp [distinct]
    · simp [distinct]
  reports failure fails := by
    rw [assemble_eq sound member] at fails
    split at fails
    · cases fails
    cases fails
    refine ⟨_, rfl, repeated_ascending, fun name => ?_⟩
    rw [mem_repeated, ← Chain.filterMap_nameIn? sound member, Chain.duplicate_filterMap_iff]

theorem Member.ofStatus?_eq_none_iff {item : Item} {s : Status} :
    ofStatus? item s = none ↔ s = .absent := by
  rw [ofStatus?, Option.map_eq_none_iff]
  cases s <;> simp [Status.member?]

/-- The row of an item, read off its history. -/
def Item.rowIn (kind : Kind) (t : Timeline) (item : Item) : String × Value :=
  (item.name, .object (t.releases.map fun r => (r.name, (item.statusIn kind t r).toValue)))

namespace Generation.Made

variable {c : Container} {g : Generation} (made : Made c g)
include made

/-- No row replaces another one, because the names of the items differ, and so do those of the versions. -/
theorem chainTable_eq : g.chainTable = .ok (.object (c.items.map (Item.rowIn c.kind g.timeline))) := by
  have each : ∀ item ∈ c.items, (do
      let history ← liftM ((Chain.ofStatuses c.kind g.timeline item).history)
      let cells := history.map fun (r, s) => (r.name, s.toValue)
      return (item.name, Value.object (Entries.ofList cells))) =
      (.ok (item.rowIn c.kind g.timeline) : Except Failure (String × Value)) := by
    intro item _
    have distinct : ((g.timeline.releases.map fun r =>
        (r.name, (item.statusIn c.kind g.timeline r).toValue)).map (·.1)).Nodup := by
      rw [List.map_map]
      exact made.sound.distinct
    rw [Item.rowIn, ← Entries.ofList_of_nodup distinct, Chain.history_ofStatuses made.sound]
    simp only [liftM, monadLift, MonadLift.monadLift, bind, Except.bind, List.map_map]
    rfl
  have distinct : ((c.items.map (Item.rowIn c.kind g.timeline)).map (·.1)).Nodup := by
    rw [List.map_map]
    exact made.item_names_nodup
  have rows : (g.chains.mapM fun chain => do
      let history ← liftM chain.history
      let cells := history.map fun (r, s) => (r.name, s.toValue)
      return (chain.item.name, Value.object (Entries.ofList cells))) =
      (.ok (c.items.map (Item.rowIn c.kind g.timeline)) : Except Failure (List (String × Value))) := by
    rw [made.chains, List.mapM_map]
    exact mapM_eq_ok_map each
  unfold chainTable
  rw [rows]
  exact congrArg (fun entries => Except.ok (Value.object entries)) (Entries.ofList_of_nodup distinct)

theorem fills_ofStatuses (item : Item) :
    (Chain.ofStatuses c.kind g.timeline item).Fills (item.rowIn c.kind g.timeline) := by
  refine ⟨rfl, _, Chain.history_ofStatuses made.sound item, ?_⟩
  rw [List.map_map]
  rfl

/-- In a generation every item is found by its name and has one row in the table of chains. -/
theorem identifies : g.Identifies c.items where
  chained := by
    rw [made.chains, List.map_map]
    exact List.map_id _
  distinct := made.item_names_nodup
  rows := by
    refine ⟨_, made.chainTable_eq, ?_⟩
    rw [made.chains, List.forall₂_map_left_iff, List.forall₂_map_right_iff, List.forall₂_same]
    exact fun item _ => made.fills_ofStatuses item
  members := by
    intro r member
    refine ⟨_, made.definition_name member, rfl, ?_⟩
    intro chain among
    rw [made.chains] at among
    obtain ⟨item, listed, rfl⟩ := List.mem_map.mp among
    have own := made.memberOfItem?_eq listed r
    refine ⟨_, Chain.statusAt_ofStatuses made.sound member, own, ?_⟩
    exact own ▸ Member.ofStatus?_eq_none_iff

end Generation.Made

/-- The identifiers of a validated container are unique. Its definition in a version is assembled
exactly if the names of the items that are present there differ, and in all that is generated from it
items are identified by their names. -/
theorem Container.identifiers_distinct {unsorted : Option Bool} {c : Container} {v : Validated}
    (valid : c.validate unsorted = .ok v) :
    ∃ chains, Chain.ofContainer v = .ok chains ∧
      (∀ r ∈ v.timeline.releases, Definition.Distinguishes v chains r) ∧
      ∀ g, Generation.ofValidated v = .ok g → g.chains = chains ∧ g.Identifies c.items := by
  have chained := Chain.ofContainer_eq valid
  obtain ⟨same, sound, _, _⟩ := validate_legal valid
  refine ⟨_, chained, ?_, ?_⟩
  · intro r member
    obtain ⟨_, t⟩ := v
    cases same
    exact Definition.distinguishes sound member
  · intro g generation
    have made := Generation.made_of_validate valid generation
    cases Generation.validated_of_ofValidated generation
    exact ⟨made.chains, made.identifies⟩

/-- A container with an item that takes over the name that another one had before. -/
def contact : Container where
  name := "Contact"
  kind := .struct
  doc := none
  versions := ["v1", "v2", "v3"].map Declaration.named
  items := [⟨"mail", some "str", none, none, false, none, [⟨"v2", some "email", none, none, none⟩], none⟩,
    ⟨"email", some "bool", none, none, false, some ⟨"v3", none, none, none⟩, [], none⟩]
  options := ⟨true, false⟩
  resource := none

/-- The names of the members of an item in all versions. -/
def Generation.namesOf (g : Generation) (item : String) : List (Option String) :=
  g.definitions.map fun d => (d.memberOfItem? item).map (·.name)

/-- The names of a contact are distinct in every version, and one is used by two items in turn. -/
theorem Container.identifiers_distinct_contact :
    ∃ v g, contact.validate none = .ok v ∧ Generation.ofValidated v = .ok g ∧
      (∀ r ∈ v.timeline.releases, Definition.Distinguishes v g.chains r) ∧ g.Identifies contact.items ∧
      g.namesOf "mail" = [some "email", some "mail", some "mail"] ∧
      g.namesOf "email" = [none, none, some "email"] := by
  have facts : ((contact.validate none).toOption.bind fun v => (Generation.ofValidated v).toOption.map
      fun g => (g.namesOf "mail", g.namesOf "email")) =
      some ([some "email", some "mail", some "mail"], [none, none, some "email"]) := by
    decide +kernel
  obtain ⟨v, validated, generated⟩ := Option.bind_eq_some_iff.mp facts
  obtain ⟨g, generation, names⟩ := exists_of_toOption_map generated
  have valid := ok_of_toOption validated
  obtain ⟨chains, _, distinguishes, all⟩ := identifiers_distinct valid
  obtain ⟨rfl, identifies⟩ := all g generation
  obtain ⟨mail, email⟩ := Prod.mk.inj names
  exact ⟨v, g, valid, generation, distinguishes, identifies, mail, email⟩

/-- Two items that have the same name before one of them is renamed. -/
example :
    let renamed : Change := ⟨"v2", some "email", none, none, none⟩
    let clashing : Container := { contact with
      items := [⟨"mail", some "str", none, none, false, none, [renamed], none⟩,
        ⟨"email", some "bool", none, none, false, none, [], none⟩] }
    (Generation.ofContainer clashing).map (·.name) = .error (.collision "Contact" "v1" ["email"]) := by
  decide +kernel

end Lineage
