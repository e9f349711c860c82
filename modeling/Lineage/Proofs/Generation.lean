import Lineage.Generation
import Lineage.Proofs.Chain
import Lineage.Proofs.Generation.Steps

namespace Lineage

/-- A container as it is in a version, read off the histories of its items. -/
def Container.definitionIn (c : Container) (t : Timeline) (r : Release) : Definition where
  container := c.name
  kind := c.kind
  release := r
  members := c.items.filterMap fun item => Member.ofStatus? item (item.statusIn c.kind t r)
  doc := c.doc

theorem Container.members_definitionIn (c : Container) (t : Timeline) (r : Release) :
    (c.definitionIn t r).members =
      c.items.filterMap fun item => Member.ofStatus? item (item.statusIn c.kind t r) := rfl

/-- The names of a definition are those of the items that are present. -/
theorem Container.names_definitionIn (c : Container) (t : Timeline) (r : Release) :
    (c.definitionIn t r).names = c.items.filterMap fun item =>
      (item.statusIn c.kind t r).member?.map (·.1) := by
  rw [Definition.names, members_definitionIn, List.map_filterMap]
  refine List.filterMap_congr fun item _ => ?_
  rw [Member.ofStatus?, Option.map_map]
  rfl

theorem Container.mem_names_definitionIn {c : Container} {t : Timeline} {r : Release} {name : String} :
    name ∈ (c.definitionIn t r).names ↔
      ∃ item ∈ c.items, ∃ m, (item.statusIn c.kind t r).member? = some m ∧ m.1 = name := by
  rw [names_definitionIn, List.mem_filterMap]
  simp only [Option.map_eq_some_iff]

/-- Whether a version is converted to the next one and back: neither it nor the container skips that. -/
def Container.Converts (c : Container) (r : Release) : Prop :=
  c.options.skipFrom = false ∧ r.skipFrom = false

theorem Container.not_skipped_iff {c : Container} {r : Release} :
    (!(c.options.skipFrom || r.skipFrom)) = true ↔ c.Converts r := by
  rw [Bool.not_eq_true', Bool.or_eq_false_iff, Converts]

/-- The edges between two versions of a container that follow each other, by the kind of the
container and the direction. -/
inductive Edge.Made (c : Container) (t : Timeline) (older newer : Release) : Edge → Prop
  | structUpgrade (kind : c.kind = .struct) : Made c t older newer ⟨c.name, older, newer, .upgrade,
      .fields (c.items.filterMap fun item =>
        FieldStep.upgrade? item (item.statusIn c.kind t older) (item.statusIn c.kind t newer)) []⟩
  | structDowngrade (kind : c.kind = .struct) : Made c t older newer ⟨c.name, newer, older, .downgrade,
      .fields (c.items.filterMap fun item =>
        FieldStep.downgrade? item (item.statusIn c.kind t older) (item.statusIn c.kind t newer))
        (c.items.filterMap fun item =>
          Dropped.ofStatuses? item (item.statusIn c.kind t older) (item.statusIn c.kind t newer))⟩
  | enumUpgrade (kind : c.kind = .enum) : Made c t older newer ⟨c.name, older, newer, .upgrade,
      .variants (c.items.filterMap fun item =>
        VariantStep.upgrade? item (item.statusIn c.kind t older) (item.statusIn c.kind t newer))⟩
  | enumDowngrade (kind : c.kind = .enum) (steps : List (Option VariantStep))
      (each : List.Forall₂ (fun item step =>
        VariantStep.downgrade c.name item (item.statusIn c.kind t older) (item.statusIn c.kind t newer)
          older newer (some (c.definitionIn t older)) = .ok step) c.items steps) :
      Made c t older newer ⟨c.name, newer, older, .downgrade, .variants (steps.filterMap id)⟩

/-- What holds of all that is generated from a container. -/
structure Generation.Made (c : Container) (g : Generation) : Prop where
  container : g.validated.container = c
  sound : g.timeline.Sound
  nonempty : g.timeline.releases ≠ []
  legal : ∀ item ∈ c.items, item.Legal g.timeline
  chains : g.chains = c.items.map (Chain.ofStatuses c.kind g.timeline)
  definitions : g.definitions = g.timeline.releases.map (c.definitionIn g.timeline)
  distinct : ∀ r ∈ g.timeline.releases, (c.definitionIn g.timeline r).names.Nodup
  edges : Edge.generateAll g.validated g.chains (some g.definitions) = .ok g.edges

/-- Steps that do not fail between the statuses of any item are made for all items. -/
theorem Steps.mapM_fitting {β : Type} {items : List Item} {older newer : Item → Status}
    {f : Item → Status → Status → Except Fault β} {g : Item → Status → Status → β}
    (each : ∀ item ∈ items, f item (older item) (newer item) = .ok (g item (older item) (newer item))) :
    (items.map fun item => (item, older item, newer item)).mapM (m := Except Failure)
        (fun x => f x.1 x.2.1 x.2.2) =
      .ok (items.map fun item => g item (older item) (newer item)) := by
  rw [List.mapM_map]
  refine mapM_eq_ok_map fun item listed => ?_
  simp only [Function.comp_apply, each item listed]
  rfl

section Statuses

variable {c : Container} {t : Timeline} (sound : t.Sound)
include sound

theorem Steps.statuses_ofStatuses {older newer : Release} (atOlder : older ∈ t.releases)
    (atNewer : newer ∈ t.releases) :
    Steps.statuses (c.items.map (Chain.ofStatuses c.kind t)) older newer = .ok (c.items.map fun item =>
      (item, item.statusIn c.kind t older, item.statusIn c.kind t newer)) := by
  rw [Steps.statuses, List.mapM_map]
  refine mapM_eq_ok_map fun item _ => ?_
  simp only [Function.comp_apply, Chain.statusAt_ofStatuses sound atOlder,
    Chain.statusAt_ofStatuses sound atNewer]
  rfl

/-- The steps between two versions that follow each other, where the histories of all items are legal. Only
those of an enum to the older version can fail. -/
theorem Steps.generate_eq (legal : ∀ item ∈ c.items, item.Legal t) {older newer : Release}
    (atOlder : older ∈ t.releases) (atNewer : newer ∈ t.releases) (next : newer.rank = older.rank + 1)
    (direction : Direction) (definitions : Option (List Definition)) :
    generate ⟨c, t⟩ (c.items.map (Chain.ofStatuses c.kind t)) older newer direction definitions =
      match c.kind, direction with
      | .struct, .upgrade => .ok (.fields (c.items.filterMap fun item =>
          FieldStep.upgrade? item (item.statusIn c.kind t older) (item.statusIn c.kind t newer)) [])
      | .struct, .downgrade => .ok (.fields (c.items.filterMap fun item =>
          FieldStep.downgrade? item (item.statusIn c.kind t older) (item.statusIn c.kind t newer))
          (c.items.filterMap fun item =>
            Dropped.ofStatuses? item (item.statusIn c.kind t older) (item.statusIn c.kind t newer)))
      | .enum, .upgrade => .ok (.variants (c.items.filterMap fun item =>
          VariantStep.upgrade? item (item.statusIn c.kind t older) (item.statusIn c.kind t newer)))
      | .enum, .downgrade => do
        let steps ← c.items.mapM fun item => VariantStep.downgrade c.name item
          (item.statusIn c.kind t older) (item.statusIn c.kind t newer) older newer
          ((definitions.getD []).find? fun d => d.release.name == older.name)
        return .variants (steps.filterMap id) := by
  have follows := fun item (listed : item ∈ c.items) =>
    @Item.statusIn_follows c.kind t item sound (legal item listed) older newer atOlder atNewer next
  have proper := fun item => Item.isProper_statusIn c.kind t item newer
  have up := Steps.mapM_fitting fun item listed => FieldStep.upgrade_eq item (follows item listed) (proper item)
  have down := Steps.mapM_fitting fun item listed =>
    FieldStep.downgrade_eq item (follows item listed) (proper item)
  have variants := Steps.mapM_fitting fun item listed => VariantStep.upgrade_eq item (follows item listed)
  simp only [generate, Steps.statuses_ofStatuses sound atOlder atNewer, bind, Except.bind, up, down, variants,
    List.filterMap_map, List.mapM_map]
  cases c.kind <;> cases direction <;> rfl

theorem Container.find?_definitionIn {r : Release} (member : r ∈ t.releases) :
    (t.releases.map (c.definitionIn t)).find? (fun d => d.release.name == r.name) =
      some (c.definitionIn t r) := by
  have found : t.releases.find? (fun s => s.name == r.name) = some r := sound.find?_iff.mpr ⟨member, rfl⟩
  rw [List.find?_map]
  exact congrArg (Option.map _) found

/-- The definition in a version is made up of the statuses there, unless names are repeated. -/
theorem Definition.assemble_eq {r : Release} (member : r ∈ t.releases) :
    assemble ⟨c, t⟩ (c.items.map (Chain.ofStatuses c.kind t)) r =
      if (c.definitionIn t r).names.Nodup then .ok (c.definitionIn t r)
      else .error (.collision c.name r.name (repeated (c.definitionIn t r).names)) := by
  have members : (c.items.map (Chain.ofStatuses c.kind t)).mapM
      (fun chain => do return Member.ofStatus? chain.item (← chain.statusAt r)) =
      (.ok (c.items.map fun item => Member.ofStatus? item (item.statusIn c.kind t r)) :
        Except Failure (List (Option Member))) := by
    rw [List.mapM_map]
    refine mapM_eq_ok_map fun item _ => ?_
    simp only [Function.comp_apply, Chain.statusAt_ofStatuses sound member]
    rfl
  have names : ((c.items.map fun item => Member.ofStatus? item (item.statusIn c.kind t r)).filterMap id).map
      (·.name) = (c.definitionIn t r).names := by
    rw [List.filterMap_map]
    rfl
  unfold assemble
  rw [members]
  simp only [bind, Except.bind, pure, Except.pure, names]
  split
  · rename_i single
    rw [if_pos (repeated_eq_nil_iff.mp single), Container.definitionIn, List.filterMap_map]
    rfl
  · rename_i several
    rw [if_neg fun distinct => several (repeated_eq_nil_iff.mpr distinct)]

end Statuses

namespace Generation

/-- What is generated from a validated container is made of the histories of its items. -/
theorem made_of_validate {unsorted : Option Bool} {c : Container} {v : Validated} {g : Generation}
    (valid : c.validate unsorted = .ok v) (generation : ofValidated v = .ok g) : Made c g := by
  obtain ⟨c, t⟩ := v
  obtain ⟨rfl, sound, nonempty, legal⟩ := Container.validate_legal valid
  obtain ⟨chains, chained, generation⟩ := exists_of_bind generation
  cases (Chain.ofContainer_eq valid).symm.trans chained
  obtain ⟨definitions, assembled, generation⟩ := exists_of_bind generation
  obtain ⟨edges, generated, generation⟩ := exists_of_bind generation
  cases generation
  have single : ∀ r ∈ t.releases, ∀ d,
      Definition.assemble ⟨c, t⟩ (c.items.map (Chain.ofStatuses c.kind t)) r = .ok d →
        d = c.definitionIn t r ∧ (c.definitionIn t r).names.Nodup := by
    intro r member d made
    rw [Definition.assemble_eq sound member] at made
    split at made
    · cases made
      exact ⟨rfl, by assumption⟩
    · cases made
  obtain ⟨made, all⟩ := eq_map_of_mapM (g := c.definitionIn t) assembled
    fun r member d made => (single r member d made).1
  exact ⟨rfl, sound, nonempty, legal, rfl, made,
    fun r member => (single r member _ (all r member)).2, generated⟩

theorem made_of_ofContainer {c : Container} {g : Generation} (run : ofContainer c = .ok g) :
    Made c g := by
  obtain ⟨v, valid, generation⟩ := exists_of_bind run
  exact made_of_validate valid generation

theorem validated_of_ofValidated {v : Validated} {g : Generation} (generation : ofValidated v = .ok g) :
    g.validated = v := by
  obtain ⟨chains, _, generation⟩ := exists_of_bind generation
  obtain ⟨definitions, _, generation⟩ := exists_of_bind generation
  obtain ⟨edges, _, generation⟩ := exists_of_bind generation
  cases generation
  rfl

theorem validate_of_ofContainer {c : Container} {g : Generation} (run : ofContainer c = .ok g) :
    c.validate none = .ok g.validated := by
  obtain ⟨v, valid, generation⟩ := exists_of_bind run
  rw [validated_of_ofValidated generation]
  exact valid

theorem names_of_ofContainer {c : Container} {g : Generation} (run : ofContainer c = .ok g) :
    g.timeline.names = c.versions.map (·.name) :=
  Container.names_of_validate (validate_of_ofContainer run)

/-- The versions of all that is generated can be read. -/
theorem parsed_of_ofContainer {c : Container} {g : Generation} (run : ofContainer c = .ok g)
    {name : String} (declared : name ∈ g.timeline.names) :
    ∃ version, Version.parse (some name) = .ok version :=
  Container.parsed_of_validate (validate_of_ofContainer run) declared

namespace Made

variable {c : Container} {g : Generation} (made : Made c g)
include made

/-- No two items of a container share a name, because the last version has all of them. -/
theorem item_names_nodup : (c.items.map (·.name)).Nodup := by
  have positive := List.length_pos_iff.mpr made.nonempty
  obtain ⟨r, member, rank⟩ := made.sound.exists_rank (show g.timeline.releases.length - 1 < _ by omega)
  have names : (c.definitionIn g.timeline r).names = c.items.map (·.name) := by
    rw [Definition.names, Container.definitionIn, List.map_filterMap, ← List.filterMap_eq_map]
    refine List.filterMap_congr fun item listed => ?_
    have present : item.isBeforeAddition g.timeline r = false := by
      rw [← Bool.not_eq_true, Item.isBeforeAddition_iff]
      rintro ⟨a, own, below⟩
      have bound := made.sound.rankOf_lt ((made.legal item listed).added_declared own)
      omega
    have declared : item.memberIn c.kind g.timeline r = (item.name, item.type) := by
      rw [Item.memberIn, Item.undoneFrom, List.drop_of_length_le (by omega), List.foldr_nil]
    simp [Member.ofStatus?, Item.member?_statusIn, present, declared]
  rw [← names]
  exact made.distinct r member

/-- The member of an item in a version is the one that its status there makes up. -/
theorem memberOfItem?_eq {item : Item} (listed : item ∈ c.items) (r : Release) :
    (c.definitionIn g.timeline r).memberOfItem? item.name =
      Member.ofStatus? item (item.statusIn c.kind g.timeline r) := by
  have named : ∀ i m, Member.ofStatus? i (i.statusIn c.kind g.timeline r) = some m → m.item = i.name := by
    intro i m own
    obtain ⟨_, _, rfl⟩ := Option.map_eq_some_iff.mp own
    rfl
  refine find?_filterMap listed (fun m own => beq_iff_eq.mpr (named item m own)) ?_
  intro i member m own same
  rw [beq_iff_eq, named i m own] at same
  exact List.inj_on_of_nodup_map made.item_names_nodup member listed same

theorem definition_eq {r : Release} (member : r ∈ g.timeline.releases) :
    g.definitions.find? (fun d => d.release.name == r.name) = some (c.definitionIn g.timeline r) := by
  rw [made.definitions]
  exact Container.find?_definitionIn made.sound member

theorem definition_name {r : Release} (member : r ∈ g.timeline.releases) :
    g.definition r.name = .ok (c.definitionIn g.timeline r) := by
  rw [definition, made.sound.get_name member]
  simp only [bind, Except.bind, made.definition_eq member]
  rfl

theorem definition_of_name {name : String} {d : Definition} (found : g.definition name = .ok d) :
    ∃ r ∈ g.timeline.releases, g.timeline.get name = .ok r ∧ d = c.definitionIn g.timeline r := by
  obtain ⟨r, declared, found⟩ := exists_of_bind found
  have member := (made.sound.find?_iff.mp (Timeline.get_eq_ok_iff.mp declared)).1
  simp only [made.definition_eq member] at found
  cases found
  exact ⟨r, member, declared, rfl⟩

/-- An edge that is generated between two versions is one of the four that there can be. -/
theorem edge_made {older newer : Release} {direction : Direction} {e : Edge}
    (adjacent : (older, newer) ∈ g.timeline.adjacentPairs)
    (run : Edge.generate g.validated g.chains older newer direction (some g.definitions) = .ok e) :
    Edge.Made c g.timeline older newer e ∧ e.direction = direction := by
  obtain ⟨atOlder, atNewer, next⟩ := made.sound.mem_adjacentPairs.mp adjacent
  unfold Edge.generate at run
  split at run
  · cases run
  obtain ⟨steps, generated, run⟩ := exists_of_bind run
  have validated : g.validated = ⟨c, g.timeline⟩ := made.container ▸ rfl
  rw [validated, made.chains, Steps.generate_eq made.sound made.legal atOlder atNewer next] at generated
  have name : g.validated.container.name = c.name := by rw [made.container]
  cases kind : c.kind with
  | struct =>
    cases direction with
    | upgrade =>
      simp only [kind] at generated
      cases generated
      cases run
      rw [name, ← kind]
      exact ⟨.structUpgrade kind, rfl⟩
    | downgrade =>
      simp only [kind] at generated
      cases generated
      cases run
      rw [name, ← kind]
      exact ⟨.structDowngrade kind, rfl⟩
  | enum =>
    cases direction with
    | upgrade =>
      simp only [kind] at generated
      cases generated
      cases run
      rw [name, ← kind]
      exact ⟨.enumUpgrade kind, rfl⟩
    | downgrade =>
      simp only [kind, Option.getD_some, made.definition_eq atOlder] at generated
      obtain ⟨results, each, generated⟩ := exists_of_bind generated
      cases generated
      cases run
      rw [name]
      rw [← kind] at each
      exact ⟨.enumDowngrade kind results (forall₂_of_mapM each), rfl⟩

/-- There are edges only between versions that follow each other and are converted. -/
theorem converted_of_mem {e : Edge} (member : e ∈ g.edges) :
    ∃ older newer, (older, newer) ∈ g.timeline.adjacentPairs ∧ c.Converts older ∧
      Edge.Made c g.timeline older newer e := by
  obtain ⟨lists, each, run⟩ := exists_of_bind made.edges
  rw [← Except.ok.inj run] at member
  obtain ⟨edges, listed, own⟩ := List.mem_flatten.mp member
  obtain ⟨⟨older, newer⟩, among, both⟩ := exists_of_mem_mapM each listed
  obtain ⟨adjacent, kept⟩ := List.mem_filter.mp among
  rw [made.container, Container.not_skipped_iff] at kept
  refine ⟨older, newer, adjacent, kept, ?_⟩
  obtain ⟨up, upgrade, both⟩ := exists_of_bind both
  obtain ⟨down, downgrade, both⟩ := exists_of_bind both
  cases both
  rcases List.mem_cons.mp own with rfl | own
  · exact (made.edge_made adjacent upgrade).1
  rcases List.mem_singleton.mp own with rfl
  exact (made.edge_made adjacent downgrade).1

theorem edge_of_mem {e : Edge} (member : e ∈ g.edges) :
    ∃ older newer, (older, newer) ∈ g.timeline.adjacentPairs ∧ Edge.Made c g.timeline older newer e := by
  obtain ⟨older, newer, adjacent, _, own⟩ := made.converted_of_mem member
  exact ⟨older, newer, adjacent, own⟩

/-- There are edges in both directions between all versions that follow each other and are converted. -/
theorem exists_edge {older newer : Release} (adjacent : (older, newer) ∈ g.timeline.adjacentPairs)
    (converts : c.Converts older) (direction : Direction) :
    ∃ e ∈ g.edges, Edge.Made c g.timeline older newer e ∧ e.direction = direction := by
  obtain ⟨lists, each, run⟩ := exists_of_bind made.edges
  have kept := Container.not_skipped_iff.mpr converts
  rw [← made.container] at kept
  obtain ⟨edges, listed, both⟩ := exists_mem_of_mapM each (List.mem_filter.mpr ⟨adjacent, kept⟩)
  obtain ⟨up, upgrade, both⟩ := exists_of_bind both
  obtain ⟨down, downgrade, both⟩ := exists_of_bind both
  cases both
  rw [← Except.ok.inj run]
  cases direction with
  | upgrade => exact ⟨up, List.mem_flatten.mpr ⟨_, listed, by simp⟩, made.edge_made adjacent upgrade⟩
  | downgrade =>
    exact ⟨down, List.mem_flatten.mpr ⟨_, listed, by simp⟩, made.edge_made adjacent downgrade⟩

end Made

end Generation

end Lineage
