import Lineage.Proofs.Generation

namespace Lineage

namespace FieldStep

/-- The name of the item of a step. -/
def item : FieldStep → String
  | copy item _ _ | default item _ _ _ _ | apply item _ _ _ | nested item _ _ _ _ _ => item

/-- The field of the source version that a step reads; a default reads none. -/
def source? : FieldStep → Option String
  | copy _ source _ | apply _ source _ _ | nested _ source _ _ _ _ => some source
  | default _ _ _ _ _ => none

/-- Whether a step gives a field of the newer version its value: it reads the field of the same item
in the older version, or it is a default if the item was added. -/
def Fills (older : Definition) (m : Member) (step : FieldStep) : Prop :=
  step.item = m.item ∧ step.target = m.name ∧
    match older.memberOfItem? m.item with
    | some before => step.source? = some before.name
    | none => step.source? = none ∧ m.status = "added"

/-- Whether a step gives a field of the older version the value that its item has in the newer. -/
def Returns (newer : Definition) (m : Member) (step : FieldStep) : Prop :=
  step.item = m.item ∧ step.target = m.name ∧
    ∃ after, newer.memberOfItem? m.item = some after ∧ step.source? = some after.name

end FieldStep

namespace VariantStep

/-- The name of the item of a step. -/
def item : VariantStep → String
  | keep item _ _ _ _ _ _ | fallback item _ _ => item

/-- Whether a step carries a variant over to another item. -/
def isFallback : VariantStep → Bool
  | keep _ _ _ _ _ _ _ => false
  | fallback _ _ _ => true

/-- Whether a step leads from a variant of the older version to that of its item in the newer. -/
def Keeps (newer : Definition) (m : Member) (step : VariantStep) : Prop :=
  step.item = m.item ∧ step.source = m.name ∧ step.isFallback = false ∧
    ∃ after, newer.memberOfItem? m.item = some after ∧ step.target = after.name

/-- Whether a step leads from a variant of the newer version back to that of its item in the older,
or if there is none to another variant of the older version. -/
def Returns (older : Definition) (m : Member) (step : VariantStep) : Prop :=
  step.item = m.item ∧ step.source = m.name ∧
    match older.memberOfItem? m.item with
    | some before => step.isFallback = false ∧ step.target = before.name
    | none => step.isFallback = true ∧ step.target ∈ older.names

end VariantStep

/-- Whether an edge has the steps that two definitions call for, in their order and without any
other. -/
inductive Edge.Matches (older newer : Definition) : Edge → Prop
  | structUpgrade (container : String) (steps : List FieldStep)
      (each : List.Forall₂ (FieldStep.Fills older) newer.members steps) :
      Matches older newer ⟨container, older.release, newer.release, .upgrade, .fields steps []⟩
  | structDowngrade (container : String) (steps : List FieldStep)
      (each : List.Forall₂ (FieldStep.Returns newer) older.members steps) :
      Matches older newer ⟨container, newer.release, older.release, .downgrade,
        .fields steps ((newer.members.filter fun m => (older.memberOfItem? m.item).isNone).map
          fun m => ⟨m.item, m.name⟩)⟩
  | enumUpgrade (container : String) (steps : List VariantStep)
      (each : List.Forall₂ (VariantStep.Keeps newer) older.members steps) :
      Matches older newer ⟨container, older.release, newer.release, .upgrade, .variants steps⟩
  | enumDowngrade (container : String) (steps : List VariantStep)
      (each : List.Forall₂ (VariantStep.Returns older) newer.members steps) :
      Matches older newer ⟨container, newer.release, older.release, .downgrade, .variants steps⟩

/-- Partial maps whose results go together yield lists whose elements go together. -/
theorem forall₂_filterMap {α β γ : Type} {R : β → γ → Prop} {f : α → Option β} {g : α → Option γ}
    {xs : List α} (each : ∀ x ∈ xs, Option.Rel R (f x) (g x)) :
    List.Forall₂ R (xs.filterMap f) (xs.filterMap g) := by
  refine List.rel_filterMap (R := fun x y => x = y ∧ x ∈ xs) ?_
    (List.forall₂_same.mpr fun x member => ⟨rfl, member⟩)
  rintro x _ ⟨rfl, member⟩
  exact each x member

section Carrying

variable (item : Item) (source target : String) (fromType toType : Option String)

theorem FieldStep.carry_reads : (carry item source target fromType toType).item = item.name ∧
    (carry item source target fromType toType).source? = some source ∧
    (carry item source target fromType toType).target = target := by
  unfold carry
  split <;> exact ⟨rfl, rfl, rfl⟩

theorem FieldStep.convert_reads (function : Option String) :
    (convert item function source target fromType toType).item = item.name ∧
      (convert item function source target fromType toType).source? = some source ∧
      (convert item function source target fromType toType).target = target := by
  unfold convert
  split <;> exact ⟨rfl, rfl, rfl⟩

theorem VariantStep.carry_leads : (carry item source target fromType toType).item = item.name ∧
    (carry item source target fromType toType).source = source ∧
    (carry item source target fromType toType).target = target ∧
    (carry item source target fromType toType).isFallback = false := by
  unfold carry
  split <;> exact ⟨rfl, rfl, rfl, rfl⟩

end Carrying

section Steps

variable (item : Item) {old new : Status} {source target : String × Option String}
  (before : old.member? = some source) (after : new.member? = some target)
include before after

/-- A field that is in both versions has a step up, from its older to its newer name. -/
theorem FieldStep.upgrade?_of_carried (told : new.predecessor? = some source) :
    ∃ step, upgrade? item old new = some step ∧ step.item = item.name ∧
      step.source? = some source.1 ∧ step.target = target.1 := by
  cases new with
  | added | absent => cases told
  | changed fromName fromType toName toType upgradeWith downgradeWith =>
    cases after
    simp only [upgrade?, before]
    exact ⟨_, rfl, convert_reads item _ _ _ _ upgradeWith⟩
  | renamed | deprecated | unchanged =>
    cases after
    simp only [upgrade?, before]
    exact ⟨_, rfl, carry_reads item _ _ _ _⟩

/-- A field that is in both versions has a step down, from its newer to its older name. -/
theorem FieldStep.downgrade?_of_present :
    ∃ step, downgrade? item old new = some step ∧ step.item = item.name ∧
      step.source? = some target.1 ∧ step.target = source.1 := by
  cases new with
  | absent => cases after
  | changed fromName fromType toName toType upgradeWith downgradeWith =>
    cases after
    simp only [downgrade?, before]
    exact ⟨_, rfl, convert_reads item _ _ _ _ downgradeWith⟩
  | added | renamed | deprecated | unchanged =>
    cases after
    simp only [downgrade?, before]
    exact ⟨_, rfl, carry_reads item _ _ _ _⟩

/-- A variant that is in both versions has a step up that is no fallback. -/
theorem VariantStep.upgrade?_of_carried (told : new.predecessor? = some source) :
    ∃ step, upgrade? item old new = some step ∧ step.item = item.name ∧
      step.source = source.1 ∧ step.target = target.1 ∧ step.isFallback = false := by
  cases new with
  | added | absent => cases told
  | changed fromName fromType toName toType upgradeWith downgradeWith =>
    cases after
    simp only [upgrade?, before]
    exact ⟨_, rfl, rfl, rfl, rfl, rfl⟩
  | renamed | deprecated | unchanged =>
    cases after
    simp only [upgrade?, before]
    exact ⟨_, rfl, carry_leads item _ _ _ _⟩

/-- A variant that is in both versions has a step down that is no fallback. -/
theorem VariantStep.downgrade_of_present (container : String) (older newer : Release)
    (definition : Option Definition) :
    ∃ step, downgrade container item old new older newer definition = .ok (some step) ∧
      step.item = item.name ∧ step.source = target.1 ∧ step.target = source.1 ∧
      step.isFallback = false := by
  cases new with
  | absent => cases after
  | changed fromName fromType toName toType upgradeWith downgradeWith =>
    cases after
    simp only [downgrade, before]
    exact ⟨_, rfl, rfl, rfl, rfl, rfl⟩
  | added | renamed | deprecated | unchanged =>
    cases after
    simp only [downgrade, before]
    exact ⟨_, rfl, carry_leads item _ _ _ _⟩

end Steps

/-- A variant that the older version does not have is led back to one that it has. -/
theorem VariantStep.downgrade_of_added {container : String} {item : Item} {name : String}
    {type : Option String} {a : Addition} {older newer : Release} {d : Definition}
    {step : Option VariantStep}
    (run : downgrade container item .absent (.added name type a) older newer (some d) = .ok step) :
    ∃ variant ∈ d.names, step = some (.fallback item.name name variant) := by
  simp only [downgrade, Status.member?] at run
  split at run
  · cases run
  rename_i variant _
  split at run
  · cases run
  rename_i known
  cases run
  refine ⟨variant, ?_, rfl⟩
  simp only [Option.any_some, Option.isNone_iff_eq_none, Definition.member?, List.find?_eq_none,
    beq_iff_eq, not_forall, not_not] at known
  obtain ⟨m, member, same⟩ := known
  exact List.mem_map.mpr ⟨m, member, same⟩

theorem Member.ofStatus?_eq_some (item : Item) {s : Status} {member : String × Option String}
    (present : s.member? = some member) :
    ∃ m, ofStatus? item s = some m ∧ m.item = item.name ∧ m.name = member.1 := by
  rw [ofStatus?, present]
  exact ⟨_, rfl, rfl, rfl⟩

section Matching

variable {item : Item} {old new : Status} (follows : old.Follows new) {older newer : Definition}
include follows

/-- There is a step up exactly for the fields of the newer version, and it fills the field. -/
theorem FieldStep.upgrade?_fills (before : older.memberOfItem? item.name = Member.ofStatus? item old) :
    Option.Rel (FieldStep.Fills older) (Member.ofStatus? item new) (upgrade? item old new) := by
  cases follows with
  | absent => exact .none
  | added name type a =>
    refine .some ⟨rfl, rfl, ?_⟩
    rw [before]
    exact ⟨rfl, rfl⟩
  | carried source target present told later =>
    obtain ⟨step, made, own, reads, leads⟩ := upgrade?_of_carried item present later told
    obtain ⟨m, there, ofItem, named⟩ := Member.ofStatus?_eq_some item later
    obtain ⟨p, earlier, _, formerly⟩ := Member.ofStatus?_eq_some item present
    rw [made, there]
    refine .some ⟨by rw [own, ofItem], by rw [leads, named], ?_⟩
    rw [ofItem, before, earlier]
    exact reads.trans (congrArg some formerly.symm)

/-- There is a step down exactly for the fields of the older version, and it reads what stands for it in the
newer one. -/
theorem FieldStep.downgrade?_returns (after : newer.memberOfItem? item.name = Member.ofStatus? item new) :
    Option.Rel (FieldStep.Returns newer) (Member.ofStatus? item old) (downgrade? item old new) := by
  cases follows with
  | absent | added => exact .none
  | carried source target present told later =>
    obtain ⟨step, made, own, reads, leads⟩ := downgrade?_of_present item present later
    obtain ⟨m, there, _, named⟩ := Member.ofStatus?_eq_some item later
    obtain ⟨p, earlier, ofItem, formerly⟩ := Member.ofStatus?_eq_some item present
    rw [made, earlier]
    refine .some ⟨by rw [own, ofItem], by rw [leads, formerly], m, ?_, ?_⟩
    · rw [ofItem, after, there]
    · rw [reads, named]

/-- What is dropped on the way down is what only the newer version has, under the name that it has there. -/
theorem Dropped.ofStatuses?_eq (before : older.memberOfItem? item.name = Member.ofStatus? item old) :
    ofStatuses? item old new =
      ((Member.ofStatus? item new).filter fun m => (older.memberOfItem? m.item).isNone).map
        fun m => ⟨m.item, m.name⟩ := by
  cases follows with
  | absent => rfl
  | added name type a =>
    have missing : older.memberOfItem? item.name = none := before
    simp [ofStatuses?, Status.isPresent, Status.member?, Member.ofStatus?, Option.filter, missing]
  | carried source target present told later =>
    obtain ⟨p, earlier, _, _⟩ := Member.ofStatus?_eq_some item present
    rw [earlier] at before
    simp [ofStatuses?, Status.isPresent, present, later, Member.ofStatus?, Option.filter, before]

/-- There is a step up exactly for the variants of the older version, and it keeps the variant. -/
theorem VariantStep.upgrade?_keeps (after : newer.memberOfItem? item.name = Member.ofStatus? item new) :
    Option.Rel (VariantStep.Keeps newer) (Member.ofStatus? item old) (upgrade? item old new) := by
  cases follows with
  | absent | added => exact .none
  | carried source target present told later =>
    obtain ⟨step, made, own, reads, leads, carries⟩ := upgrade?_of_carried item present later told
    obtain ⟨m, there, _, named⟩ := Member.ofStatus?_eq_some item later
    obtain ⟨p, earlier, ofItem, formerly⟩ := Member.ofStatus?_eq_some item present
    rw [made, earlier]
    refine .some ⟨by rw [own, ofItem], by rw [reads, formerly], carries, m, ?_, ?_⟩
    · rw [ofItem, after, there]
    · rw [leads, named]

/-- There is a step down exactly for the variants of the newer version, to the older one or to a fallback in
it. -/
theorem VariantStep.downgrade_returns {container : String} {r s : Release} {step : Option VariantStep}
    (before : older.memberOfItem? item.name = Member.ofStatus? item old)
    (run : downgrade container item old new r s (some older) = .ok step) :
    Option.Rel (VariantStep.Returns older) (Member.ofStatus? item new) step := by
  cases follows with
  | absent =>
    cases run
    exact .none
  | added name type a =>
    obtain ⟨variant, known, rfl⟩ := downgrade_of_added run
    refine .some ⟨rfl, rfl, ?_⟩
    rw [before]
    exact ⟨rfl, known⟩
  | carried source target present told later =>
    obtain ⟨step, made, own, reads, leads, carries⟩ :=
      downgrade_of_present item present later container r s (some older)
    obtain ⟨m, there, ofItem, named⟩ := Member.ofStatus?_eq_some item later
    obtain ⟨p, earlier, _, formerly⟩ := Member.ofStatus?_eq_some item present
    cases made.symm.trans run
    rw [there]
    refine .some ⟨by rw [own, ofItem], by rw [reads, named], ?_⟩
    rw [ofItem, before, earlier]
    exact ⟨carries, leads.trans formerly.symm⟩

end Matching

namespace Generation

variable {c : Container} {g : Generation}

/-- The members of a definition stand in the order in which the items are declared. -/
theorem Made.members_ordered (made : Made c g) {d : Definition} (member : d ∈ g.definitions) :
    (d.members.map (·.item)).Sublist (c.items.map (·.name)) := by
  rw [made.definitions] at member
  obtain ⟨r, _, rfl⟩ := List.mem_map.mp member
  have items : (c.definitionIn g.timeline r).members.map (·.item) =
      (c.items.filter fun item => (item.statusIn c.kind g.timeline r).isPresent).map (·.name) := by
    rw [Container.definitionIn, List.map_filterMap, ← List.filterMap_eq_map, List.filterMap_filter]
    refine List.filterMap_congr fun item _ => ?_
    cases present : (item.statusIn c.kind g.timeline r).member? <;>
      simp [Member.ofStatus?, Status.isPresent, present]
  rw [items]
  exact List.filter_sublist.map _

/-- The edges of a container match its definitions: every member that calls for a step has exactly
one, in the order of the members, and nothing else is read or dropped. -/
theorem edge_matches (run : ofContainer c = .ok g) :
    (∀ d ∈ g.definitions, (d.members.map (·.item)).Sublist (c.items.map (·.name))) ∧
      ∀ e ∈ g.edges, ∃ older ∈ g.definitions, ∃ newer ∈ g.definitions,
        (older.release, newer.release) ∈ g.timeline.adjacentPairs ∧ e.steps.kind = c.kind ∧
          e.Matches older newer := by
  have made := made_of_ofContainer run
  refine ⟨fun d member => made.members_ordered member, fun e member => ?_⟩
  obtain ⟨older, newer, adjacent, own⟩ := made.edge_of_mem member
  obtain ⟨atOlder, atNewer, next⟩ := made.sound.mem_adjacentPairs.mp adjacent
  refine ⟨c.definitionIn g.timeline older, ?_, c.definitionIn g.timeline newer, ?_, adjacent, ?_⟩
  · rw [made.definitions]
    exact List.mem_map_of_mem atOlder
  · rw [made.definitions]
    exact List.mem_map_of_mem atNewer
  have follows : ∀ item ∈ c.items,
      (item.statusIn c.kind g.timeline older).Follows (item.statusIn c.kind g.timeline newer) :=
    fun item listed => Item.statusIn_follows made.sound (made.legal item listed) atOlder atNewer next
  have before := fun item (listed : item ∈ c.items) => made.memberOfItem?_eq listed older
  have after := fun item (listed : item ∈ c.items) => made.memberOfItem?_eq listed newer
  cases own with
  | structUpgrade kind =>
    refine ⟨kind.symm, .structUpgrade c.name _ (forall₂_filterMap fun item listed => ?_)⟩
    exact FieldStep.upgrade?_fills (follows item listed) (before item listed)
  | structDowngrade kind =>
    have steps := forall₂_filterMap fun item listed =>
      FieldStep.downgrade?_returns (follows item listed) (after item listed)
    have dropped : (c.items.filterMap fun item => Dropped.ofStatuses? item
        (item.statusIn c.kind g.timeline older) (item.statusIn c.kind g.timeline newer)) =
        ((c.definitionIn g.timeline newer).members.filter fun m =>
          ((c.definitionIn g.timeline older).memberOfItem? m.item).isNone).map
            fun m => ⟨m.item, m.name⟩ := by
      rw [c.members_definitionIn g.timeline newer, List.filter_filterMap, List.map_filterMap]
      exact List.filterMap_congr fun item listed =>
        Dropped.ofStatuses?_eq (follows item listed) (before item listed)
    rw [dropped]
    exact ⟨kind.symm, .structDowngrade c.name _ steps⟩
  | enumUpgrade kind =>
    refine ⟨kind.symm, .enumUpgrade c.name _ (forall₂_filterMap fun item listed => ?_)⟩
    exact VariantStep.upgrade?_keeps (follows item listed) (after item listed)
  | enumDowngrade kind steps each =>
    refine ⟨kind.symm, .enumDowngrade c.name _ ?_⟩
    have runs := (List.forall₂_and_left _ _).mpr ⟨fun item (listed : item ∈ c.items) => listed, each⟩
    refine List.rel_filterMap ?_ runs
    rintro item step ⟨listed, run⟩
    exact VariantStep.downgrade_returns (follows item listed) (before item listed) run

/-- An enum in which two variants swap their names and another falls back to one of them. -/
def signal : Container where
  name := "Signal"
  kind := .enum
  doc := none
  versions := ["v1", "v2", "v3"].map Declaration.named
  items := [⟨"Stop", none, none, none, false, none, [⟨"v2", some "Go", none, none, none⟩], none⟩,
    ⟨"Go", none, none, none, false, none, [⟨"v2", some "Stop", none, none, none⟩], none⟩,
    ⟨"Wait", none, none, none, false, some ⟨"v3", none, none, some "Stop"⟩, [], none⟩]
  options := ⟨true, false⟩
  resource := none

theorem edge_matches_signal :
    ∃ g, ofContainer signal = .ok g ∧ g.edges.length = 4 ∧
      (∀ d ∈ g.definitions, (d.members.map (·.item)).Sublist (signal.items.map (·.name))) ∧
      ∀ e ∈ g.edges, ∃ older ∈ g.definitions, ∃ newer ∈ g.definitions,
        (older.release, newer.release) ∈ g.timeline.adjacentPairs ∧ e.steps.kind = signal.kind ∧
          e.Matches older newer := by
  have edges : (ofContainer signal).toOption.map (·.edges.length) = some 4 := by decide +kernel
  obtain ⟨g, run⟩ := exists_of_isOk (show (ofContainer signal).isOk = true by decide +kernel)
  rw [run] at edges
  exact ⟨g, run, Option.some.inj edges, edge_matches run⟩

end Generation

end Lineage
