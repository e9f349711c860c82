import Lineage.Proofs.Edge

namespace Lineage

/-- Why a variant that was added cannot go down to the version before, in which it would need another
variant to fall back to. -/
inductive Addition.Strands (older : Definition) (name : String) (a : Addition) : IrreversibleCause → Prop
  | noFallback (missing : ∀ f, a.fallback = some f → f = "") :
      Strands older name a (.noFallback name older.release.name)
  | unknownFallback (f : String) (given : a.fallback = some f) (filled : f ≠ "")
      (unknown : f ∉ older.names) : Strands older name a (.unknownFallback f older.release.name)

/-- Why an item that was added in the newer of two versions cannot go down to the older. -/
def Item.Stranded (c : Container) (t : Timeline) (older newer : Release) (item : Item)
    (cause : IrreversibleCause) : Prop :=
  ∃ a, item.added = some a ∧ a.since = newer.name ∧
    a.Strands (c.definitionIn t older) (item.memberIn c.kind t newer).1 cause

/-- An addition strands its variant if it has no fallback, or one that the older version does not have. -/
theorem Addition.strands_iff {older : Definition} {name : String} {a : Addition} {cause : IrreversibleCause} :
    a.Strands older name cause ↔ match filled? a.fallback with
      | none => cause = .noFallback name older.release.name
      | some f => f ∉ older.names ∧ cause = .unknownFallback f older.release.name := by
  cases given : filled? a.fallback with
  | none =>
    have missing : ∀ f, a.fallback = some f → f = "" := by
      intro f own
      by_contra filled
      rw [filled?_eq_some.mpr ⟨own, filled⟩] at given
      cases given
    constructor
    · intro strands
      cases strands with
      | noFallback => rfl
      | unknownFallback f own filled => exact absurd (missing f own) filled
    · rintro rfl
      exact .noFallback missing
  | some f =>
    obtain ⟨own, filled⟩ := filled?_eq_some.mp given
    constructor
    · intro strands
      cases strands with
      | noFallback missing => exact absurd (missing f own) filled
      | unknownFallback f' own' _ unknown =>
        cases own.symm.trans own'
        exact ⟨unknown, rfl⟩
    · rintro ⟨unknown, rfl⟩
      exact .unknownFallback f own filled unknown

theorem Definition.member?_isNone_iff {d : Definition} {name : String} :
    (d.member? name).isNone = true ↔ name ∉ d.names := by
  simp [member?, names, Option.isNone_iff_eq_none, List.find?_eq_none]

/-- A step down fails exactly for a variant that was added and is stranded. -/
theorem VariantStep.downgrade_eq_error_iff {container : String} {item : Item} {old new : Status}
    (follows : old.Follows new) {older newer : Release} {d : Definition} (own : d.release = older)
    {failure : Failure} :
    downgrade container item old new older newer (some d) = .error failure ↔
      ∃ name type a cause, new = .added name type a ∧ a.Strands d name cause ∧
        failure = .irreversible container item.name newer.name older.name cause := by
  subst own
  cases follows with
  | absent => simp [downgrade, Status.member?]
  | added name type a =>
    have strands := fun cause => @Addition.strands_iff d name a cause
    simp only [downgrade, Status.member?, fallbackOf?]
    cases given : filled? a.fallback with
    | none =>
      simp only [given] at strands
      simp [strands, eq_comm]
    | some f =>
      simp only [given] at strands
      simp only [Option.any_some, Definition.member?_isNone_iff]
      by_cases known : f ∈ d.names
      · simp [strands, known]
      · simp [strands, known, eq_comm]
  | carried source target before told after =>
    obtain ⟨step, made, _⟩ := downgrade_of_present item before after container d.release newer (some d)
    rw [made]
    refine iff_of_false (by simp) ?_
    rintro ⟨name, type, a, cause, rfl, _⟩
    cases told

section Pairs

variable {c : Container} {t : Timeline} (sound : t.Sound) (legal : ∀ item ∈ c.items, item.Legal t)
  {older newer : Release} (atOlder : older ∈ t.releases) (atNewer : newer ∈ t.releases)
  (next : newer.rank = older.rank + 1)
include sound atNewer

theorem Item.stranded_iff {item : Item} (legal : item.Legal t) {cause : IrreversibleCause} :
    item.Stranded c t older newer cause ↔ ∃ name type a, item.statusIn c.kind t newer = .added name type a ∧
      a.Strands (c.definitionIn t older) name cause := by
  constructor
  · rintro ⟨a, own, here, strands⟩
    exact ⟨_, _, a, statusIn_of_addition sound legal atNewer own here, strands⟩
  · rintro ⟨name, type, a, status, strands⟩
    obtain ⟨own, here⟩ := additionIn_eq_some.mp (additionIn_of_statusIn status)
    have named := (statusIn_of_addition sound legal atNewer own here).symm.trans status
    cases named
    exact ⟨a, own, here, strands⟩

include atOlder next legal

theorem Edge.generate_upgrade : ∃ e, generate ⟨c, t⟩ (c.items.map (Chain.ofStatuses c.kind t)) older newer
    .upgrade (some (t.releases.map (c.definitionIn t))) = .ok e := by
  simp only [generate, sound.next?_eq_some atNewer next, ne_eq, not_true_eq_false, if_false,
    Steps.generate_eq sound legal atOlder atNewer next]
  cases c.kind <;> exact ⟨_, rfl⟩

/-- The step down of a variant fails exactly if the variant is stranded. -/
theorem VariantStep.downgrade_statusIn_eq_error_iff {item : Item} (listed : item ∈ c.items) (failure : Failure) :
    VariantStep.downgrade c.name item (item.statusIn c.kind t older) (item.statusIn c.kind t newer) older newer
        (some (c.definitionIn t older)) = .error failure ↔
      ∃ cause, item.Stranded c t older newer cause ∧
        failure = .irreversible c.name item.name newer.name older.name cause := by
  rw [downgrade_eq_error_iff (Item.statusIn_follows sound (legal item listed) atOlder atNewer next)
    (show (c.definitionIn t older).release = older from rfl)]
  simp only [Item.stranded_iff sound atNewer (legal item listed)]
  constructor
  · rintro ⟨name, type, a, cause, status, strands, same⟩
    exact ⟨cause, ⟨name, type, a, status, strands⟩, same⟩
  · rintro ⟨cause, ⟨name, type, a, status, strands⟩, same⟩
    exact ⟨name, type, a, cause, status, strands, same⟩

/-- The edge down from a version fails for the first variant that is stranded, if there is one. -/
theorem Edge.generate_downgrade_eq_error_iff {failure : Failure} :
    generate ⟨c, t⟩ (c.items.map (Chain.ofStatuses c.kind t)) older newer .downgrade
        (some (t.releases.map (c.definitionIn t))) = .error failure ↔
      c.kind = .enum ∧ ∃ item cause,
        IsFirst (fun item => ∃ cause, item.Stranded c t older newer cause) c.items item ∧
        item.Stranded c t older newer cause ∧
        failure = .irreversible c.name item.name newer.name older.name cause := by
  have each := fun item (listed : item ∈ c.items) =>
    VariantStep.downgrade_statusIn_eq_error_iff sound legal atOlder atNewer next listed
  simp only [generate, sound.next?_eq_some atNewer next, ne_eq, not_true_eq_false, if_false,
    Steps.generate_eq sound legal atOlder atNewer next]
  cases kind : c.kind with
  | struct => exact iff_of_false nofun (by simp)
  | enum =>
    rw [kind] at each
    have fails : ∀ item ∈ c.items, (∃ failure, VariantStep.downgrade c.name item
        (item.statusIn .enum t older) (item.statusIn .enum t newer) older newer
        (some (c.definitionIn t older)) = .error failure) ↔
        ∃ cause, item.Stranded c t older newer cause := by
      intro item listed
      simp only [each item listed]
      exact ⟨fun ⟨_, cause, stranded, _⟩ => ⟨cause, stranded⟩,
        fun ⟨cause, stranded⟩ => ⟨_, cause, stranded, rfl⟩⟩
    simp only [bind_eq_error_iff, Option.getD_some, c.find?_definitionIn sound atOlder, pure, Except.pure,
      reduceCtorEq, and_false, exists_false, or_false, true_and]
    rw [mapM_eq_error_iff]
    simp only [isFirst_congr fails]
    constructor
    · rintro ⟨item, first, run⟩
      obtain ⟨cause, stranded, same⟩ := (each item first.mem failure).mp run
      exact ⟨item, cause, first, stranded, same⟩
    · rintro ⟨item, cause, first, stranded, same⟩
      exact ⟨item, first, (each item first.mem failure).mpr ⟨cause, stranded, same⟩⟩

end Pairs

/-- Whether a variant is stranded between two versions that follow each other and are converted. -/
def Container.StrandsBetween (c : Container) (t : Timeline) (pair : Release × Release) : Prop :=
  pair.1.skipFrom = false ∧ ∃ item ∈ c.items, ∃ cause, item.Stranded c t pair.1 pair.2 cause

/-- Whether two members have the same name in a version. -/
def Container.CollidesIn (c : Container) (t : Timeline) (r : Release) : Prop :=
  ¬ (c.definitionIn t r).names.Nodup

/-- What is told of names that collide: the first version in which they do, and all of them there, in
ascending order. -/
structure Container.Collision (c : Container) (t : Timeline) (r : Release) (names : List String) : Prop where
  first : IsFirst (c.CollidesIn t) t.releases r
  ascending : names.Pairwise fun s t => Text.before s t = true
  shared : ∀ name, name ∈ names ↔ List.Duplicate name (c.definitionIn t r).names

/-- What is told of an enum that cannot be converted down: the first pair of versions between which a
variant is stranded, and the first such variant. -/
structure Container.Irreversible (c : Container) (t : Timeline) (older newer : Release) (item : Item)
    (cause : IrreversibleCause) : Prop where
  enum : c.kind = .enum
  converted : c.options.skipFrom = false
  pair : IsFirst (c.StrandsBetween t) t.adjacentPairs (older, newer)
  first : IsFirst (fun item => ∃ cause, item.Stranded c t older newer cause) c.items item
  stranded : item.Stranded c t older newer cause

/-- If every pair of versions fails for its first stranded variant, then all pairs together fail for
the first such pair. No pair is converted that is skipped, and none fails unless it is of an enum. -/
theorem Container.irreversible_iff {c : Container} {t : Timeline} {β : Type}
    {f : Release × Release → Except Failure β}
    (each : ∀ pair ∈ t.adjacentPairs, ∀ failure, f pair = .error failure ↔
      c.kind = .enum ∧ ∃ item cause,
        IsFirst (fun item => ∃ cause, item.Stranded c t pair.1 pair.2 cause) c.items item ∧
        item.Stranded c t pair.1 pair.2 cause ∧
        failure = .irreversible c.name item.name pair.2.name pair.1.name cause) {failure : Failure} :
    (t.adjacentPairs.filter fun pair => !(c.options.skipFrom || pair.1.skipFrom)).mapM f = .error failure ↔
      ∃ older newer item cause, c.Irreversible t older newer item cause ∧
        failure = .irreversible c.name item.name newer.name older.name cause := by
  have fails : ∀ pair ∈ t.adjacentPairs,
      ((!(c.options.skipFrom || pair.1.skipFrom)) = true ∧ ∃ failure, f pair = .error failure) ↔
      c.kind = .enum ∧ c.options.skipFrom = false ∧ c.StrandsBetween t pair := by
    intro pair adjacent
    have first : (∃ failure, f pair = .error failure) ↔
        c.kind = .enum ∧ ∃ item ∈ c.items, ∃ cause, item.Stranded c t pair.1 pair.2 cause := by
      simp only [each pair adjacent, ← exists_isFirst]
      constructor
      · rintro ⟨_, enum, item, cause, first, _⟩
        exact ⟨enum, item, first⟩
      · rintro ⟨enum, item, first⟩
        obtain ⟨cause, stranded⟩ := first.1
        exact ⟨_, enum, item, cause, first, stranded, rfl⟩
    rw [first, Container.StrandsBetween, Bool.not_eq_true', Bool.or_eq_false_iff]
    tauto
  rw [mapM_eq_error_iff]
  simp only [isFirst_filter, isFirst_congr fails]
  constructor
  · rintro ⟨⟨older, newer⟩, first, run⟩
    obtain ⟨enum, item, cause, single, stranded, same⟩ := (each _ first.mem failure).mp run
    have converted := first.1.2.1
    have pair : IsFirst (c.StrandsBetween t) t.adjacentPairs (older, newer) := by
      simpa only [enum, converted, true_and] using first
    exact ⟨older, newer, item, cause, ⟨enum, converted, pair, single, stranded⟩, same⟩
  · rintro ⟨older, newer, item, cause, found, same⟩
    refine ⟨(older, newer), ?_, ?_⟩
    · simpa only [found.enum, found.converted, true_and] using found.pair
    · exact (each _ found.pair.mem failure).mpr
        ⟨found.enum, item, cause, found.first, found.stranded, same⟩

theorem Container.exists_collision_iff {c : Container} {t : Timeline} :
    (∃ r names, c.Collision t r names) ↔ ∃ r ∈ t.releases, c.CollidesIn t r := by
  rw [← exists_isFirst]
  exact exists_congr fun r => ⟨fun ⟨_, collision⟩ => collision.first,
    fun first => ⟨_, first, repeated_ascending, fun name => mem_repeated⟩⟩

theorem Container.exists_irreversible_iff {c : Container} {t : Timeline} :
    (∃ older newer item cause, c.Irreversible t older newer item cause) ↔
      c.kind = .enum ∧ c.options.skipFrom = false ∧ ∃ pair ∈ t.adjacentPairs, c.StrandsBetween t pair := by
  constructor
  · rintro ⟨older, newer, item, cause, found⟩
    exact ⟨found.enum, found.converted, _, found.pair.mem, found.pair.1⟩
  · rintro ⟨enum, converted, some⟩
    obtain ⟨⟨older, newer⟩, pair⟩ := exists_isFirst.mpr some
    obtain ⟨item, first⟩ := exists_isFirst.mpr pair.1.2
    obtain ⟨cause, stranded⟩ := first.1
    exact ⟨older, newer, item, cause, enum, converted, pair, first, stranded⟩

section Whole

variable {c : Container} {t : Timeline} (sound : t.Sound)
include sound

/-- Assembling fails exactly at the first version in which names collide, and reports all that do. -/
theorem Definition.assembleAll_eq_error_iff {failure : Failure} :
    assembleAll ⟨c, t⟩ (c.items.map (Chain.ofStatuses c.kind t)) = .error failure ↔
      ∃ r names, c.Collision t r names ∧ failure = .collision c.name r.name names := by
  have fails : ∀ r ∈ t.releases, (∃ failure, assemble ⟨c, t⟩ (c.items.map (Chain.ofStatuses c.kind t)) r =
      .error failure) ↔ c.CollidesIn t r := by
    intro r member
    rw [assemble_eq sound member, Container.CollidesIn]
    split <;> simp_all
  rw [assembleAll, mapM_eq_error_iff]
  simp only [isFirst_congr fails]
  constructor
  · rintro ⟨r, first, run⟩
    rw [assemble_eq sound first.mem, if_neg first.1] at run
    cases run
    exact ⟨r, _, ⟨first, repeated_ascending, fun name => mem_repeated⟩, rfl⟩
  · rintro ⟨r, names, collision, rfl⟩
    refine ⟨r, collision.first, ?_⟩
    rw [assemble_eq sound collision.first.mem, if_neg collision.first.1,
      repeated_eq_iff.mpr ⟨collision.ascending, collision.shared⟩]

theorem Definition.assembleAll_of_distinct (distinct : ∀ r ∈ t.releases, ¬ c.CollidesIn t r) :
    assembleAll ⟨c, t⟩ (c.items.map (Chain.ofStatuses c.kind t)) = .ok (t.releases.map (c.definitionIn t)) := by
  refine mapM_eq_ok_map fun r member => ?_
  rw [assemble_eq sound member, if_pos (not_not.mp (distinct r member))]

variable (legal : ∀ item ∈ c.items, item.Legal t)
include legal

/-- Generating edges fails exactly at the first pair of versions that strands a variant, and reports the first
one. -/
theorem Edge.generateAll_eq_error_iff {failure : Failure} :
    generateAll ⟨c, t⟩ (c.items.map (Chain.ofStatuses c.kind t)) (some (t.releases.map (c.definitionIn t))) =
        .error failure ↔
      ∃ older newer item cause, c.Irreversible t older newer item cause ∧
        failure = .irreversible c.name item.name newer.name older.name cause := by
  rw [generateAll, bind_eq_error_iff, or_iff_left (by simp [pure, Except.pure])]
  refine Container.irreversible_iff ?_
  rintro ⟨older, newer⟩ adjacent failure
  obtain ⟨atOlder, atNewer, next⟩ := sound.mem_adjacentPairs.mp adjacent
  obtain ⟨e, up⟩ := @generate_upgrade c t sound legal older newer atOlder atNewer next
  rw [← generate_downgrade_eq_error_iff sound legal atOlder atNewer next]
  simp [up, bind_eq_error_iff, pure, Except.pure]

end Whole

/-- The timeline of the versions that a container declares. -/
def Container.timeline (c : Container) : Timeline :=
  ⟨Timeline.releasesFrom 0 c.versions⟩

namespace Generation

/-- A well-formed container is generated from the histories of its items, without a fault of a chain. -/
theorem ofContainer_of_wellFormed {c : Container} (well : c.WellFormed c.options.allowUnsorted) :
    c.timeline.Sound ∧ c.timeline.names = c.versions.map (·.name) ∧
      (∀ item ∈ c.items, item.Legal c.timeline) ∧
      ofContainer c = (do
        let chains := c.items.map (Chain.ofStatuses c.kind c.timeline)
        let definitions ← Definition.assembleAll ⟨c, c.timeline⟩ chains
        return ⟨⟨c, c.timeline⟩, chains, definitions,
          ← Edge.generateAll ⟨c, c.timeline⟩ chains (some definitions)⟩) := by
  have valid : c.validate none = .ok ⟨c, c.timeline⟩ := Container.validate_of_wellFormed well
  obtain ⟨_, sound, _, legal⟩ := Container.validate_legal valid
  refine ⟨sound, Container.names_of_validate valid, legal, ?_⟩
  have chained := Chain.ofContainer_eq valid
  simp only [ofContainer, valid, ofValidated, chained, bind, Except.bind]

theorem ofContainer_of_not_wellFormed {c : Container} (ill : ¬ c.WellFormed c.options.allowUnsorted) :
    ofContainer c = .error (.invalid c.name (c.check c.options.allowUnsorted)) := by
  have invalid := @Container.validate_of_not_wellFormed c none ill
  simp only [ofContainer, invalid, bind, Except.bind]
  rfl

section WellFormed

variable {c : Container} (well : c.WellFormed c.options.allowUnsorted)
include well

/-- What is well formed fails for names that collide, or else for a variant that is stranded. -/
theorem ofContainer_eq_error_iff {failure : Failure} : ofContainer c = .error failure ↔
    (∃ r names, c.Collision c.timeline r names ∧ failure = .collision c.name r.name names) ∨
      (∀ r ∈ c.timeline.releases, ¬ c.CollidesIn c.timeline r) ∧
        ∃ older newer item cause, c.Irreversible c.timeline older newer item cause ∧
          failure = .irreversible c.name item.name newer.name older.name cause := by
  obtain ⟨sound, _, legal, run⟩ := ofContainer_of_wellFormed well
  rw [run, bind_eq_error_iff, ← Definition.assembleAll_eq_error_iff sound]
  refine or_congr_right ?_
  constructor
  · rintro ⟨definitions, assembled, fails⟩
    have distinct : ∀ r ∈ c.timeline.releases, ¬ c.CollidesIn c.timeline r := by
      intro r member collides
      obtain ⟨first, names, collision⟩ := Container.exists_collision_iff.mpr ⟨r, member, collides⟩
      cases assembled.symm.trans
        ((Definition.assembleAll_eq_error_iff sound).mpr ⟨first, names, collision, rfl⟩)
    cases assembled.symm.trans (Definition.assembleAll_of_distinct sound distinct)
    rw [bind_eq_error_iff, or_iff_left (by simp [pure, Except.pure])] at fails
    exact ⟨distinct, (Edge.generateAll_eq_error_iff sound legal).mp fails⟩
  · rintro ⟨distinct, irreversible⟩
    refine ⟨_, Definition.assembleAll_of_distinct sound distinct, ?_⟩
    rw [bind_eq_error_iff]
    exact Or.inl ((Edge.generateAll_eq_error_iff sound legal).mpr irreversible)

theorem definitions_of_ofContainer {g : Generation} (run : ofContainer c = .ok g) :
    g.definitions.map (·.release.name) = c.versions.map (·.name) := by
  obtain ⟨_, named, _, same⟩ := ofContainer_of_wellFormed well
  have made := made_of_ofContainer run
  rw [same] at run
  obtain ⟨definitions, _, generation⟩ := exists_of_bind run
  obtain ⟨edges, _, generation⟩ := exists_of_bind generation
  cases generation
  rw [made.definitions, List.map_map]
  exact named

end WellFormed

/-- A well-formed container is generated exactly if no names collide and no variant is stranded. -/
theorem exists_ofContainer_eq_ok_iff {c : Container} (well : c.WellFormed c.options.allowUnsorted) :
    (∃ g, ofContainer c = .ok g) ↔ (∀ r ∈ c.timeline.releases, ¬ c.CollidesIn c.timeline r) ∧
      ¬ (c.kind = .enum ∧ c.options.skipFrom = false ∧
        ∃ pair ∈ c.timeline.adjacentPairs, c.StrandsBetween c.timeline pair) := by
  rw [exists_ok_iff]
  simp only [ofContainer_eq_error_iff well, ← Container.exists_irreversible_iff]
  constructor
  · intro succeeds
    have distinct : ∀ r ∈ c.timeline.releases, ¬ c.CollidesIn c.timeline r := by
      intro r member collides
      obtain ⟨first, names, collision⟩ := Container.exists_collision_iff.mpr ⟨r, member, collides⟩
      exact succeeds ⟨_, Or.inl ⟨first, names, collision, rfl⟩⟩
    refine ⟨distinct, fun ⟨older, newer, item, cause, irreversible⟩ => ?_⟩
    exact succeeds ⟨_, Or.inr ⟨distinct, older, newer, item, cause, irreversible, rfl⟩⟩
  · rintro ⟨distinct, reversible⟩
      ⟨_, ⟨r, names, collision, _⟩ | ⟨_, older, newer, item, cause, irreversible, _⟩⟩
    · exact distinct r collision.first.mem collision.first.1
    · exact reversible ⟨older, newer, item, cause, irreversible⟩

/-- How the generation of a container ends. It fails for a container that is not well formed, or else
for names that collide, or else for a variant that cannot be converted down, and in no other way. -/
theorem ofContainer_decides (c : Container) :
    ((∃ problems, ofContainer c = .error (.invalid c.name problems)) ↔
      ¬ c.WellFormed c.options.allowUnsorted) ∧
    (∀ version names, ofContainer c = .error (.collision c.name version names) ↔
      c.WellFormed c.options.allowUnsorted ∧ ∃ r, r.name = version ∧ c.Collision c.timeline r names) ∧
    (∀ name source target cause, ofContainer c = .error (.irreversible c.name name source target cause) ↔
      c.WellFormed c.options.allowUnsorted ∧
        (∀ r ∈ c.timeline.releases, ¬ c.CollidesIn c.timeline r) ∧
        ∃ older newer item, item.name = name ∧ newer.name = source ∧ older.name = target ∧
          c.Irreversible c.timeline older newer item cause) ∧
    ((∃ g, ofContainer c = .ok g ∧ g.definitions.map (·.release.name) = c.versions.map (·.name)) ↔
      c.WellFormed c.options.allowUnsorted ∧
        (∀ r ∈ c.timeline.releases, ¬ c.CollidesIn c.timeline r) ∧
        ¬ (c.kind = .enum ∧ c.options.skipFrom = false ∧
          ∃ pair ∈ c.timeline.adjacentPairs, c.StrandsBetween c.timeline pair)) ∧
    ∀ failure, ofContainer c = .error failure →
      (∃ problems, failure = .invalid c.name problems) ∨
      (∃ version names, failure = .collision c.name version names) ∨
      ∃ name source target cause, failure = .irreversible c.name name source target cause := by
  by_cases well : c.WellFormed c.options.allowUnsorted
  · have fails := @ofContainer_eq_error_iff c well
    refine ⟨?_, fun version names => ?_, fun name source target cause => ?_, ?_, fun failure run => ?_⟩
    · simp [fails, well]
    · rw [fails]
      constructor
      · rintro (⟨r, found, collision, same⟩ | ⟨_, older, newer, item, cause, _, same⟩)
        · cases same
          exact ⟨well, r, rfl, collision⟩
        · cases same
      · rintro ⟨_, r, rfl, collision⟩
        exact Or.inl ⟨r, names, collision, rfl⟩
    · rw [fails]
      constructor
      · rintro (⟨r, found, _, same⟩ | ⟨distinct, older, newer, item, cause, irreversible, same⟩)
        · cases same
        · cases same
          exact ⟨well, distinct, older, newer, item, rfl, rfl, rfl, irreversible⟩
      · rintro ⟨_, distinct, older, newer, item, rfl, rfl, rfl, irreversible⟩
        exact Or.inr ⟨distinct, older, newer, item, cause, irreversible, rfl⟩
    · rw [and_iff_right well, ← exists_ofContainer_eq_ok_iff well]
      exact ⟨fun ⟨g, run, _⟩ => ⟨g, run⟩, fun ⟨g, run⟩ => ⟨g, run, definitions_of_ofContainer well run⟩⟩
    · rcases fails.mp run with ⟨r, names, _, same⟩ | ⟨_, older, newer, item, cause, _, same⟩
      · exact Or.inr (Or.inl ⟨_, _, same⟩)
      · exact Or.inr (Or.inr ⟨_, _, _, _, same⟩)
  · simp [ofContainer_of_not_wellFormed well, well]

/-- A container that is stored in a version that it does not declare. -/
def ledger : Container where
  name := "Ledger"
  kind := .struct
  doc := none
  versions := ["v1", "v2"].map Declaration.named
  items := [⟨"entry", some "str", none, none, false, some ⟨"v2", none, none, none⟩, [], none⟩]
  options := ⟨true, false⟩
  resource := some ⟨"example.com", none, none, none, true, some "v9", []⟩

/-- A container is rejected for the version in which it is stored, though its versions and its items
are as they should be. -/
theorem ledger_not_generated :
    (checkDeclarations ledger.options.allowUnsorted ledger.versions = [] ∧
      ∀ item ∈ ledger.items, item.WellFormed (ledger.versions.map (·.name)) ledger.kind) ∧
    ∃ problems, ofContainer ledger = .error (.invalid ledger.name problems) := by
  refine ⟨⟨by decide +kernel, fun item listed => ?_⟩, ?_⟩
  · rw [← Item.problems_eq_nil_iff]
    cases List.mem_singleton.mp listed
    decide +kernel
  · refine ⟨_, ofContainer_of_not_wellFormed fun well => ?_⟩
    have stored := well.storage _ rfl "v9" rfl (by decide)
    revert stored
    decide +kernel

end Generation

end Lineage
