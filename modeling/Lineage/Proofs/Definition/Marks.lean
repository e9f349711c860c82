import Lineage.Proofs.Generation

namespace Lineage

/-- Whether a name bears the mark twice, so that one is left when the first is taken away. -/
def Kind.isMarkedTwice (kind : Kind) (name : String) : Bool :=
  kind.isMarked (kind.unmark name)

theorem Kind.unmark_of_unmarked {kind : Kind} {name : String} (unmarked : kind.isMarked name = false) :
    kind.unmark name = name := by
  rw [isMarked, Option.isSome_eq_false_iff, Option.isNone_iff_eq_none] at unmarked
  rw [unmark, unmarked]

theorem Kind.isMarked_of_twice {kind : Kind} {name : String} (twice : kind.isMarkedTwice name = true) :
    kind.isMarked name = true := by
  by_contra unmarked
  rw [Bool.not_eq_true] at unmarked
  rw [isMarkedTwice, unmark_of_unmarked unmarked, unmarked] at twice
  cases twice

namespace Item

/-- The rank from which on an item is deprecated; one that never is has that after all versions. -/
def deprecationRank (t : Timeline) (item : Item) : Nat :=
  item.deprecated.elim t.releases.length fun d => t.rankOf d.since

/-- A version without a deprecation gives an item another name only if that bears no mark. -/
theorem undoIn_name {kind : Kind} {t : Timeline} {item : Item} (legal : item.Legal t)
    (well : item.WellFormed t.names kind) {r : Release} (noDeprecation : item.deprecationIn r = none)
    (member : String × Option String) : (item.undoIn kind r member).1 = member.1 ∨
      kind.isMarked (item.undoIn kind r member).1 = false := by
  have undo : item.undoIn kind r member = (item.changesIn r).foldl (fun m c => c.undo m) member := by
    simp [undoIn, noDeprecation]
  rw [undo]
  cases legal.happens r with
  | nothing _ _ noChange => simp [noChange]
  | addition _ _ _ _ noChange => simp [noChange]
  | deprecation _ _ _ _ noChange => simp [noChange]
  | change c own _ _ _ single =>
    simp only [single, List.foldl_cons, List.foldl_nil, Change.undo]
    cases renamed : filled? c.fromName with
    | none => exact .inl rfl
    | some name =>
      obtain ⟨given, filled⟩ := filled?_eq_some.mp renamed
      refine .inr (Bool.eq_false_iff.mpr fun marked => ?_)
      exact well.previous_unmarked c own name given filled (Kind.isMarked_iff.mp marked)

section Names

variable {kind : Kind} {t : Timeline} {item : Item} (sound : t.Sound)
include sound

theorem deprecationRank_le_iff {r : Release} (member : r ∈ t.releases) :
    item.deprecationRank t ≤ r.rank ↔ ∃ d ∈ item.deprecated, t.rankOf d.since ≤ r.rank := by
  have bound := sound.rank_lt member
  cases deprecated : item.deprecated with
  | none => simp [deprecationRank, deprecated, bound]
  | some d => simp [deprecationRank, deprecated]

variable (legal : item.Legal t)
include legal

theorem deprecationRank_le_length : item.deprecationRank t ≤ t.releases.length := by
  cases deprecated : item.deprecated with
  | none => simp [deprecationRank, deprecated]
  | some d =>
    have bound := sound.rankOf_lt (legal.deprecated_declared deprecated)
    simpa [deprecationRank, deprecated] using bound.le

/-- Nothing happens to an item after its deprecation, so that it has its declared name from there on. -/
theorem undoneFrom_after_deprecation {low : Nat} (after : item.deprecationRank t < low) :
    item.undoneFrom kind t low = (item.name, item.type) := by
  have declared : ∀ high, t.releases.length ≤ high → item.undoneFrom kind t high = (item.name, item.type) :=
    fun high above => by rw [undoneFrom, List.drop_of_length_le above, List.foldr_nil]
  by_cases within : low ≤ t.releases.length
  · cases deprecated : item.deprecated with
    | none =>
      rw [deprecationRank, deprecated, Option.elim_none] at after
      omega
    | some d =>
      rw [deprecationRank, deprecated, Option.elim_some] at after
      rw [undoneFrom_of_quiet sound within fun r member above _ =>
        Chain.isQuiet_after_deprecation sound legal member deprecated (by omega)]
      exact declared _ le_rfl
  · exact declared _ (by omega)

variable (well : item.WellFormed t.names kind)
include well

/-- Where a deprecation is undone, the mark is taken away once. -/
theorem undoneFrom_deprecationRank :
    item.undoneFrom kind t (item.deprecationRank t) = (kind.unmark item.name, item.type) := by
  cases deprecated : item.deprecated with
  | none =>
    have unmarked : kind.isMarked item.name = false := by
      rw [← Bool.not_eq_true, Kind.isMarked_iff, well.marked_iff, deprecated]
      exact Bool.false_ne_true
    rw [deprecationRank, deprecated, Option.elim_none, undoneFrom, List.drop_length, List.foldr_nil,
      Kind.unmark_of_unmarked unmarked]
  | some d =>
    obtain ⟨r, member, _, name, rank⟩ := sound.get_of_mem (legal.deprecated_declared deprecated)
    obtain ⟨_, noChange⟩ := legal.alone_of_deprecation deprecated name.symm
    have here : item.deprecationRank t = r.rank := by rw [deprecationRank, deprecated, Option.elim_some, rank]
    rw [here, undoneFrom_rank sound member, memberIn,
      undoneFrom_after_deprecation sound legal (by omega : item.deprecationRank t < r.rank + 1), undoIn,
      noChange, deprecationIn_eq_some.mpr ⟨deprecated, name.symm⟩]
    rfl

/-- Before its deprecation an item has its declared name without the first mark, or one without any. -/
theorem undoneFrom_before_deprecation {low : Nat} (before : low ≤ item.deprecationRank t) :
    (item.undoneFrom kind t low).1 = kind.unmark item.name ∨
      kind.isMarked (item.undoneFrom kind t low).1 = false := by
  -- The induction goes down from the deprecation, in the order in which the changes are undone.
  induction before using Nat.decreasingInduction with
  | self => exact .inl (congrArg Prod.fst (undoneFrom_deprecationRank sound legal well))
  | of_succ rank below later =>
    have within := deprecationRank_le_length sound legal
    obtain ⟨r, member, rfl⟩ := sound.exists_rank (show rank < t.releases.length by omega)
    have noDeprecation : item.deprecationIn r = none := by
      refine deprecationIn_eq_none sound member fun d own => ?_
      rw [deprecationRank, own, Option.elim_some] at below
      exact below.ne'
    rw [undoneFrom_rank sound member]
    rcases undoIn_name legal well noDeprecation (item.memberIn kind t r) with same | unmarked
    · rw [same]
      exact later
    · exact .inr unmarked

/-- An item bears the mark in a version if it is deprecated there, or if its declared name, which bears the
mark twice, has lost only the first one. -/
theorem isMarked_memberIn_iff {r : Release} (member : r ∈ t.releases) :
    kind.isMarked (item.memberIn kind t r).1 = true ↔ item.deprecationRank t ≤ r.rank ∨
      kind.isMarkedTwice item.name = true ∧ (item.memberIn kind t r).1 = kind.unmark item.name := by
  rcases Nat.lt_or_ge r.rank (item.deprecationRank t) with before | from'
  · constructor
    · intro marked
      rcases undoneFrom_before_deprecation sound legal well before with same | unmarked
      · exact .inr ⟨by rw [Kind.isMarkedTwice, ← same]; exact marked, same⟩
      · exact absurd (unmarked.symm.trans marked) Bool.false_ne_true
    · rintro (after | ⟨twice, same⟩)
      · omega
      · rw [same]
        exact twice
  · refine iff_of_true ?_ (.inl from')
    obtain ⟨d, deprecated, _⟩ := (deprecationRank_le_iff sound member).mp from'
    rw [memberIn, undoneFrom_after_deprecation sound legal (by omega : item.deprecationRank t < r.rank + 1),
      Kind.isMarked_iff, well.marked_iff, Option.mem_def.mp deprecated]
    rfl

end Names

/-- The status of an item that is present says that it is deprecated from its deprecation on. -/
theorem isDeprecated_statusIn_iff {kind : Kind} {t : Timeline} {item : Item} (sound : t.Sound)
    (legal : item.Legal t) {r : Release} (member : r ∈ t.releases)
    (present : item.isBeforeAddition t r = false) :
    (item.statusIn kind t r).isDeprecated = true ↔ item.deprecationRank t ≤ r.rank := by
  have rank := sound.rankOf_name member
  rw [deprecationRank_le_iff sound member]
  cases legal.happens r with
  | nothing noAddition noDeprecation noChange =>
    have quiet : item.IsQuiet r := ⟨noAddition, noDeprecation, noChange⟩
    rw [statusIn_of_quiet quiet present, Status.isDeprecated, Option.isSome_iff_exists]
    refine exists_congr fun d => ?_
    rw [deprecationBefore_eq_some, Option.mem_def]
    refine and_congr_right fun own => ?_
    have different := rankOf_deprecation_ne sound legal member quiet own
    omega
  | addition a own here =>
    rw [statusIn_of_addition sound legal member own here]
    refine iff_of_false Bool.false_ne_true ?_
    rintro ⟨d, deprecated, le⟩
    have ordered := legal.added_before_deprecated a own d deprecated
    rw [here, rank] at ordered
    omega
  | deprecation d own here noAddition =>
    rw [statusIn_of_deprecation sound legal member own here noAddition]
    exact iff_of_true rfl ⟨d, own, by rw [here, rank]⟩
  | change c own here noAddition noDeprecation single =>
    rw [statusIn_of_change sound legal member own here noAddition noDeprecation single]
    refine iff_of_false (by split <;> exact Bool.false_ne_true) ?_
    rintro ⟨d, deprecated, le⟩
    have ordered := legal.deprecated_last d deprecated c own
    rw [here, rank] at ordered
    omega

end Item

theorem Member.ofStatus?_statusIn {kind : Kind} {t : Timeline} {item : Item} {r : Release} :
    ofStatus? item (item.statusIn kind t r) =
      if item.isBeforeAddition t r then none
      else some ⟨item.name, (item.memberIn kind t r).1, (item.memberIn kind t r).2,
        (item.statusIn kind t r).label, (item.statusIn kind t r).isDeprecated,
        (item.statusIn kind t r).note, item.doc, item.hint, item.nested⟩ := by
  rw [ofStatus?, Item.member?_statusIn]
  split <;> rfl

theorem Container.mem_members_definitionIn {c : Container} {t : Timeline} {r : Release} {m : Member} :
    m ∈ (c.definitionIn t r).members ↔ ∃ item ∈ c.items, item.isBeforeAddition t r = false ∧
      m = ⟨item.name, (item.memberIn c.kind t r).1, (item.memberIn c.kind t r).2,
        (item.statusIn c.kind t r).label, (item.statusIn c.kind t r).isDeprecated,
        (item.statusIn c.kind t r).note, item.doc, item.hint, item.nested⟩ := by
  simp only [members_definitionIn, List.mem_filterMap, Member.ofStatus?_statusIn]
  refine exists_congr fun item => and_congr_right fun _ => ?_
  cases item.isBeforeAddition t r <;> simp [eq_comm]

namespace Definition

/-- Whether the members of a definition that bear the mark are those that are deprecated. -/
def MarksDeprecated (d : Definition) : Prop :=
  ∀ m ∈ d.members, d.kind.isMarked m.name = true ↔ m.deprecated = true

section Marks

variable {c : Container} {t : Timeline} (sound : t.Sound) (legal : ∀ item ∈ c.items, item.Legal t)
  (well : ∀ item ∈ c.items, item.WellFormed t.names c.kind)
include sound legal well

/-- The name of a member is marked if it is deprecated, or if the declared name is marked twice. -/
theorem isMarked_of_mem {r : Release} (member : r ∈ t.releases) {m : Member}
    (listed : m ∈ (c.definitionIn t r).members) : ∃ item ∈ c.items, m.item = item.name ∧
      (m.deprecated = true ↔ ∃ d ∈ item.deprecated, t.rankOf d.since ≤ r.rank) ∧
      (c.kind.isMarked m.name = true ↔ m.deprecated = true ∨
        c.kind.isMarkedTwice item.name = true ∧ m.name = c.kind.unmark item.name) := by
  obtain ⟨item, own, present, rfl⟩ := Container.mem_members_definitionIn.mp listed
  have deprecated : (item.statusIn c.kind t r).isDeprecated = true ↔ item.deprecationRank t ≤ r.rank :=
    Item.isDeprecated_statusIn_iff sound (legal item own) member present
  refine ⟨item, own, rfl, ?_, ?_⟩
  · rw [deprecated, Item.deprecationRank_le_iff sound member]
  · rw [deprecated]
    exact Item.isMarked_memberIn_iff sound (legal item own) (well item own) member

/-- The version before the deprecation of an item has it under its declared name without the first mark. -/
theorem exists_unmarked_member {item : Item} (own : item ∈ c.items) {d : Deprecation}
    (deprecated : item.deprecated = some d) (later : t.rankOf d.since ≠ 0) :
    ∃ r ∈ t.releases, ∃ m ∈ (c.definitionIn t r).members,
      m.name = c.kind.unmark item.name ∧ m.deprecated = false := by
  have bound := sound.rankOf_lt ((legal item own).deprecated_declared deprecated)
  have here : item.deprecationRank t = t.rankOf d.since := by
    rw [Item.deprecationRank, deprecated, Option.elim_some]
  obtain ⟨r, member, rank⟩ := sound.exists_rank (show t.rankOf d.since - 1 < t.releases.length by omega)
  have present : item.isBeforeAddition t r = false := by
    rw [← Bool.not_eq_true, Item.isBeforeAddition_iff]
    rintro ⟨a, added, below⟩
    have ordered := (legal item own).added_before_deprecated a added d deprecated
    omega
  refine ⟨r, member, _, Container.mem_members_definitionIn.mpr ⟨item, own, present, rfl⟩, ?_, ?_⟩
  · have undone := Item.undoneFrom_deprecationRank sound (legal item own) (well item own)
    rw [here, show t.rankOf d.since = r.rank + 1 by omega] at undone
    exact congrArg Prod.fst undone
  · rw [← Bool.not_eq_true, Item.isDeprecated_statusIn_iff sound (legal item own) member present, here]
    omega

/-- Just the deprecated members are marked, unless a name is marked twice and deprecated after the first
version. -/
theorem marksDeprecated_iff : (∀ r ∈ t.releases, (c.definitionIn t r).MarksDeprecated) ↔
    ∀ item ∈ c.items, c.kind.isMarkedTwice item.name = true →
      ∀ d ∈ item.deprecated, t.rankOf d.since = 0 := by
  constructor
  · intro marks item own twice d deprecated
    by_contra later
    obtain ⟨r, member, m, listed, name, undeprecated⟩ :=
      exists_unmarked_member sound legal well own deprecated later
    have marked : c.kind.isMarked m.name = true := by
      rw [name]
      exact twice
    exact absurd (undeprecated.symm.trans ((marks r member m listed).mp marked)) Bool.false_ne_true
  · intro first r member m listed
    obtain ⟨item, own, _, deprecated, marked⟩ := isMarked_of_mem sound legal well member listed
    refine marked.trans ⟨fun bears => bears.elim id fun ⟨twice, _⟩ => ?_, .inl⟩
    have isMarked := Kind.isMarked_iff.mp (Kind.isMarked_of_twice twice)
    obtain ⟨d, declared⟩ := Option.isSome_iff_exists.mp ((well item own).marked_iff.mp isMarked)
    exact deprecated.mpr ⟨d, declared, by rw [first item own twice d declared]; exact Nat.zero_le _⟩

end Marks

/-- Which members bear the mark: those that are deprecated, and before their deprecation also those whose
declared name bears it twice, as long as they have the name that is left without the first one. So in all
versions exactly the deprecated members bear it unless such an item is deprecated after the first version. -/
theorem members_marked {unsorted : Option Bool} {c : Container} {v : Validated}
    (valid : c.validate unsorted = .ok v) : ∃ chains, Chain.ofContainer v = .ok chains ∧
      (∀ r ∈ v.timeline.releases, ∀ d, assemble v chains r = .ok d → ∀ m ∈ d.members,
        ∃ item ∈ c.items, m.item = item.name ∧
          (m.deprecated = true ↔ ∃ a ∈ item.deprecated, v.timeline.rankOf a.since ≤ r.rank) ∧
          (c.kind.isMarked m.name = true ↔ m.deprecated = true ∨
            c.kind.isMarkedTwice item.name = true ∧ m.name = c.kind.unmark item.name)) ∧
      ∀ ds, assembleAll v chains = .ok ds →
        ((∀ d ∈ ds, d.MarksDeprecated) ↔ ∀ item ∈ c.items, c.kind.isMarkedTwice item.name = true →
          ∀ a ∈ item.deprecated, v.timeline.rankOf a.since = 0) := by
  have rules := (Container.wellFormed_of_validate valid).1.items
  rw [← Container.names_of_validate valid] at rules
  have chained := Chain.ofContainer_eq valid
  obtain ⟨c, t⟩ := v
  obtain ⟨rfl, sound, _, legal⟩ := Container.validate_legal valid
  have single : ∀ r ∈ t.releases, ∀ d,
      assemble ⟨c, t⟩ (c.items.map (Chain.ofStatuses c.kind t)) r = .ok d → d = c.definitionIn t r := by
    intro r member d made
    rw [assemble_eq sound member] at made
    split at made
    · exact (Except.ok.inj made).symm
    · cases made
  refine ⟨_, chained, fun r member d made m listed => ?_, fun ds made => ?_⟩
  · rw [single r member d made] at listed
    exact isMarked_of_mem sound legal rules member listed
  · obtain ⟨rfl, _⟩ := eq_map_of_mapM made single
    rw [List.forall_mem_map]
    exact marksDeprecated_iff sound legal rules

/-- All names of a gauge are marked exactly where they are deprecated. -/
theorem members_marked_gauge : ∃ v chains ds, Chain.gauge.validate none = .ok v ∧
    Chain.ofContainer v = .ok chains ∧ assembleAll v chains = .ok ds ∧ ∀ d ∈ ds, d.MarksDeprecated := by
  have succeeds : (do
      let v ← Chain.gauge.validate none
      assembleAll v (← Chain.ofContainer v) : Except Failure (List Definition)).isOk = true := by
    decide +kernel
  have single : ∀ item ∈ Chain.gauge.items, Chain.gauge.kind.isMarkedTwice item.name = false := by
    decide +kernel
  obtain ⟨ds, run⟩ := exists_of_isOk succeeds
  obtain ⟨v, valid, run⟩ := exists_of_bind run
  obtain ⟨chains, chained, made⟩ := exists_of_bind run
  obtain ⟨_, same, _, exact⟩ := members_marked valid
  cases chained.symm.trans same
  refine ⟨v, chains, ds, valid, chained, made, (exact ds made).mpr fun item own twice => ?_⟩
  exact absurd ((single item own).symm.trans twice) Bool.false_ne_true

/-- A struct with a field whose declared name bears the mark twice, deprecated in its second version. -/
def sheet : Container where
  name := "Sheet"
  kind := .struct
  doc := none
  versions := ["v1", "v2"].map Declaration.named
  items := [⟨"deprecated_deprecated_label", some "str", none, none, false, none, [], some ⟨"v2", none⟩⟩]
  options := ⟨true, false⟩
  resource := none

/-- A field that is not deprecated yet bears the mark. -/
theorem label_marked_early : ∃ v chains r d m, sheet.validate none = .ok v ∧
    Chain.ofContainer v = .ok chains ∧ r ∈ v.timeline.releases ∧ assemble v chains r = .ok d ∧
    m ∈ d.members ∧ m.name = "deprecated_label" ∧ m.deprecated = false ∧ d.kind.isMarked m.name = true ∧
    ¬ d.MarksDeprecated := by
  have facts : (do
      let v ← sheet.validate none
      let chains ← Chain.ofContainer v
      assemble v chains (← v.timeline.get "v1") : Except Failure Definition).toOption.map (fun d =>
        d.members.map fun m => (m.name, m.deprecated, d.kind.isMarked m.name)) =
      some [("deprecated_label", false, true)] := by decide +kernel
  obtain ⟨d, run, facts⟩ := exists_of_toOption_map facts
  obtain ⟨v, valid, run⟩ := exists_of_bind run
  obtain ⟨chains, chained, run⟩ := exists_of_bind run
  obtain ⟨r, found, made⟩ := exists_of_bind run
  obtain ⟨m, listed, own⟩ := List.map_eq_singleton_iff.mp facts
  simp only [Prod.mk.injEq] at own
  obtain ⟨name, undeprecated, marked⟩ := own
  have member : m ∈ d.members := by simp [listed]
  refine ⟨v, chains, r, d, m, valid, chained, ?_, made, member, name, undeprecated, marked, fun marks => ?_⟩
  · exact List.mem_of_find?_eq_some (Timeline.get_eq_ok_iff.mp found)
  · exact absurd (undeprecated.symm.trans ((marks m member).mp marked)) Bool.false_ne_true

end Definition

end Lineage
