import Lineage.Chain
import Lineage.Proofs.Lifecycle

namespace Lineage

/-- The name and the type that an item had before a change. -/
def Change.undo (c : Change) (member : String × Option String) : String × Option String :=
  ((filled? c.fromName).getD member.1, c.fromType <|> member.2)

namespace Item

/-- The addition of an item if it takes effect in a version. -/
def additionIn (item : Item) (r : Release) : Option Addition :=
  item.added.filter (·.since == r.name)

/-- The changes of an item that take effect in a version. -/
def changesIn (item : Item) (r : Release) : List Change :=
  item.changes.filter (·.since == r.name)

/-- The deprecation of an item if it takes effect in a version. -/
def deprecationIn (item : Item) (r : Release) : Option Deprecation :=
  item.deprecated.filter (·.since == r.name)

/-- The name and the type that an item had before a version, from those that it has in it: its
deprecation there takes the mark away, and its changes there are undone. -/
def undoIn (kind : Kind) (item : Item) (r : Release) (member : String × Option String) :
    String × Option String :=
  (item.changesIn r).foldl (fun member c => c.undo member)
    (if (item.deprecationIn r).isSome then (kind.unmark member.1, member.2) else member)

/-- The declared name and type with all actions undone, from the newest to the oldest, that take
effect in the versions from a rank on. -/
def undoneFrom (kind : Kind) (t : Timeline) (item : Item) (rank : Nat) : String × Option String :=
  (t.releases.drop rank).foldr (item.undoIn kind) (item.name, item.type)

/-- The name and the type of an item in a version: every action with a higher rank is undone. -/
def memberIn (kind : Kind) (t : Timeline) (item : Item) (r : Release) : String × Option String :=
  item.undoneFrom kind t (r.rank + 1)

/-- The name and the type of an item just before a version: those in the preceding one, or if there
is none, those that are left when the actions in the version itself are undone. -/
def memberBefore (kind : Kind) (t : Timeline) (item : Item) (r : Release) : String × Option String :=
  match t.previous? r with
  | some preceding => item.memberIn kind t preceding
  | none => item.undoIn kind r (item.memberIn kind t r)

/-- Whether a version comes before the addition of an item. -/
def isBeforeAddition (t : Timeline) (item : Item) (r : Release) : Bool :=
  item.added.any fun a => r.rank < t.rankOf a.since

/-- The deprecation of an item if a version comes after it. -/
def deprecationBefore (t : Timeline) (item : Item) (r : Release) : Option Deprecation :=
  item.deprecated.filter fun d => t.rankOf d.since < r.rank

/-- The status of an item in a version, read off its history without any other status. -/
def statusIn (kind : Kind) (t : Timeline) (item : Item) (r : Release) : Status :=
  let before := item.memberBefore kind t r
  let (name, type) := item.memberIn kind t r
  if item.isBeforeAddition t r then .absent
  else
    match item.additionIn r, item.deprecationIn r, item.changesIn r with
    | some a, _, _ => .added name type a
    | none, some d, _ => .deprecated before.1 name type d.note
    | none, none, c :: _ =>
      if before.2 = type then .renamed before.1 name type
      else .changed before.1 before.2 name type c.upgradeWith c.downgradeWith
    | none, none, [] =>
      match item.deprecationBefore t r with
      | some d => .unchanged name type true d.note
      | none => .unchanged name type false none

/-- What happens to an item in a version: at most one action takes effect there. -/
inductive Happens (item : Item) (r : Release) : Prop
  | nothing (noAddition : item.additionIn r = none) (noDeprecation : item.deprecationIn r = none)
      (noChange : item.changesIn r = [])
  | addition (a : Addition) (own : item.added = some a) (here : a.since = r.name)
      (noDeprecation : item.deprecationIn r = none) (noChange : item.changesIn r = [])
  | deprecation (d : Deprecation) (own : item.deprecated = some d) (here : d.since = r.name)
      (noAddition : item.additionIn r = none) (noChange : item.changesIn r = [])
  | change (c : Change) (own : c ∈ item.changes) (here : c.since = r.name)
      (noAddition : item.additionIn r = none) (noDeprecation : item.deprecationIn r = none)
      (single : item.changesIn r = [c])

/-- Whether no action of an item takes effect in a version. -/
def IsQuiet (item : Item) (r : Release) : Prop :=
  item.additionIn r = none ∧ item.deprecationIn r = none ∧ item.changesIn r = []

theorem additionIn_eq_some {item : Item} {r : Release} {a : Addition} :
    item.additionIn r = some a ↔ item.added = some a ∧ a.since = r.name := by
  simp [additionIn, Option.filter_eq_some_iff]

theorem deprecationIn_eq_some {item : Item} {r : Release} {d : Deprecation} :
    item.deprecationIn r = some d ↔ item.deprecated = some d ∧ d.since = r.name := by
  simp [deprecationIn, Option.filter_eq_some_iff]

theorem additionIn_eq_none {t : Timeline} (sound : t.Sound) {item : Item} {r : Release} (member : r ∈ t.releases)
    (apart : ∀ a, item.added = some a → t.rankOf a.since ≠ r.rank) : item.additionIn r = none := by
  refine Option.eq_none_iff_forall_not_mem.mpr fun a acts => ?_
  obtain ⟨own, here⟩ := additionIn_eq_some.mp acts
  exact apart a own (by rw [here, sound.rankOf_name member])

theorem deprecationIn_eq_none {t : Timeline} (sound : t.Sound) {item : Item} {r : Release}
    (member : r ∈ t.releases) (apart : ∀ d, item.deprecated = some d → t.rankOf d.since ≠ r.rank) :
    item.deprecationIn r = none := by
  refine Option.eq_none_iff_forall_not_mem.mpr fun d acts => ?_
  obtain ⟨own, here⟩ := deprecationIn_eq_some.mp acts
  exact apart d own (by rw [here, sound.rankOf_name member])

theorem mem_changesIn {item : Item} {r : Release} {c : Change} :
    c ∈ item.changesIn r ↔ c ∈ item.changes ∧ c.since = r.name := by
  simp [changesIn, List.mem_filter]

theorem acts_of_addition {item : Item} {r : Release} {a : Addition} (own : item.added = some a)
    (here : a.since = r.name) : ¬ item.IsQuiet r := by
  rintro ⟨noAddition, _, _⟩
  rw [additionIn_eq_some.mpr ⟨own, here⟩] at noAddition
  cases noAddition

theorem acts_of_deprecation {item : Item} {r : Release} {d : Deprecation}
    (own : item.deprecated = some d) (here : d.since = r.name) : ¬ item.IsQuiet r := by
  rintro ⟨_, noDeprecation, _⟩
  rw [deprecationIn_eq_some.mpr ⟨own, here⟩] at noDeprecation
  cases noDeprecation

theorem acts_of_change {item : Item} {r : Release} {c : Change} (own : c ∈ item.changes)
    (here : c.since = r.name) : ¬ item.IsQuiet r := by
  rintro ⟨_, _, noChange⟩
  have listed := mem_changesIn.mpr ⟨own, here⟩
  rw [noChange] at listed
  cases listed

theorem isBeforeAddition_iff {t : Timeline} {item : Item} {r : Release} :
    item.isBeforeAddition t r = true ↔ ∃ a, item.added = some a ∧ r.rank < t.rankOf a.since := by
  cases added : item.added <;> simp [isBeforeAddition, added]

theorem deprecationBefore_eq_some {t : Timeline} {item : Item} {r : Release} {d : Deprecation} :
    item.deprecationBefore t r = some d ↔ item.deprecated = some d ∧ t.rankOf d.since < r.rank := by
  simp [deprecationBefore, Option.filter_eq_some_iff]

theorem present_of_le {t : Timeline} {item : Item} {p r : Release} (le : p.rank ≤ r.rank)
    (present : item.isBeforeAddition t p = false) : item.isBeforeAddition t r = false := by
  rw [← Bool.not_eq_true, isBeforeAddition_iff] at present ⊢
  rintro ⟨a, own, below⟩
  exact present ⟨a, own, by omega⟩

theorem undoIn_of_isQuiet {kind : Kind} {item : Item} {r : Release} (quiet : item.IsQuiet r)
    (member : String × Option String) : item.undoIn kind r member = member := by
  obtain ⟨_, noDeprecation, noChange⟩ := quiet
  simp [undoIn, noDeprecation, noChange]

namespace Legal

variable {kind : Kind} {t : Timeline} {item : Item} (legal : item.Legal t)
include legal

theorem added_declared {a : Addition} (own : item.added = some a) : a.since ∈ t.names :=
  declared_added legal.declared a own

theorem change_declared {c : Change} (own : c ∈ item.changes) : c.since ∈ t.names :=
  declared_changed legal.declared c own

theorem deprecated_declared {d : Deprecation} (own : item.deprecated = some d) : d.since ∈ t.names :=
  declared_deprecated legal.declared d own

/-- At every version exactly one thing happens to an item: it is added, changed or deprecated there, or
nothing is. -/
theorem happens (r : Release) : item.Happens r := by
  cases addition : item.additionIn r with
  | some a =>
    obtain ⟨own, here⟩ := additionIn_eq_some.mp addition
    refine .addition a own here ?_ ?_
    · refine Option.eq_none_iff_forall_not_mem.mpr fun d deprecation => ?_
      obtain ⟨deprecated, there⟩ := deprecationIn_eq_some.mp deprecation
      have ordered := legal.added_before_deprecated a own d deprecated
      rw [here, there] at ordered
      omega
    · refine List.eq_nil_iff_forall_not_mem.mpr fun c change => ?_
      obtain ⟨changed, there⟩ := mem_changesIn.mp change
      have ordered := legal.added_first a own c changed
      rw [here, there] at ordered
      omega
  | none =>
    cases deprecation : item.deprecationIn r with
    | some d =>
      obtain ⟨own, here⟩ := deprecationIn_eq_some.mp deprecation
      refine .deprecation d own here addition ?_
      refine List.eq_nil_iff_forall_not_mem.mpr fun c change => ?_
      obtain ⟨changed, there⟩ := mem_changesIn.mp change
      have ordered := legal.deprecated_last d own c changed
      rw [here, there] at ordered
      omega
    | none =>
      cases change : item.changesIn r with
      | nil => exact .nothing addition deprecation change
      | cons c others =>
        obtain ⟨own, here⟩ := mem_changesIn.mp (change ▸ List.mem_cons_self .. : c ∈ item.changesIn r)
        refine .change c own here addition deprecation (change.trans ?_)
        cases others with
        | nil => rfl
        | cons c' others =>
          have distinct : ((item.changesIn r).map (·.since)).Nodup :=
            legal.changes_apart.sublist (List.filter_sublist.map _)
          obtain ⟨_, there⟩ := mem_changesIn.mp (change ▸ by simp : c' ∈ item.changesIn r)
          rw [change] at distinct
          simp [here, there] at distinct

/-- No other action takes effect in the version of a deprecation. -/
theorem alone_of_deprecation {r : Release} {d : Deprecation} (own : item.deprecated = some d)
    (here : d.since = r.name) : item.additionIn r = none ∧ item.changesIn r = [] := by
  have acts := deprecationIn_eq_some.mpr ⟨own, here⟩
  cases legal.happens r with
  | nothing _ noDeprecation => cases acts.symm.trans noDeprecation
  | addition _ _ _ noDeprecation => cases acts.symm.trans noDeprecation
  | deprecation _ _ _ noAddition noChange => exact ⟨noAddition, noChange⟩
  | change _ _ _ _ noDeprecation => cases acts.symm.trans noDeprecation

/-- No other action takes effect in the version of a change. -/
theorem alone_of_change {r : Release} {c : Change} (own : c ∈ item.changes) (here : c.since = r.name) :
    item.additionIn r = none ∧ item.deprecationIn r = none ∧ item.changesIn r = [c] := by
  have acts := mem_changesIn.mpr ⟨own, here⟩
  cases legal.happens r with
  | nothing _ _ noChange | addition _ _ _ _ noChange | deprecation _ _ _ _ noChange => simp [noChange] at acts
  | change c' _ _ noAddition noDeprecation single =>
    rw [single] at acts
    cases List.mem_singleton.mp acts
    exact ⟨noAddition, noDeprecation, single⟩

end Legal

section Undoing

variable {kind : Kind} {t : Timeline} {item : Item} (sound : t.Sound)
include sound

theorem undoneFrom_rank {r : Release} (member : r ∈ t.releases) :
    item.undoneFrom kind t r.rank = item.undoIn kind r (item.memberIn kind t r) := by
  rw [undoneFrom, sound.drop_rank member, List.foldr_cons]
  rfl

theorem memberBefore_eq {r : Release} (member : r ∈ t.releases) :
    item.memberBefore kind t r = item.undoneFrom kind t r.rank := by
  cases rank : r.rank with
  | zero => simp only [memberBefore, Timeline.previous?, rank, ← undoneFrom_rank sound member]
  | succ k =>
    have bound := sound.rank_lt member
    obtain ⟨p, there, atRank⟩ := sound.exists_rank (show k < t.releases.length by omega)
    have preceding := sound.previous?_eq_some there (show r.rank = p.rank + 1 by omega)
    simp only [memberBefore, preceding, memberIn, atRank]

theorem memberBefore_of_next {p r : Release} (there : p ∈ t.releases) (next : r.rank = p.rank + 1) :
    item.memberBefore kind t r = item.memberIn kind t p := by
  simp only [memberBefore, sound.previous?_eq_some there next]

/-- Versions without an action of the item leave its name and its type as they are. -/
theorem undoneFrom_of_quiet {low high : Nat} (le : low ≤ high)
    (quiet : ∀ r ∈ t.releases, low ≤ r.rank → r.rank < high → item.IsQuiet r) :
    item.undoneFrom kind t low = item.undoneFrom kind t high := by
  induction le with
  | refl => rfl
  | @step high le ih =>
    rw [ih fun r member above below => quiet r member above (by omega)]
    by_cases within : high < t.releases.length
    · obtain ⟨r, member, rfl⟩ := sound.exists_rank within
      rw [undoneFrom_rank sound member]
      exact undoIn_of_isQuiet (quiet r member le (Nat.lt_succ_self _)) _
    · simp only [undoneFrom, List.drop_eq_nil_of_le (by omega : t.releases.length ≤ high),
        List.drop_eq_nil_of_le (by omega : t.releases.length ≤ high + 1)]

end Undoing

section Statuses

variable {kind : Kind} {t : Timeline} {item : Item} {r : Release}

theorem statusIn_of_before (before : item.isBeforeAddition t r = true) :
    item.statusIn kind t r = .absent := by
  simp [statusIn, before]

theorem statusIn_of_quiet (quiet : item.IsQuiet r) (present : item.isBeforeAddition t r = false) :
    item.statusIn kind t r = .unchanged (item.memberIn kind t r).1 (item.memberIn kind t r).2
      (item.deprecationBefore t r).isSome ((item.deprecationBefore t r).bind (·.note)) := by
  obtain ⟨noAddition, noDeprecation, noChange⟩ := quiet
  simp only [statusIn, present, noAddition, noDeprecation, noChange]
  cases item.deprecationBefore t r <;> rfl

variable (sound : t.Sound) (legal : item.Legal t) (member : r ∈ t.releases)
include sound legal member

/-- Nothing happens to an item in the versions before its addition. -/
theorem isQuiet_of_before (before : item.isBeforeAddition t r = true) : item.IsQuiet r := by
  obtain ⟨a, added, below⟩ := isBeforeAddition_iff.mp before
  have rank := sound.rankOf_name member
  cases legal.happens r with
  | nothing noAddition noDeprecation noChange => exact ⟨noAddition, noDeprecation, noChange⟩
  | addition a' own here =>
    cases Option.some.inj (added.symm.trans own)
    rw [here, rank] at below
    omega
  | deprecation d own here =>
    have ordered := legal.added_before_deprecated a added d own
    rw [here, rank] at ordered
    omega
  | change c own here =>
    have ordered := legal.added_first a added c own
    rw [here, rank] at ordered
    omega

theorem present_of_not_quiet (acts : ¬ item.IsQuiet r) : item.isBeforeAddition t r = false := by
  rw [← Bool.not_eq_true]
  exact fun before => acts (isQuiet_of_before sound legal member before)

theorem statusIn_of_addition {a : Addition} (own : item.added = some a) (here : a.since = r.name) :
    item.statusIn kind t r = .added (item.memberIn kind t r).1 (item.memberIn kind t r).2 a := by
  have present := present_of_not_quiet sound legal member (acts_of_addition own here)
  simp [statusIn, present, additionIn_eq_some.mpr ⟨own, here⟩]

theorem statusIn_of_deprecation {d : Deprecation} (own : item.deprecated = some d)
    (here : d.since = r.name) (noAddition : item.additionIn r = none) :
    item.statusIn kind t r = .deprecated (item.memberBefore kind t r).1 (item.memberIn kind t r).1
      (item.memberIn kind t r).2 d.note := by
  have present := present_of_not_quiet sound legal member (acts_of_deprecation own here)
  simp [statusIn, present, noAddition, deprecationIn_eq_some.mpr ⟨own, here⟩]

theorem statusIn_of_change {c : Change} (own : c ∈ item.changes) (here : c.since = r.name)
    (noAddition : item.additionIn r = none) (noDeprecation : item.deprecationIn r = none)
    (single : item.changesIn r = [c]) :
    item.statusIn kind t r =
      if (item.memberBefore kind t r).2 = (item.memberIn kind t r).2 then
        .renamed (item.memberBefore kind t r).1 (item.memberIn kind t r).1 (item.memberIn kind t r).2
      else .changed (item.memberBefore kind t r).1 (item.memberBefore kind t r).2
        (item.memberIn kind t r).1 (item.memberIn kind t r).2 c.upgradeWith c.downgradeWith := by
  have present := present_of_not_quiet sound legal member (acts_of_change own here)
  simp [statusIn, present, noAddition, noDeprecation, single]

/-- Where an item is present and not just added, its status tells what it was just before. -/
theorem predecessor?_statusIn (present : item.isBeforeAddition t r = false)
    (noAddition : item.additionIn r = none) :
    (item.statusIn kind t r).predecessor? = some (item.memberBefore kind t r) := by
  have before : item.memberBefore kind t r = item.undoIn kind r (item.memberIn kind t r) := by
    rw [memberBefore_eq sound member, undoneFrom_rank sound member]
  cases legal.happens r with
  | nothing _ noDeprecation noChange =>
    have quiet : item.IsQuiet r := ⟨noAddition, noDeprecation, noChange⟩
    rw [statusIn_of_quiet quiet present, before, undoIn_of_isQuiet quiet]
    rfl
  | addition a own here => cases (additionIn_eq_some.mpr ⟨own, here⟩).symm.trans noAddition
  | deprecation d own here _ noChange =>
    have sameType : (item.memberBefore kind t r).2 = (item.memberIn kind t r).2 := by
      rw [before, undoIn, noChange]
      split <;> rfl
    rw [statusIn_of_deprecation sound legal member own here noAddition, Status.predecessor?, ← sameType]
  | change c own here _ noDeprecation single =>
    rw [statusIn_of_change sound legal member own here noAddition noDeprecation single]
    split
    · rename_i sameType
      rw [Status.predecessor?, ← sameType]
    · rfl

end Statuses

/-- An item is there from its addition on, under the name and the type that its history gives it. -/
theorem member?_statusIn {kind : Kind} {t : Timeline} {item : Item} (r : Release) :
    (item.statusIn kind t r).member? =
      if item.isBeforeAddition t r then none else some (item.memberIn kind t r) := by
  rcases member : item.memberIn kind t r with ⟨name, type⟩
  simp only [statusIn, member]
  split
  · rfl
  split
  · rfl
  · rfl
  · split <;> rfl
  · split <;> rfl

/-- What a version does not have, the versions before it do not have either. -/
theorem absent_of_le {kind : Kind} {t : Timeline} {item : Item} {p r : Release} (le : p.rank ≤ r.rank)
    (absent : (item.statusIn kind t r).member? = none) : (item.statusIn kind t p).member? = none := by
  rw [member?_statusIn] at absent ⊢
  cases before : item.isBeforeAddition t p with
  | true => rfl
  | false =>
    rw [present_of_le le before] at absent
    cases absent

end Item

/-- Whether no change of an item alters its type. -/
def Item.KeepsType (item : Item) : Prop :=
  ∀ c ∈ item.changes, c.fromType = none ∨ c.fromType = item.type

/-- Whether a status tells of a change of the type. -/
def Status.altersType : Status → Bool
  | changed _ _ _ _ _ _ => true
  | _ => false

namespace Item

variable {kind : Kind} {t : Timeline} {item : Item} (keeps : item.KeepsType)
include keeps

/-- Undoing a change that keeps the type leaves the type as it is. -/
theorem undoIn_type {r : Release} {member : String × Option String} (same : member.2 = item.type) :
    (item.undoIn kind r member).2 = item.type := by
  have each : ∀ changes : List Change, (∀ c ∈ changes, c ∈ item.changes) →
      ∀ m : String × Option String, m.2 = item.type →
        (changes.foldl (fun member c => c.undo member) m).2 = item.type := by
    intro changes
    induction changes with
    | nil => exact fun _ m same => same
    | cons c rest ih =>
      intro own m same
      refine ih (fun d member => own d (List.mem_cons_of_mem _ member)) _ ?_
      rcases keeps c (own c (List.mem_cons_self ..)) with untyped | kept
      · simp [Change.undo, untyped, same]
      · cases type : item.type <;> simp_all [Change.undo]
  refine each _ (fun c member => (mem_changesIn.mp member).1) _ ?_
  split <;> exact same

theorem undoneFrom_type (rank : Nat) : (item.undoneFrom kind t rank).2 = item.type := by
  unfold undoneFrom
  induction t.releases.drop rank with
  | nil => rfl
  | cons r rest ih => exact undoIn_type keeps ih

theorem memberBefore_type (r : Release) : (item.memberBefore kind t r).2 = item.type := by
  unfold memberBefore memberIn
  split
  · exact undoneFrom_type keeps _
  · exact undoIn_type keeps (undoneFrom_type keeps _)

theorem type_of_statusIn {r : Release} {member : String × Option String}
    (present : (item.statusIn kind t r).member? = some member) : member.2 = item.type := by
  rw [member?_statusIn] at present
  split at present
  · cases present
  · cases present
    exact undoneFrom_type keeps _

/-- An item whose changes keep its type has it in all versions. -/
theorem altersType_statusIn (r : Release) : (item.statusIn kind t r).altersType = false := by
  have here : (item.undoneFrom kind t (r.rank + 1)).2 = item.type := undoneFrom_type keeps _
  have before : (item.memberBefore kind t r).2 = item.type := memberBefore_type keeps r
  rcases member : item.memberIn kind t r with ⟨name, type⟩
  rw [memberIn] at member
  rw [member] at here
  simp only [statusIn, memberIn, member, before, here, if_true]
  split
  · rfl
  split
  · rfl
  · rfl
  · rfl
  · split <;> rfl

end Item

end Lineage
