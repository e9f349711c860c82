import Lineage.Proofs.Conversion.Fields
import Lineage.Proofs.Generation.Edges
import Lineage.Proofs.History

namespace Lineage

namespace FieldStep

variable {item : Item} {old new : Status} {source target : String × Option String}

section Kept

variable (kept : new.altersType = false) (before : old.member? = some source)
  (after : new.member? = some target)
include kept before after

theorem upgrade?_kept (told : new.predecessor? = some source) :
    upgrade? item old new = some (carry item source.1 target.1 source.2 target.2) := by
  cases new with
  | added | absent => cases told
  | changed => cases kept
  | renamed | deprecated | unchanged =>
    cases after
    simp only [upgrade?, before]
    rfl

theorem downgrade?_kept :
    downgrade? item old new = some (carry item target.1 source.1 target.2 source.2) := by
  cases new with
  | absent => cases after
  | changed => cases kept
  | added | renamed | deprecated | unchanged =>
    cases after
    simp only [downgrade?, before]
    rfl

end Kept

theorem carry_flat (flat : item.nested = false) (source target : String) (fromType toType : Option String) :
    carry item source target fromType toType = .copy item.name source target := by
  simp [carry, flat]

theorem carry_nested (nested : item.nested = true) (source target : String) (fromType toType : Option String) :
    carry item source target fromType toType =
      .nested item.name source target fromType toType item.hint := by
  simp [carry, nested]

theorem upgrade?_copy (flat : item.nested = false) (kept : new.altersType = false)
    (before : old.member? = some source) (after : new.member? = some target)
    (told : new.predecessor? = some source) :
    upgrade? item old new = some (.copy item.name source.1 target.1) := by
  rw [upgrade?_kept kept before after told, carry_flat flat]

theorem downgrade?_copy (flat : item.nested = false) (kept : new.altersType = false)
    (before : old.member? = some source) (after : new.member? = some target) :
    downgrade? item old new = some (.copy item.name target.1 source.1) := by
  rw [downgrade?_kept kept before after, carry_flat flat]

end FieldStep

namespace Conversion

variable {depths : Depths} {functions : Functions} {nesting : Nesting} {edge : Edge} {path : String}
  {fields : Entries Value Value} {item : Item} {old new : Status} {value : Option Value}
  {before after : Option Tracker → Prop}
  (follows : old.Follows new) (flat : item.nested = false) (kept : new.altersType = false)
include follows flat kept

/-- On the way up an item keeps its value under its new name, and an added one gets a new value. -/
theorem puts_upgrade (held : ∀ m, old.member? = some m → Value.member? fields m.1 = value)
    (fresh : ∀ name type a, new = .added name type a → ∃ v, value = some v ∧
      ∀ p : Progress, before p.tracker → ∃ q,
        newValue depths functions type a.supplier a.default s!"{path}.{item.name}" p = (.ok v, q) ∧ after q.tracker)
    (still : (∀ name type a, new ≠ .added name type a) → ∀ tracker, before tracker → after tracker) :
    Puts depths functions nesting edge path fields before after (FieldStep.upgrade? item old new)
      (new.member?.bind fun m => value.map (.text m.1, ·)) := by
  cases follows with
  | absent => exact puts_nothing (still nofun)
  | added name type a =>
    obtain ⟨v, rfl, gives⟩ := fresh name type a rfl
    exact puts_default gives name
  | carried source target present told later =>
    rw [FieldStep.upgrade?_copy flat kept present later told, later, ← held source present]
    refine puts_copy (still ?_) item.name source.1 target.1
    rintro name type a rfl
    cases told

/-- On the way down an item keeps its value under its old name. -/
theorem puts_downgrade (held : ∀ m, new.member? = some m → Value.member? fields m.1 = value)
    (still : ∀ tracker, before tracker → after tracker) :
    Puts depths functions nesting edge path fields before after (FieldStep.downgrade? item old new)
      (old.member?.bind fun m => value.map (.text m.1, ·)) := by
  cases follows with
  | absent | added => exact puts_nothing still
  | carried source target present told later =>
    rw [FieldStep.downgrade?_copy flat kept present later, present, ← held target later]
    exact puts_copy still item.name target.1 source.1

end Conversion

/-- A value of an item under the name that it has in a version. -/
def Item.keyedIn (kind : Kind) (t : Timeline) (item : Item) (r : Release) (value : Option Value) :
    Option (Value × Value) :=
  (item.statusIn kind t r).member?.bind fun m => value.map (.text m.1, ·)

theorem Item.keyedIn_eq_some {kind : Kind} {t : Timeline} {item : Item} {r : Release}
    {value : Option Value} {e : Value × Value} :
    item.keyedIn kind t r value = some e ↔
      ∃ m v, (item.statusIn kind t r).member? = some m ∧ value = some v ∧ (.text m.1, v) = e := by
  simp only [keyedIn, Option.bind_eq_some_iff, Option.map_eq_some_iff]
  constructor
  · rintro ⟨m, present, v, own, same⟩
    exact ⟨m, v, present, own, same⟩
  · rintro ⟨m, v, present, own, same⟩
    exact ⟨m, present, v, own, same⟩

namespace Container

/-- The instance of a version that holds values of the items under their names there. -/
def instanceIn (c : Container) (t : Timeline) (value : Item → Option Value) (r : Release) :
    Entries Value Value :=
  c.items.filterMap fun item => item.keyedIn c.kind t r (value item)

/-- Whether a map holds values of the items under their names in a version. -/
def Holds (c : Container) (t : Timeline) (value : Item → Option Value) (r : Release)
    (fields : Entries Value Value) : Prop :=
  ∀ item ∈ c.items, ∀ m, (item.statusIn c.kind t r).member? = some m →
    Value.member? fields m.1 = value item

/-- Whether no value of an item is too deep to be copied. -/
def Copies (c : Container) (depths : Depths) (value : Item → Option Value) : Prop :=
  ∀ item ∈ c.items, ∀ v, value item = some v → depths.Copies v

theorem copies_free (c : Container) (value : Item → Option Value) : c.Copies .free value :=
  fun _ _ v _ => Depths.copies_free v

/-- What is dropped on the way down are values of items. -/
theorem Holds.copiesDropped {c : Container} {t : Timeline} {value : Item → Option Value} {r : Release}
    {fields : Entries Value Value} {depths : Depths} (holds : c.Holds t value r fields)
    (copies : c.Copies depths value) (older : Item → Status) : Conversion.CopiesDropped depths fields
      (c.items.filterMap fun item => Dropped.ofStatuses? item (older item) (item.statusIn c.kind t r)) := by
  intro d listed v held
  obtain ⟨item, among, drops⟩ := List.mem_filterMap.mp listed
  rw [Dropped.ofStatuses?] at drops
  split at drops
  · cases drops
  · obtain ⟨m, own, rfl⟩ := Option.map_eq_some_iff.mp drops
    exact copies item among v ((holds item among m own).symm.trans held)

end Container

namespace Generation.Made

variable {c : Container} {g : Generation} {depths : Depths} (made : Made c g)
include made

/-- No two items have the same name in a version. -/
theorem item_of_name {r : Release} (member : r ∈ g.timeline.releases) {left right : Item}
    (first : left ∈ c.items) (second : right ∈ c.items) {m n : String × Option String}
    (own : (left.statusIn c.kind g.timeline r).member? = some m)
    (other : (right.statusIn c.kind g.timeline r).member? = some n) (same : m.1 = n.1) :
    left = right := by
  have atLeft : Member.ofStatus? left (left.statusIn c.kind g.timeline r) = some _ :=
    congrArg (Option.map _) own
  have atRight : Member.ofStatus? right (right.statusIn c.kind g.timeline r) = some _ :=
    congrArg (Option.map _) other
  have equal := List.inj_on_of_nodup_map (made.distinct r member)
    (List.mem_filterMap.mpr ⟨left, first, atLeft⟩) (List.mem_filterMap.mpr ⟨right, second, atRight⟩) same
  exact List.inj_on_of_nodup_map made.item_names_nodup first second (congrArg Member.item equal)

/-- The instance of a version holds the values of the items under their names in it. -/
theorem holds_instanceIn {r : Release} (member : r ∈ g.timeline.releases) (value : Item → Option Value) :
    c.Holds g.timeline value r (c.instanceIn g.timeline value r) := by
  intro item listed m own
  rw [Value.member?, Entries.get?, Container.instanceIn, find?_filterMap listed]
  · rw [Item.keyedIn, own, Option.bind_some]
    cases value item <;> rfl
  · intro e entry
    obtain ⟨n, v, present, _, rfl⟩ := Item.keyedIn_eq_some.mp entry
    rw [Option.some.inj (own.symm.trans present)]
    exact Value.beq_text.mpr rfl
  · intro other there e entry same
    obtain ⟨n, v, present, _, rfl⟩ := Item.keyedIn_eq_some.mp entry
    have names : n.1 = m.1 := Value.text.inj (Value.beq_text.mp same)
    exact made.item_of_name member there listed present own names

/-- The keys of an instance are distinct. -/
theorem instanceIn_nodup {r : Release} (member : r ∈ g.timeline.releases) (value : Item → Option Value) :
    ((c.instanceIn g.timeline value r).map (·.1)).Nodup := by
  have different : c.items.Pairwise (·.name ≠ ·.name) := List.pairwise_map.mp made.item_names_nodup
  rw [Container.instanceIn, List.Nodup, List.pairwise_map, List.pairwise_filterMap]
  refine different.imp_of_mem fun {left right} first second apart e own f other same => ?_
  obtain ⟨m, v, present, _, rfl⟩ := Item.keyedIn_eq_some.mp own
  obtain ⟨n, w, there, _, rfl⟩ := Item.keyedIn_eq_some.mp other
  have equal := made.item_of_name member first second present there (Value.text.inj same)
  exact apart (congrArg Item.name equal)

theorem putAll_instanceIn {r : Release} (member : r ∈ g.timeline.releases) (value : Item → Option Value) :
    Entries.putAll [] (c.instanceIn g.timeline value r) = c.instanceIn g.timeline value r := by
  refine @Entries.putAll_of_distinct _ [] _ (fun e listed => ?_) (made.instanceIn_nodup member value)
  obtain ⟨item, _, own⟩ := List.mem_filterMap.mp listed
  obtain ⟨m, v, _, _, rfl⟩ := Item.keyedIn_eq_some.mp own
  exact ⟨m.1, rfl⟩

theorem follows {older newer : Release} (atOlder : older ∈ g.timeline.releases)
    (atNewer : newer ∈ g.timeline.releases) (next : newer.rank = older.rank + 1) {item : Item}
    (listed : item ∈ c.items) :
    (item.statusIn c.kind g.timeline older).Follows (item.statusIn c.kind g.timeline newer) :=
  Item.statusIn_follows made.sound (made.legal item listed) atOlder atNewer next

/-- An edge makes the instance of a version if each of its steps puts the value of its item there. -/
theorem applyEdge_of_puts {functions : Functions} {nesting : Nesting} {e : Edge} {path : String}
    {fields : Entries Value Value} {step? : Item → Option FieldStep} {dropped : List Dropped}
    (own : e.steps = .fields (c.items.filterMap step?) dropped)
    (copies : Conversion.CopiesDropped depths fields dropped) {s : Release}
    (atS : s ∈ g.timeline.releases) {value : Item → Option Value} (inv : List Item → Option Tracker → Prop)
    (puts : ∀ item rest, item :: rest <:+ c.items → Conversion.Puts depths functions nesting e path fields
      (inv (item :: rest)) (inv rest) (step? item) (item.keyedIn c.kind g.timeline s (value item)))
    {p : Progress} (start : inv c.items p.tracker) :
    ∃ q : Progress, Conversion.applyEdge depths functions nesting e (.map fields) path p =
      (.ok (.map (c.instanceIn g.timeline value s)), { q with tracker := q.tracker.map fun t =>
        ⟨Entries.putAll t.values (Conversion.droppedEntries path fields dropped)⟩ }) ∧
      inv [] q.tracker := by
  obtain ⟨q, steps, left⟩ := Conversion.foldlM_fieldStep _ inv puts []
    (show inv c.items (p.count e.direction).tracker by rwa [Conversion.count_tracker])
  have instances := steps.trans (congrArg (fun out => (Except.ok out, q)) (made.putAll_instanceIn atS value))
  exact ⟨q, Conversion.applyEdge_of_fields own copies instances, left⟩

/-- The same, if the tracker is of a kind that depends on the items that are done. -/
theorem applyEdge_of_puts_done {functions : Functions} {nesting : Nesting} {e : Edge} {path : String}
    {fields : Entries Value Value} {step? : Item → Option FieldStep} {dropped : List Dropped}
    (own : e.steps = .fields (c.items.filterMap step?) dropped)
    (copies : Conversion.CopiesDropped depths fields dropped) {s : Release}
    (atS : s ∈ g.timeline.releases) {value : Item → Option Value} {inv : List Item → Option Tracker → Prop}
    (puts : ∀ done item rest, done ++ item :: rest = c.items → Conversion.Puts depths functions nesting e path fields
      (inv done) (inv (done ++ [item])) (step? item) (item.keyedIn c.kind g.timeline s (value item)))
    {p : Progress} (start : inv [] p.tracker) :
    ∃ q : Progress, Conversion.applyEdge depths functions nesting e (.map fields) path p =
      (.ok (.map (c.instanceIn g.timeline value s)), { q with tracker := q.tracker.map fun t =>
        ⟨Entries.putAll t.values (Conversion.droppedEntries path fields dropped)⟩ }) ∧
      inv c.items q.tracker := by
  obtain ⟨q, run, done, all, left⟩ := made.applyEdge_of_puts own copies atS
    (fun todo tracker => ∃ done, done ++ todo = c.items ∧ inv done tracker)
    (fun item rest _ out p ⟨done, split, holds⟩ => by
      obtain ⟨q, run, still⟩ := puts done item rest split out p holds
      exact ⟨q, run, done ++ [item], by rw [List.append_assoc, List.singleton_append, split], still⟩)
    ⟨[], rfl, start⟩
  rw [List.append_nil] at all
  subst all
  exact ⟨q, run, left⟩

section Hops

variable (struct : c.kind = .struct) {r s : Release} (atR : r ∈ g.timeline.releases)
  (atS : s ∈ g.timeline.releases) {e : Edge} (found : g.edge? r.name s.name = some e)
include struct atR atS found

/-- An edge up has the steps of the items in their order, and drops nothing. -/
theorem edge_up (next : s.rank = r.rank + 1) : e = ⟨c.name, r, s, .upgrade,
    .fields (c.items.filterMap fun item => FieldStep.upgrade? item (item.statusIn c.kind g.timeline r)
      (item.statusIn c.kind g.timeline s)) []⟩ := by
  have joins := made.edge_found atR atS found
  have up : e.direction = .upgrade := Direction.eq_of_steps joins.step next
  have own : Edge.Made c g.timeline r s e := by
    have own := joins.made
    rwa [up] at own
  cases own with
  | structUpgrade => rfl
  | structDowngrade => cases up
  | enumUpgrade kind | enumDowngrade kind => cases struct.symm.trans kind

/-- An edge down has the steps of the items in their order, and drops what only the newer version has. -/
theorem edge_down (next : r.rank = s.rank + 1) : e = ⟨c.name, r, s, .downgrade,
    .fields (c.items.filterMap fun item => FieldStep.downgrade? item (item.statusIn c.kind g.timeline s)
        (item.statusIn c.kind g.timeline r))
      (c.items.filterMap fun item => Dropped.ofStatuses? item (item.statusIn c.kind g.timeline s)
        (item.statusIn c.kind g.timeline r))⟩ := by
  have joins := made.edge_found atR atS found
  have down : e.direction = .downgrade := Direction.eq_of_steps joins.step next
  have own : Edge.Made c g.timeline s r e := by
    have own := joins.made
    rwa [down] at own
  cases own with
  | structUpgrade => cases down
  | structDowngrade => rfl
  | enumUpgrade kind | enumDowngrade kind => cases struct.symm.trans kind

variable (keeps : ∀ item ∈ c.items, item.KeepsType) (flat : ∀ item ∈ c.items, item.nested = false)
  {functions : Functions} {nesting : Nesting} {path : String} {value : Item → Option Value}
  {fields : Entries Value Value} (holds : c.Holds g.timeline value r fields)
include keeps flat holds

/-- An edge up makes the instance of the newer version, if every item that is added there gets its
value. -/
theorem applyEdge_up (next : s.rank = r.rank + 1) (inv : List Item → Option Tracker → Prop)
    (fresh : ∀ item rest, item :: rest <:+ c.items → ∀ a, item.added = some a →
      (item.statusIn c.kind g.timeline r).member? = none →
      (item.statusIn c.kind g.timeline s).member? ≠ none →
        ∃ v, value item = some v ∧ ∀ p : Progress, inv (item :: rest) p.tracker →
          ∃ q, Conversion.newValue depths functions item.type a.supplier a.default s!"{path}.{item.name}" p =
            (.ok v, q) ∧ inv rest q.tracker)
    (still : ∀ item rest, item :: rest <:+ c.items →
      ((item.statusIn c.kind g.timeline r).member? = none ↔
        (item.statusIn c.kind g.timeline s).member? = none) →
      ∀ tracker, inv (item :: rest) tracker → inv rest tracker)
    {p : Progress} (start : inv c.items p.tracker) :
    ∃ q, Conversion.applyEdge depths functions nesting e (.map fields) path p =
      (.ok (.map (c.instanceIn g.timeline value s)), q) ∧ inv [] q.tracker := by
  have puts : ∀ item rest, item :: rest <:+ c.items → Conversion.Puts depths functions nesting e path fields
      (inv (item :: rest)) (inv rest) (FieldStep.upgrade? item (item.statusIn c.kind g.timeline r)
        (item.statusIn c.kind g.timeline s)) (item.keyedIn c.kind g.timeline s (value item)) := by
    intro item rest suffix
    have listed : item ∈ c.items := suffix.mem (List.mem_cons_self ..)
    have pair := made.follows atR atS next listed
    refine Conversion.puts_upgrade pair (flat item listed) (Item.altersType_statusIn (keeps item listed) s)
      (holds item listed) ?_ fun old => still item rest suffix (pair.absent_iff old)
    intro name type a added
    have absent : (item.statusIn c.kind g.timeline r).member? = none := by
      rw [added] at pair
      rw [pair.before_added]
      rfl
    have present : (item.statusIn c.kind g.timeline s).member? = some (name, type) := by
      rw [added]
      rfl
    have kept : type = item.type := Item.type_of_statusIn (keeps item listed) present
    rw [kept]
    exact fresh item rest suffix a (Item.added_of_statusIn added) absent (by simp [present])
  have own := congrArg Edge.steps (made.edge_up struct atR atS found next)
  obtain ⟨q, run, left⟩ := made.applyEdge_of_puts own (by simp [Conversion.CopiesDropped]) atS inv puts start
  refine ⟨_, run, ?_⟩
  cases tracker : q.tracker <;> rwa [tracker] at left

/-- An edge down makes the instance of the older version, and records what is dropped. -/
theorem applyEdge_down (copies : c.Copies depths value) (next : r.rank = s.rank + 1) (p : Progress) :
    ∃ q, Conversion.applyEdge depths functions nesting e (.map fields) path p =
      (.ok (.map (c.instanceIn g.timeline value s)), q) ∧
      q.tracker = p.tracker.map fun t => ⟨Entries.putAll t.values (Conversion.droppedEntries path fields
        (c.items.filterMap fun item => Dropped.ofStatuses? item (item.statusIn c.kind g.timeline s)
          (item.statusIn c.kind g.timeline r)))⟩ := by
  have puts : ∀ item rest, item :: rest <:+ c.items → Conversion.Puts depths functions nesting e path fields
      (· = p.tracker) (· = p.tracker) (FieldStep.downgrade? item (item.statusIn c.kind g.timeline s)
        (item.statusIn c.kind g.timeline r)) (item.keyedIn c.kind g.timeline s (value item)) := by
    intro item rest suffix
    have listed : item ∈ c.items := suffix.mem (List.mem_cons_self ..)
    exact Conversion.puts_downgrade (made.follows atS atR next listed) (flat item listed)
      (Item.altersType_statusIn (keeps item listed) r) (holds item listed) fun _ same => same
  have own := congrArg Edge.steps (made.edge_down struct atR atS found next)
  obtain ⟨q, run, left⟩ := made.applyEdge_of_puts own (holds.copiesDropped copies _) atS
    (fun _ => (· = p.tracker)) puts rfl
  exact ⟨_, run, by rw [left]⟩

end Hops

end Generation.Made

end Lineage
