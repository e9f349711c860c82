import Lineage.Conversion.Functions
import Lineage.Proofs.Conversion.Fields
import Lineage.Proofs.History.Adjacency
import Lineage.Proofs.Timeline.Path

namespace Lineage

/-- Whether two functions are named of which the second undoes what the first does to any value. -/
def Functions.Undo (fs : Functions) (up down : Option String) : Prop :=
  ∃ u d, filled? up = some u ∧ filled? down = some d ∧
    ∀ v, ∃ w, fs.call u [v] = .ok w ∧ fs.call d [w] = .ok v

/-- Whether a change gives another type to an item, which has become `m`. -/
def Change.Alters (change : Change) (m : Member) : Prop :=
  change.fromType ≠ none ∧ change.fromType ≠ m.type

namespace Status

/-- The value that an item has from a version on, by its value before: that which a tracker holds or
its addition gives, or that which a function makes of it where its type changes. -/
def raised (functions : Functions) (tracked value : Option Value) : Status → Option Value
  | added _ type a => tracked <|> a.given? functions type
  | changed _ _ _ _ upgradeWith _ =>
    value.bind fun v => (filled? upgradeWith).bind fun u => (functions.call u [v]).toOption
  | _ => value

/-- Whether what happens to values in a version can be undone. -/
def Undoes (functions : Functions) : Status → Prop
  | changed _ _ _ _ upgradeWith downgradeWith => functions.Undo upgradeWith downgradeWith
  | _ => True

variable {functions : Functions} {tracked value : Option Value}

theorem raised_carried {s : Status} {source : String × Option String} (kept : s.altersType = false)
    (told : s.predecessor? = some source) : s.raised functions tracked value = value := by
  cases s with
  | added | absent => cases told
  | changed => cases kept
  | renamed | deprecated | unchanged => rfl

theorem raised_changed {fromName toName : String} {fromType toType up down : Option String}
    {u : String} (named : filled? up = some u) {v w : Value} (call : functions.call u [v] = .ok w) :
    (changed fromName fromType toName toType up down).raised functions tracked (some v) = some w := by
  rw [raised, Option.bind_some, named, Option.bind_some, call]
  rfl

end Status

namespace Item

variable {kind : Kind} {t : Timeline} {item : Item} (sound : t.Sound)
include sound

/-- Only a change that alters the type does something to values. -/
theorem undoes_statusIn (legal : item.Legal t) {functions : Functions} {r : Release}
    (member : r ∈ t.releases)
    (undone : ∀ change ∈ item.changes, change.since = r.name →
      ∀ m, Member.ofStatus? item (item.statusIn kind t r) = some m → change.Alters m →
        functions.Undo change.upgradeWith change.downgradeWith) :
    (item.statusIn kind t r).Undoes functions := by
  cases before : item.isBeforeAddition t r with
  | true =>
    rw [statusIn_of_before before]
    trivial
  | false =>
    cases legal.happens r with
    | nothing noAddition noDeprecation noChange =>
      rw [statusIn_of_quiet ⟨noAddition, noDeprecation, noChange⟩ before]
      trivial
    | addition a own here =>
      rw [statusIn_of_addition sound legal member own here]
      trivial
    | deprecation d own here noAddition =>
      rw [statusIn_of_deprecation sound legal member own here noAddition]
      trivial
    | change change own here noAddition noDeprecation single =>
      have present : (item.statusIn kind t r).member? = some (item.memberIn kind t r) := by
        rw [member?_statusIn, before, if_neg Bool.false_ne_true]
      have undone := undone change own here _ (congrArg (Option.map _) present)
      have former : (item.memberBefore kind t r).2 = (change.fromType <|> (item.memberIn kind t r).2) := by
        rw [memberBefore_eq sound member, undoneFrom_rank sound member, undoIn, single, noDeprecation]
        rfl
      rw [statusIn_of_change sound legal member own here noAddition noDeprecation single]
      split
      · trivial
      · rename_i apart
        rw [former] at apart
        refine undone ⟨fun untyped => apart ?_, fun same => apart ?_⟩
        · rw [untyped]
          rfl
        · have same : change.fromType = (item.memberIn kind t r).2 := same
          rw [same]
          cases (item.memberIn kind t r).2 <;> rfl

/-- The value of an item in a version, from that in an older one. -/
def raisedIn (kind : Kind) (t : Timeline) (functions : Functions) (tracked value : Item → Option Value)
    (start r : Release) (item : Item) : Option Value :=
  (t.between (start.rank + 1) (r.rank + 1)).foldl
    (fun v s => (item.statusIn kind t s).raised functions (tracked item) v) (value item)

variable {functions : Functions} {tracked value : Item → Option Value} {start r s : Release}

omit sound in
theorem raisedIn_self (kind : Kind) (t : Timeline) (functions : Functions)
    (tracked value : Item → Option Value) (start : Release) (item : Item) :
    item.raisedIn kind t functions tracked value start start = value item := by
  rw [raisedIn, Timeline.between_of_le t le_rfl, List.foldl_nil]

theorem raisedIn_next (atS : s ∈ t.releases) (above : start.rank ≤ r.rank) (next : s.rank = r.rank + 1) :
    item.raisedIn kind t functions tracked value start s =
      (item.statusIn kind t s).raised functions (tracked item)
        (item.raisedIn kind t functions tracked value start r) := by
  have whole : t.between (start.rank + 1) (s.rank + 1) = t.between (start.rank + 1) (r.rank + 1) ++ [s] := by
    rw [← next]
    exact sound.between_concat atS (by omega)
  rw [raisedIn, whole, List.foldl_concat]
  rfl

theorem raisedIn_eq_raised (atS : s ∈ t.releases) (above : start.rank ≤ r.rank) (next : s.rank = r.rank + 1) :
    raisedIn kind t functions tracked value start s = fun item =>
      (item.statusIn kind t s).raised functions (tracked item)
        (item.raisedIn kind t functions tracked value start r) :=
  funext fun _ => raisedIn_next sound atS above next

end Item

end Lineage
