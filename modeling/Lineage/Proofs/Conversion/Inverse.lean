import Lineage.Proofs.Conversion.Raised
import Lineage.Proofs.Conversion.Tracked
import Lineage.Proofs.Conversion.Variants

namespace Lineage

/-- The instance of a variant that carries a payload, or that carries none. -/
def Value.ofVariant (name : String) : Option Value → Value
  | none => .text name
  | some payload => .map [(.text name, payload)]

namespace Conversion

theorem variantOf?_ofVariant (name : String) (carried : Option Value) :
    variantOf? (.ofVariant name carried) = some (.text name, carried) := by
  cases carried <;> rfl

variable {functions : Functions} {nesting : Nesting} {edge : Edge} {path : String} {item : Item}
  {old new : Status} {tracked value : Option Value} (follows : old.Follows new)
  (flat : item.nested = false) (undoes : new.Undoes functions)
include follows flat undoes

section Fields

variable {fields : Entries Value Value} {before after : Option Tracker → Prop}

/-- On the way up the value of an item becomes that which it has in the newer version. -/
theorem puts_raise (held : ∀ m, old.member? = some m → Value.member? fields m.1 = value)
    (fresh : ∀ name type a, new = .added name type a →
      ∃ v, new.raised functions tracked value = some v ∧ ∀ p : Progress, before p.tracker →
        ∃ q, newValue .free functions type a.supplier a.default s!"{path}.{item.name}" p = (.ok v, q) ∧
          after q.tracker)
    (still : (∀ name type a, new ≠ .added name type a) → ∀ tracker, before tracker → after tracker) :
    Puts .free functions nesting edge path fields before after (FieldStep.upgrade? item old new)
      (new.member?.bind fun m => (new.raised functions tracked value).map (.text m.1, ·)) := by
  cases alters : new.altersType with
  | false =>
    refine puts_upgrade follows flat alters (fun m present => ?_) fresh still
    cases follows with
    | absent | added => cases present
    | carried source target _ told =>
      rw [Status.raised_carried alters told]
      exact held m present
  | true =>
    cases new with
    | added | renamed | deprecated | unchanged | absent => cases alters
    | changed fromName fromType toName toType up down =>
      cases follows with
      | carried source target present told later =>
        obtain ⟨u, d, named, _, each⟩ := undoes
        have there := held source present
        have step : FieldStep.upgrade? item old (.changed fromName fromType toName toType up down) =
            some (.apply item.name source.1 toName u) := by
          simp only [FieldStep.upgrade?, present, FieldStep.convert, named]
        rw [step]
        have notAdded : ∀ name type a, Status.changed fromName fromType toName toType up down ≠
            .added name type a := fun _ _ _ same => Status.noConfusion same
        refine puts_apply (still notAdded) (fun missing => ?_) (fun v found => ?_) item.name toName
        · rw [← there, missing]
          rfl
        · obtain ⟨w, call, _⟩ := each v
          rw [← there, found]
          exact ⟨w, Status.raised_changed named call, call⟩

/-- On the way down the value of an item becomes again what it was in the older version. -/
theorem puts_lower
    (held : ∀ m, new.member? = some m → Value.member? fields m.1 = new.raised functions tracked value)
    (still : ∀ tracker, before tracker → after tracker) :
    Puts .free functions nesting edge path fields before after (FieldStep.downgrade? item old new)
      (old.member?.bind fun m => value.map (.text m.1, ·)) := by
  cases follows with
  | absent | added => exact puts_nothing still
  | carried source target present told later =>
    have there := held target later
    rw [present, Option.bind_some]
    cases alters : new.altersType with
    | false =>
      rw [Status.raised_carried alters told] at there
      rw [FieldStep.downgrade?_copy flat alters present later, ← there]
      exact puts_copy still item.name target.1 source.1
    | true =>
      cases new with
      | added | renamed | deprecated | unchanged | absent => cases alters
      | changed fromName fromType toName toType up down =>
        obtain ⟨u, d, named, lowers, each⟩ := undoes
        cases later
        have step : FieldStep.downgrade? item old (.changed fromName fromType toName toType up down) =
            some (.apply item.name toName source.1 d) := by
          simp only [FieldStep.downgrade?, present, FieldStep.convert, lowers]
        rw [step]
        cases value with
        | none =>
          refine puts_apply still (fun _ => rfl) (fun v found => ?_) item.name source.1
          cases there.symm.trans found
        | some v =>
          obtain ⟨w, call, back⟩ := each v
          rw [Status.raised_changed named call] at there
          refine puts_apply still (fun missing => ?_) (fun x found => ?_) item.name source.1
          · cases there.symm.trans missing
          · cases there.symm.trans found
            exact ⟨v, rfl, back⟩

end Fields

section Variants

omit follows undoes in
theorem variantStep_carry {source target : String} {fromType toType : Option String} (p : Progress) :
    variantStep .free functions nesting edge path value (.carry item source target fromType toType) p =
      (.ok (.ofVariant target value), p) := by
  rw [VariantStep.carry, flat, if_neg Bool.false_ne_true]
  cases value <;> rfl

omit follows flat undoes in
theorem variantStep_call {function : Option String} {f : String} (named : filled? function = some f)
    {v w : Value} (call : functions.call f [v] = .ok w) (item source target : String)
    (fromType toType : Option String) (nested : Bool) (p : Progress) :
    variantStep .free functions nesting edge path (some v)
      (.keep item source target function fromType toType nested) p =
        (.ok (.ofVariant target (some w)), p) := by
  simp only [variantStep, payload, named, call]
  rfl

variable {source : String × Option String} (before : old.member? = some source) {step : VariantStep}
include before

/-- A step up gives a payload its raised value, under the newer name. -/
theorem variantStep_raise {target : String × Option String} (after : new.member? = some target)
    (made : VariantStep.upgrade? item old new = some step) (p : Progress) :
    variantStep .free functions nesting edge path value step p =
      (.ok (.ofVariant target.1 (new.raised functions tracked value)), p) := by
  cases follows with
  | absent | added => cases before
  | carried formerly later present told =>
    cases new with
    | absent | added => cases told
    | renamed | deprecated | unchanged =>
      cases after
      simp only [VariantStep.upgrade?, before] at made
      cases made
      exact variantStep_carry flat p
    | changed fromName fromType toName toType up down =>
      obtain ⟨u, d, named, _, each⟩ := undoes
      cases after
      simp only [VariantStep.upgrade?, before] at made
      cases made
      cases value with
      | none => rfl
      | some v =>
        obtain ⟨w, call, _⟩ := each v
        rw [Status.raised_changed named call]
        exact variantStep_call named call ..

/-- A step down gives a raised payload its own value again, under the older name. -/
theorem variantStep_lower {container : String} {older newer : Release} {d : Option Definition}
    (made : VariantStep.downgrade container item old new older newer d = .ok (some step)) (p : Progress) :
    variantStep .free functions nesting edge path (new.raised functions tracked value) step p =
      (.ok (.ofVariant source.1 value), p) := by
  cases follows with
  | absent | added => cases before
  | carried formerly later present told =>
    cases new with
    | absent | added => cases told
    | renamed | deprecated | unchanged =>
      simp only [VariantStep.downgrade, before] at made
      cases made
      exact variantStep_carry flat p
    | changed fromName fromType toName toType up down =>
      obtain ⟨u, d, named, lowers, each⟩ := undoes
      simp only [VariantStep.downgrade, before] at made
      cases made
      cases value with
      | none => rfl
      | some v =>
        obtain ⟨w, call, back⟩ := each v
        rw [Status.raised_changed named call]
        exact variantStep_call lowers back ..

end Variants

end Conversion

namespace Container

/-- Whether a tracker still holds what was recorded of the items that a version does not have. -/
def Awaits (c : Container) (t : Timeline) (path : String) (tracked : Item → Option Value) (r : Release)
    (tracker : Option Tracker) : Prop :=
  ∀ item ∈ c.items, (item.statusIn c.kind t r).member? = none →
    tracker.bind (·.get? (.text (item.place path))) = tracked item

/-- Whether a tracker still holds, with items to come on the way from one version to the next, what was
recorded of the items that the second does not have, and of those to come that the first does not have. -/
def AwaitsAlong (c : Container) (t : Timeline) (path : String) (tracked : Item → Option Value) (r s : Release)
    (todo : List Item) (tracker : Option Tracker) : Prop :=
  ∀ item ∈ c.items, ((item.statusIn c.kind t s).member? = none ∨
      (item.statusIn c.kind t r).member? = none ∧ item ∈ todo) →
    tracker.bind (·.get? (.text (item.place path))) = tracked item

/-- Whether the suppliers succeed that are called between two versions: those of the items that are
added there and of which nothing was recorded. -/
def Supplied (c : Container) (t : Timeline) (functions : Functions) (tracked : Item → Option Value)
    (start stop : Release) : Prop :=
  ∀ item ∈ c.items, (item.statusIn c.kind t start).member? = none →
    (item.statusIn c.kind t stop).member? ≠ none → tracked item = none →
      ∀ a, item.added = some a → ∀ f, filled? a.supplier = some f → ∃ v, functions.call f [] = .ok v

variable {c : Container} {t : Timeline} {functions : Functions} {tracked : Item → Option Value}

theorem Awaits.along {path : String} {r s : Release} {tracker : Option Tracker}
    (awaits : c.Awaits t path tracked r tracker) (below : r.rank ≤ s.rank) (todo : List Item) :
    c.AwaitsAlong t path tracked r s todo tracker :=
  fun item listed due => awaits item listed (due.elim (Item.absent_of_le below) (·.1))

namespace AwaitsAlong

variable {path : String} {r s : Release} {item : Item} {rest : List Item} {tracker : Option Tracker}

theorem awaits (along : c.AwaitsAlong t path tracked r s [] tracker) : c.Awaits t path tracked s tracker :=
  fun item listed absent => along item listed (Or.inl absent)

theorem tail (along : c.AwaitsAlong t path tracked r s (item :: rest) tracker) :
    c.AwaitsAlong t path tracked r s rest tracker :=
  fun other there due => along other there (due.imp_right fun later => ⟨later.1, List.mem_cons_of_mem _ later.2⟩)

/-- What is recorded of an item that is added is no longer awaited after its turn. -/
theorem erase {u : Tracker} (along : c.AwaitsAlong t path tracked r s (item :: rest) (some u))
    (names : (c.items.map (·.name)).Nodup) (suffix : item :: rest <:+ c.items)
    (present : (item.statusIn c.kind t s).member? ≠ none) :
    c.AwaitsAlong t path tracked r s rest (some (u.erase (.text (item.place path)))) := by
  intro other there due
  have apart : other.place path ≠ item.place path := by
    intro same
    cases Tracker.Keeps.item_of_place names there (suffix.mem (List.mem_cons_self ..)) same
    rcases due with missing | ⟨_, later⟩
    · exact present missing
    · have single := names.sublist (suffix.sublist.map _)
      exact (List.nodup_cons.mp single).1 (List.mem_map_of_mem later)
  have before := along.tail other there due
  rw [Option.bind_some] at before ⊢
  rw [← before]
  exact Entries.get?_erase_of_ne_text fun same => apart (Value.text.inj same)

end AwaitsAlong

theorem Supplied.within {start stop r s : Release} (supplied : c.Supplied t functions tracked start stop)
    (since : start.rank ≤ r.rank) (upTo : s.rank ≤ stop.rank) : c.Supplied t functions tracked r s := by
  intro item listed absent present
  refine supplied item listed (Item.absent_of_le since absent) fun missing => ?_
  exact present (Item.absent_of_le upTo missing)

end Container

/-- Whether a value is the instance of an item in a version with what became there of the payload that it
carried at the start. -/
def Item.IsVariant (kind : Kind) (t : Timeline) (functions : Functions) (carried : Option Value) (start : Release)
    (item : Item) (r : Release) (v : Value) (_ : Option Tracker) : Prop :=
  ∃ n, Member.ofStatus? item (item.statusIn kind t r) = some n ∧
    v = .ofVariant n.name (item.raisedIn kind t functions (fun _ => none) (fun _ => carried) start r)

namespace Generation.Made

open Conversion

section Hop

variable {c : Container} {g : Generation} (made : Made c g) {functions : Functions} {path : String}
  {tracked value : Item → Option Value} (flat : ∀ item ∈ c.items, item.nested = false)
  {r s : Release} (atR : r ∈ g.timeline.releases) (atS : s ∈ g.timeline.releases)
include made flat atR atS

section Fields

variable (struct : c.kind = .struct) {nesting : Nesting} {fields : Entries Value Value} {e : Edge}
  (found : g.edge? r.name s.name = some e)
include struct found

/-- An edge up makes the instance of the newer version. Of what was recorded it takes only the values
of the items that are added there. -/
theorem applyEdge_raise (next : s.rank = r.rank + 1)
    (undoes : ∀ item ∈ c.items, (item.statusIn c.kind g.timeline s).Undoes functions)
    (holds : c.Holds g.timeline value r fields) (supplied : c.Supplied g.timeline functions tracked r s)
    {p : Progress} (awaits : c.Awaits g.timeline path tracked r p.tracker) :
    ∃ q, applyEdge .free functions nesting e (.map fields) path p = (.ok (.map (c.instanceIn g.timeline
      (fun item => (item.statusIn c.kind g.timeline s).raised functions (tracked item) (value item)) s)), q) ∧
      c.Awaits g.timeline path tracked s q.tracker := by
  have puts : ∀ item rest, item :: rest <:+ c.items → Puts .free functions nesting e path fields
      (c.AwaitsAlong g.timeline path tracked r s (item :: rest)) (c.AwaitsAlong g.timeline path tracked r s rest)
      (FieldStep.upgrade? item (item.statusIn c.kind g.timeline r) (item.statusIn c.kind g.timeline s))
      (item.keyedIn c.kind g.timeline s
        ((item.statusIn c.kind g.timeline s).raised functions (tracked item) (value item))) := by
    intro item rest suffix
    have listed : item ∈ c.items := suffix.mem (List.mem_cons_self ..)
    have pair := made.follows atR atS next listed
    refine puts_raise pair (flat item listed) (undoes item listed) (holds item listed) ?_
      fun _ _ along => along.tail
    intro name type a added
    have absent : (item.statusIn c.kind g.timeline r).member? = none := by
      rw [added] at pair
      rw [pair.before_added]
      rfl
    have present : (item.statusIn c.kind g.timeline s).member? ≠ none := by
      rw [added]
      nofun
    have waiting : ∀ tracker, c.AwaitsAlong g.timeline path tracked r s (item :: rest) tracker →
        tracker.bind (·.get? (.text (item.place path))) = tracked item :=
      fun tracker along => along item listed (Or.inr ⟨absent, List.mem_cons_self ..⟩)
    cases known : tracked item with
    | none =>
      obtain ⟨v, gives⟩ := Addition.exists_gives
        (supplied item listed absent present known a (Item.added_of_statusIn added)) type
      refine ⟨v, ?_, fun p along => ⟨p, newValue_missing gives ((waiting _ along).trans known), along.tail⟩⟩
      rw [added]
      exact Addition.given?_eq_some.mpr gives
    | some v =>
      refine ⟨v, by rw [added]; rfl, fun p along => ?_⟩
      obtain ⟨kept, tracker, got⟩ := Option.bind_eq_some_iff.mp ((waiting _ along).trans known)
      rw [tracker] at along
      exact ⟨_, newValue_tracked tracker got, along.erase made.item_names_nodup suffix present⟩
  have steps := congrArg Edge.steps (made.edge_up struct atR atS found next)
  have below : r.rank ≤ s.rank := by omega
  obtain ⟨q, run, left⟩ := made.applyEdge_of_puts steps (copiesDropped_free _ _) atS
    (c.AwaitsAlong g.timeline path tracked r s) puts (awaits.along below c.items)
  have still := left.awaits
  refine ⟨_, run, ?_⟩
  cases tracker : q.tracker <;> rwa [tracker] at still

/-- An edge down makes of raised values the values that they were raised from. -/
theorem applyEdge_lower (next : r.rank = s.rank + 1)
    (undoes : ∀ item ∈ c.items, (item.statusIn c.kind g.timeline r).Undoes functions)
    (holds : c.Holds g.timeline (fun item =>
      (item.statusIn c.kind g.timeline r).raised functions (tracked item) (value item)) r fields)
    (p : Progress) :
    ∃ q, applyEdge .free functions nesting e (.map fields) path p =
      (.ok (.map (c.instanceIn g.timeline value s)), q) := by
  have puts : ∀ item rest, item :: rest <:+ c.items → Puts .free functions nesting e path fields
      (fun _ => True) (fun _ => True) (FieldStep.downgrade? item (item.statusIn c.kind g.timeline s)
        (item.statusIn c.kind g.timeline r)) (item.keyedIn c.kind g.timeline s (value item)) := by
    intro item rest suffix
    have listed : item ∈ c.items := suffix.mem (List.mem_cons_self ..)
    exact puts_lower (made.follows atS atR next listed) (flat item listed) (undoes item listed)
      (holds item listed) fun _ still => still
  have steps := congrArg Edge.steps (made.edge_down struct atR atS found next)
  obtain ⟨q, run, _⟩ := made.applyEdge_of_puts steps (copiesDropped_free _ _) atS (fun _ _ => True) puts (p := p)
    trivial
  exact ⟨_, run⟩

end Fields

section Variants

variable (enum : c.kind = .enum) {nesting : Nesting} {e : Edge}
  (found : g.edge? r.name s.name = some e) {item : Item} (listed : item ∈ c.items) {m n : Member}
  (source : Member.ofStatus? item (item.statusIn c.kind g.timeline r) = some m)
  (target : Member.ofStatus? item (item.statusIn c.kind g.timeline s) = some n)
  {tracked carried : Option Value}
include enum found listed source target

theorem applyVariant_raise (next : s.rank = r.rank + 1)
    (undoes : (item.statusIn c.kind g.timeline s).Undoes functions) (p : Progress) :
    ∃ q, applyEdge .free functions nesting e (.ofVariant m.name carried) path p = (.ok (.ofVariant n.name
      ((item.statusIn c.kind g.timeline s).raised functions tracked carried)), q) := by
  have joins := made.edge_found atR atS found
  obtain ⟨steps, step, all, first, run, _⟩ := made.find?_variant atR atS enum joins listed source
  rw [Direction.eq_of_steps joins.step (show Direction.upgrade.Steps r s from next)] at run
  rw [applyEdge_of_variants all first (variantOf?_ofVariant m.name carried)]
  exact ⟨_, variantStep_raise (made.follows atR atS next listed) (flat item listed) undoes
    (Member.of_ofStatus? source).2 (Member.of_ofStatus? target).2 (Except.ok.inj run) _⟩

theorem applyVariant_lower (next : r.rank = s.rank + 1)
    (undoes : (item.statusIn c.kind g.timeline r).Undoes functions) (p : Progress) :
    ∃ q, applyEdge .free functions nesting e (.ofVariant m.name
      ((item.statusIn c.kind g.timeline r).raised functions tracked carried)) path p =
        (.ok (.ofVariant n.name carried), q) := by
  have joins := made.edge_found atR atS found
  obtain ⟨steps, step, all, first, run, _⟩ := made.find?_variant atR atS enum joins listed source
  rw [Direction.eq_of_steps joins.step (show Direction.downgrade.Steps r s from next)] at run
  rw [applyEdge_of_variants all first (variantOf?_ofVariant m.name _)]
  exact ⟨_, variantStep_lower (made.follows atS atR next listed) (flat item listed) undoes
    (Member.of_ofStatus? target).2 run _⟩

end Variants

end Hop

section Path

variable {c : Container} {g : Generation} (made : Made c g) {functions : Functions}
  (flat : ∀ item ∈ c.items, item.nested = false)
  (undoes : ∀ item ∈ c.items, ∀ r ∈ g.timeline.releases,
    (item.statusIn c.kind g.timeline r).Undoes functions)
  {start stop : Release} (below : start.rank < stop.rank) (path : String)
include made flat undoes below

section Fields

variable (struct : c.kind = .struct) (tracked first : Item → Option Value)
include struct

/-- On the way up the map in a version holds the values that the items have there, and the tracker what was
recorded of the items that are still to be added. -/
theorem carries_raised (supplied : c.Supplied g.timeline functions tracked start stop) :
    g.Carries .free functions path ((Direction.toward start stop).Passes start stop)
      (fun r v tracker => ∃ fields, v = .map fields ∧ c.Holds g.timeline
        (Item.raisedIn c.kind g.timeline functions tracked first start r) r fields ∧
        c.Awaits g.timeline path tracked r tracker)
      (fun s w tracker => w = .map (c.instanceIn g.timeline
          (Item.raisedIn c.kind g.timeline functions tracked first start s) s) ∧
        c.Awaits g.timeline path tracked s tracker) := by
  rw [(Direction.toward_of_lt below).1]
  rintro r atR s atS ⟨above, next, atMost⟩ e found nesting _ p ⟨fields, rfl, holds, awaits⟩
  obtain ⟨q, run, left⟩ := made.applyEdge_raise flat atR atS struct found next
    (fun item listed => undoes item listed s atS) holds (supplied.within above atMost) awaits
  refine ⟨_, q, run, ?_, left⟩
  rw [Item.raisedIn_eq_raised made.sound atS above next]

/-- On the way down the map in a version holds the values that the items had there on the way up. -/
theorem carries_lowered : g.Carries .free functions path ((Direction.toward stop start).Passes stop start)
    (fun r v _ => ∃ fields, v = .map fields ∧ c.Holds g.timeline
      (Item.raisedIn c.kind g.timeline functions tracked first start r) r fields)
    (fun s w _ => w = .map (c.instanceIn g.timeline
      (Item.raisedIn c.kind g.timeline functions tracked first start s) s)) := by
  rw [(Direction.toward_of_lt below).2]
  rintro r atR s atS ⟨_, next, above⟩ e found nesting _ p ⟨fields, rfl, holds⟩
  rw [Item.raisedIn_eq_raised made.sound atR above next] at holds
  obtain ⟨q, run⟩ := made.applyEdge_lower flat atR atS struct found next
    (fun item listed => undoes item listed r atR) holds p
  exact ⟨_, q, run, rfl⟩

end Fields

section Variants

variable (enum : c.kind = .enum) {item : Item} (listed : item ∈ c.items)
  (kept : ∀ r : Release, start.rank ≤ r.rank →
    ∃ n, Member.ofStatus? item (item.statusIn c.kind g.timeline r) = some n)
  (carried : Option Value)
include enum listed kept

theorem carries_variant_raised : g.Carries .free functions path ((Direction.toward start stop).Passes start stop)
    (item.IsVariant c.kind g.timeline functions carried start)
    (item.IsVariant c.kind g.timeline functions carried start) := by
  rw [(Direction.toward_of_lt below).1]
  rintro r atR s atS ⟨above, next, _⟩ e found nesting _ p ⟨m, source, rfl⟩
  obtain ⟨n, target⟩ := kept s (le_trans above (Direction.upgrade.reaches_of_steps next))
  obtain ⟨q, run⟩ := made.applyVariant_raise flat atR atS enum found listed source target next
    (undoes item listed s atS) p
  exact ⟨_, q, run, n, target, congrArg _ (Item.raisedIn_next made.sound atS above next).symm⟩

theorem carries_variant_lowered : g.Carries .free functions path ((Direction.toward stop start).Passes stop start)
    (item.IsVariant c.kind g.timeline functions carried start)
    (item.IsVariant c.kind g.timeline functions carried start) := by
  rw [(Direction.toward_of_lt below).2]
  rintro r atR s atS ⟨_, next, above⟩ e found nesting _ p ⟨m, source, rfl⟩
  obtain ⟨n, target⟩ := kept s above
  rw [Item.raisedIn_next made.sound atR above next]
  obtain ⟨q, run⟩ := made.applyVariant_lower flat atR atS enum found listed source target next
    (undoes item listed r atR) p
  exact ⟨_, q, run, n, target, rfl⟩

end Variants

end Path

section Back

variable {ι : Type} {c : Container} {g : Generation} (made : Made c g) {rt : Runtime ι} (room : Nat)
  (flat : ∀ item ∈ c.items, item.nested = false)
  (undoes : ∀ item ∈ c.items, ∀ r ∈ g.timeline.releases,
    (item.statusIn c.kind g.timeline r).Undoes rt.functions)
  (own : rt.generation = g) {start stop : Release} (atStart : start ∈ g.timeline.releases)
  (atStop : stop ∈ g.timeline.releases) (below : start.rank < stop.rank) {edges others : List Edge}
  (up : g.edgesBetween start.name stop.name = .ok edges)
  (down : g.edgesBetween stop.name start.name = .ok others) (path : String) (p : Progress)
include made flat undoes own atStart atStop below up down

/-- What a conversion up and one down make of a map are its own values. -/
theorem convert_fields_back (struct : c.kind = .struct) {x : Entries Value Value}
    (keys : ∀ e ∈ x, ∃ name ∈ (c.definitionIn g.timeline start).names, e.1 = .text name)
    (supplied : c.Supplied g.timeline rt.functions
      (fun item => p.tracker.bind (·.get? (.text (item.place path)))) start stop) :
    ∃ y q, rt.convert room start.name stop.name (.map x) path p = (.ok (.map y), q) ∧
      ∀ p', ∃ z q', rt.convert room stop.name start.name (.map y) path p' = (.ok (.map z), q') ∧
        (z.map (·.1)).Nodup ∧ ∀ key, Entries.get? z key = Entries.get? x key := by
  have climbs := made.carries_raised flat undoes below path struct _ (Item.valueIn c.kind g.timeline x start)
    supplied
  have descends := made.carries_lowered flat undoes below path struct
    (fun item => p.tracker.bind (·.get? (.text (item.place path)))) (Item.valueIn c.kind g.timeline x start)
  have first : Item.raisedIn c.kind g.timeline rt.functions
      (fun item => p.tracker.bind (·.get? (.text (item.place path)))) (Item.valueIn c.kind g.timeline x start)
      start start = Item.valueIn c.kind g.timeline x start :=
    funext fun item => Item.raisedIn_self ..
  have apart : start ≠ stop := fun same => below.ne (congrArg Release.rank same)
  obtain ⟨_, q, run, rfl, _⟩ := climbs.convert_of_ne
    (fun s atS _ _ ⟨same, awaits⟩ => ⟨_, same, made.holds_instanceIn atS _, awaits⟩) own made.sound
    atStart atStop (made.sound.pathBetween_passes atStart atStop) room apart up
    ⟨x, rfl, by rw [first]; exact c.holds_valueIn g.timeline start x, fun _ _ _ => rfl⟩
  refine ⟨_, q, run, fun p' => ?_⟩
  obtain ⟨_, q', back, rfl⟩ := descends.convert_of_ne
    (fun s atS _ _ same => ⟨_, same, made.holds_instanceIn atS _⟩) own made.sound atStop atStart
    (made.sound.pathBetween_passes atStop atStart) room apart.symm down
    ⟨_, rfl, made.holds_instanceIn atStop _⟩
  refine ⟨_, q', back, made.instanceIn_nodup atStart _, ?_⟩
  rw [first]
  exact made.get?_instanceIn atStart keys

/-- What a conversion up and one down make of a variant is itself, with its own payload. -/
theorem convert_variant_back (enum : c.kind = .enum) {m : Member}
    (among : m ∈ (c.definitionIn g.timeline start).members) (carried : Option Value) :
    ∃ y q, rt.convert room start.name stop.name (.ofVariant m.name carried) path p = (.ok y, q) ∧
      ∀ p', ∃ q', rt.convert room stop.name start.name y path p' =
        (.ok (.ofVariant m.name carried), q') := by
  obtain ⟨item, listed, present⟩ := List.mem_filterMap.mp among
  -- An item that is there at the start is there in all later versions, so it never falls back.
  have kept : ∀ r : Release, start.rank ≤ r.rank →
      ∃ n, Member.ofStatus? item (item.statusIn c.kind g.timeline r) = some n := by
    intro r above
    rw [← Option.ne_none_iff_exists', Member.ofStatus?, ne_eq, Option.map_eq_none_iff]
    intro missing
    have absent : (item.statusIn c.kind g.timeline start).member? = none := Item.absent_of_le above missing
    cases absent.symm.trans (Member.of_ofStatus? present).2
  have climbs := made.carries_variant_raised flat undoes below path enum listed kept carried
  have descends := made.carries_variant_lowered flat undoes below path enum listed kept carried
  have apart : start ≠ stop := fun same => below.ne (congrArg Release.rank same)
  have payload : item.raisedIn c.kind g.timeline rt.functions (fun _ => none) (fun _ => carried) start start =
      carried := Item.raisedIn_self ..
  obtain ⟨y, q, run, reached⟩ := climbs.convert_of_ne (fun _ _ _ _ is => is) own made.sound atStart
    atStop (made.sound.pathBetween_passes atStart atStop) room apart up (p := p)
    ⟨m, present, congrArg (Value.ofVariant m.name) payload.symm⟩
  refine ⟨y, q, run, fun p' => ?_⟩
  obtain ⟨_, q', back, n, target, rfl⟩ := descends.convert_of_ne (fun _ _ _ _ is => is) own made.sound
    atStop atStart (made.sound.pathBetween_passes atStop atStart) room apart.symm down (p := p') reached
  rw [Option.some.inj (present.symm.trans target), ← payload]
  exact ⟨q', back⟩

end Back

end Generation.Made

/-- A conversion up and back down is the identity if no item is nested and every change that alters a
type names a function for each way, the second of which undoes the first: a map has the same values
under the same keys again, and a variant comes back as it was. -/
theorem Runtime.convert_back {ι : Type} {c : Container} {g : Generation} {rt : Runtime ι}
    {a b : String} {edges : List Edge} {first second : Definition} (run : Generation.ofContainer c = .ok g)
    (flat : ∀ item ∈ c.items, item.nested = false)
    (undone : ∀ item ∈ c.items, ∀ change ∈ item.changes, ∀ d, g.definition change.since = .ok d →
      ∀ m, d.memberOfItem? item.name = some m → change.Alters m →
        rt.functions.Undo change.upgradeWith change.downgradeWith)
    (own : rt.generation = g) (atA : g.definition a = .ok first) (atB : g.definition b = .ok second)
    (below : first.release.rank < second.release.rank) (path : g.edgesBetween a b = .ok edges)
    (room : Nat) (place : String) (p : Progress) :
    (c.kind = .struct → ∀ x, (∀ e ∈ x, ∃ name ∈ first.names, e.1 = .text name) →
      (∀ item ∈ c.items, first.memberOfItem? item.name = none → second.memberOfItem? item.name ≠ none →
        p.tracker.bind (·.get? (.text (item.place place))) = none → ∀ addition, item.added = some addition →
          ∀ f, filled? addition.supplier = some f → ∃ v, rt.functions.call f [] = .ok v) →
      ∃ y q, rt.convert room a b (.map x) place p = (.ok (.map y), q) ∧
        ∀ p', ∃ z q', rt.convert room b a (.map y) place p' = (.ok (.map z), q') ∧
          (z.map (·.1)).Nodup ∧ ∀ key, Entries.get? z key = Entries.get? x key) ∧
    (c.kind = .enum → ∀ m ∈ first.members, ∀ carried,
      ∃ y q, rt.convert room a b (.ofVariant m.name carried) place p = (.ok y, q) ∧
        ∀ p', ∃ q', rt.convert room b a y place p' = (.ok (.ofVariant m.name carried), q')) := by
  have made := Generation.made_of_ofContainer run
  obtain ⟨start, atStart, gotStart, rfl⟩ := made.definition_of_name atA
  obtain ⟨stop, atStop, gotStop, rfl⟩ := made.definition_of_name atB
  obtain ⟨_, rfl⟩ := made.sound.find?_iff.mp (Timeline.get_eq_ok_iff.mp gotStart)
  obtain ⟨_, rfl⟩ := made.sound.find?_iff.mp (Timeline.get_eq_ok_iff.mp gotStop)
  obtain ⟨others, back⟩ := made.edgesBetween_back atStart atStop path
  have undoes : ∀ item ∈ c.items, ∀ r ∈ g.timeline.releases,
      (item.statusIn c.kind g.timeline r).Undoes rt.functions := by
    intro item listed r member
    refine Item.undoes_statusIn made.sound (made.legal item listed) member fun change among here m present => ?_
    rw [← made.memberOfItem?_eq listed] at present
    exact undone item listed change among _ (here ▸ made.definition_name member) m present
  refine ⟨fun struct x keys suppliers => ?_, fun enum m among carried => ?_⟩
  · refine made.convert_fields_back room flat undoes own atStart atStop below path back place p struct keys ?_
    intro item listed absent present missing
    refine suppliers item listed ?_ ?_ missing
    · rw [made.memberOfItem?_eq listed, Member.ofStatus?, absent, Option.map_none]
    · rw [made.memberOfItem?_eq listed, Member.ofStatus?, ne_eq, Option.map_eq_none_iff]
      exact present
  · exact made.convert_variant_back room flat undoes own atStart atStop below path back place p enum among carried

namespace Runtime

/-- A struct of which a field becomes a list, after which another gets its former name and a third is
added. -/
def parcel : Container where
  name := "Parcel"
  kind := .struct
  doc := none
  versions := ["v1", "v2", "v3"].map Declaration.named
  items := [⟨"weights", some "list", none, none, false, none,
      [⟨"v2", some "weight", some "int", some "wrap", some "unwrap"⟩], none⟩,
    ⟨"weight", some "str", none, none, false, none, [⟨"v3", some "label", none, none, none⟩], none⟩,
    ⟨"stamps", some "int", none, none, false, some ⟨"v3", some "builtins.int", none, none⟩, [], none⟩]
  options := ⟨true, false⟩
  resource := none

/-- One function makes a list of a value, and the other takes it out again. -/
def wrapping : Functions :=
  (Functions.standard.register "wrap" (Library.exactly "wrap" fun v => .ok (.list [v]))).register "unwrap"
    (Library.exactly "unwrap" fun
      | .list [v] => .ok v
      | v => .ok v)

theorem wrapping_undo : wrapping.Undo (some "wrap") (some "unwrap") :=
  ⟨"wrap", "unwrap", rfl, rfl, fun v => ⟨.list [v], rfl, rfl⟩⟩

/-- The weight of a parcel comes back as it was. -/
theorem convert_back_parcel :
    ∃ g first second y q, Generation.ofContainer parcel = .ok g ∧ g.definition "v1" = .ok first ∧
      g.definition "v3" = .ok second ∧ first.release.rank < second.release.rank ∧
      (single g wrapping).convert 0 "v1" "v3" (.map [(.text "weight", .int 5)]) "" (Progress.start none) =
        (.ok (.map y), q) ∧
      ∀ p', ∃ z q', (single g wrapping).convert 0 "v3" "v1" (.map y) "" p' = (.ok (.map z), q') ∧
        (z.map (·.1)).Nodup ∧
        ∀ key, Entries.get? z key = Entries.get? [(.text "weight", .int 5)] key := by
  have facts : (Generation.ofContainer parcel).toOption.map (fun g =>
      ((g.definition "v1").toOption.map fun d => (d.release.rank, d.names),
        (g.definition "v3").toOption.map fun d => d.release.rank, (g.edgesBetween "v1" "v3").isOk)) =
      some (some (0, ["weight", "label"]), some 2, true) := by decide +kernel
  obtain ⟨g, run, facts⟩ := exists_of_toOption_map facts
  simp only [Prod.mk.injEq] at facts
  obtain ⟨first, atA, facts'⟩ := exists_of_toOption_map facts.1
  obtain ⟨firstRank, names⟩ := Prod.mk.inj facts'
  obtain ⟨second, atB, secondRank⟩ := exists_of_toOption_map facts.2.1
  obtain ⟨edges, path⟩ := exists_of_isOk facts.2.2
  have below : first.release.rank < second.release.rank := by omega
  have undone : ∀ item ∈ parcel.items, ∀ change ∈ item.changes, ∀ m : Member, change.Alters m →
      wrapping.Undo change.upgradeWith change.downgradeWith := by
    intro item listed change among m alters
    simp only [parcel, List.mem_cons, List.not_mem_nil, or_false] at listed
    rcases listed with rfl | rfl | rfl
    · cases List.mem_singleton.mp among
      exact wrapping_undo
    · cases List.mem_singleton.mp among
      exact absurd rfl alters.1
    · cases among
  have suppliers : ∀ item ∈ parcel.items, ∀ addition, item.added = some addition →
      ∀ f, filled? addition.supplier = some f → ∃ v, wrapping.call f [] = .ok v := by
    intro item listed addition added f supplier
    simp only [parcel, List.mem_cons, List.not_mem_nil, or_false] at listed
    rcases listed with rfl | rfl | rfl
    · cases added
    · cases added
    · cases added
      cases supplier
      exact exists_of_isOk (by decide +kernel)
  have keys : ∀ e ∈ [(Value.text "weight", Value.int 5)], ∃ name ∈ first.names, e.1 = .text name := by
    intro e entry
    cases List.mem_singleton.mp entry
    exact ⟨"weight", by simp [names], rfl⟩
  obtain ⟨y, q, up, back⟩ := (@convert_back _ parcel g (single g wrapping) "v1" "v3" edges first second run
    (by simp [parcel]) (fun item listed change among _ _ m _ => undone item listed change among m) rfl atA
    atB below path 0 "" (Progress.start none)).1 rfl _ keys fun item listed _ _ _ => suppliers item listed
  exact ⟨g, first, second, y, q, run, atA, atB, below, up, back⟩

end Runtime

end Lineage
