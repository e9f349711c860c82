import Lineage.Proofs.Chain.Undone
import Lineage.Proofs.History.Propagation

namespace Lineage

namespace Chain

/-- The statuses that a sparse chain has still to come: one for each version of some in which the item
acts, in the order of the versions, and no other. -/
structure Pending (kind : Kind) (t : Timeline) (item : Item) (todo : List Release)
    (rest : Ranked Status) : Prop where
  ordered : rest.Pairwise (·.1 < ·.1)
  entry : ∀ e ∈ rest, ∃ s ∈ todo, ¬ item.IsQuiet s ∧ e = item.entryIn kind t s
  complete : ∀ s ∈ todo, ¬ item.IsQuiet s → item.entryIn kind t s ∈ rest

theorem Undone.pending {kind : Kind} {t : Timeline} {item : Item} {statuses : Ranked Status}
    {member : String × Option String} (undone : Undone kind t item 0 statuses member) :
    Pending kind t item t.releases statuses where
  ordered := undone.ordered
  entry e listed := by
    obtain ⟨r, there, _, acts, same⟩ := undone.entry e listed
    exact ⟨r, there, acts, same⟩
  complete r there acts := undone.complete r there (Nat.zero_le _) acts

theorem below_of_filled (kind : Kind) (t : Timeline) (item : Item) {done : List Release} {r : Release}
    (lower : ∀ s ∈ done, s.rank < r.rank) : ∀ e ∈ done.map (item.entryIn kind t), e.1 < (r.rank : Int) := by
  intro e listed
  obtain ⟨s, member, rfl⟩ := List.mem_map.mp listed
  exact Int.ofNat_lt.mpr (lower s member)

namespace Pending

variable {kind : Kind} {t : Timeline} {item : Item} {todo : List Release} {r : Release}
  {rest : Ranked Status}

theorem eq_nil (pending : Pending kind t item [] rest) : rest = [] := by
  refine List.eq_nil_iff_forall_not_mem.mpr fun e listed => ?_
  obtain ⟨s, member, _⟩ := pending.entry e listed
  cases member

theorem above (pending : Pending kind t item todo rest) (higher : ∀ s ∈ todo, r.rank < s.rank) :
    ∀ e ∈ rest, (r.rank : Int) < e.1 := by
  intro e listed
  obtain ⟨s, member, _, rfl⟩ := pending.entry e listed
  exact Int.ofNat_lt.mpr (higher s member)

theorem skip (pending : Pending kind t item (r :: todo) rest) (quiet : item.IsQuiet r) :
    Pending kind t item todo rest where
  ordered := pending.ordered
  entry e listed := by
    obtain ⟨s, member, acts, same⟩ := pending.entry e listed
    rcases List.mem_cons.mp member with rfl | member
    · exact absurd quiet acts
    · exact ⟨s, member, acts, same⟩
  complete s member := pending.complete s (List.mem_cons_of_mem _ member)

/-- The first status to come is that of the first version if the item acts in it. -/
theorem uncons (pending : Pending kind t item (r :: todo) rest) (acts : ¬ item.IsQuiet r)
    (higher : ∀ s ∈ todo, r.rank < s.rank) :
    ∃ later, rest = item.entryIn kind t r :: later ∧ Pending kind t item todo later := by
  have here := pending.complete r (List.mem_cons_self ..) acts
  cases rest with
  | nil => cases here
  | cons e later =>
    obtain ⟨less, sorted⟩ := List.pairwise_cons.mp pending.ordered
    have first : e = item.entryIn kind t r := by
      rcases List.mem_cons.mp here with same | after
      · exact same.symm
      obtain ⟨s, member, _, rfl⟩ := pending.entry e (List.mem_cons_self ..)
      have greater : (s.rank : Int) < r.rank := less _ after
      rcases List.mem_cons.mp member with rfl | member
      · omega
      · have lower := higher s member
        omega
    subst first
    refine ⟨later, rfl, sorted, ?_, ?_⟩
    · intro e listed
      obtain ⟨s, member, acting, rfl⟩ := pending.entry e (List.mem_cons_of_mem _ listed)
      rcases List.mem_cons.mp member with rfl | member
      · exact absurd (less _ listed) (Int.lt_irrefl _)
      · exact ⟨s, member, acting, rfl⟩
    · intro s member acting
      rcases List.mem_cons.mp (pending.complete s (List.mem_cons_of_mem _ member) acting) with same | listed
      · have equal : (s.rank : Int) = r.rank := congrArg Prod.fst same
        have lower := higher s member
        omega
      · exact listed

end Pending

section Filling

variable {kind : Kind} {t : Timeline} {item : Item} (sound : t.Sound) (legal : item.Legal t)
include sound legal

/-- In a chain that is filled up to a version, the status that goes on there is that of the item. -/
theorem propagated_eq {done todo : List Release} {r : Release} {rest : Ranked Status}
    (split : t.releases = done ++ r :: todo) (quiet : item.IsQuiet r)
    (pending : Pending kind t item todo rest) (history : ∃ s ∈ t.releases, ¬ item.IsQuiet s) :
    propagated item.name (done.map (item.entryIn kind t) ++ rest) r.rank = .ok (item.statusIn kind t r) := by
  obtain ⟨rank, lower, higher⟩ := sound.split_rank split
  have there : r ∈ t.releases := by simp [split]
  have below := below_of_filled kind t item lower
  have above := pending.above higher
  rw [propagated, Ranked.neighbors, Ranked.lower?_append below above, Ranked.upper?_append below above]
  rcases List.eq_nil_or_concat done with rfl | ⟨earlier, p, rfl⟩
  · cases rest with
    | nil =>
      obtain ⟨s, member, acts⟩ := history
      rw [split, List.nil_append, List.mem_cons] at member
      rcases member with rfl | later
      · exact absurd quiet acts
      · cases pending.complete s later acts
    | cons e rest =>
      obtain ⟨s, later, acts, rfl⟩ := pending.entry e (List.mem_cons_self ..)
      have member : s ∈ t.releases := by simp [split, later]
      refine Item.statusIn_first sound legal there member rank acts ?_ (higher s later)
      intro p before less
      by_contra acting
      rw [split, List.nil_append, List.mem_cons] at before
      rcases before with rfl | after
      · exact acting quiet
      rcases List.mem_cons.mp (pending.complete p after acting) with same | listed
      · have equal : (p.rank : Int) = s.rank := congrArg Prod.fst same
        omega
      · have greater : (s.rank : Int) < p.rank := (List.pairwise_cons.mp pending.ordered).1 _ listed
        omega
  · have member : p ∈ t.releases := by simp [split]
    have next : r.rank = p.rank + 1 := by
      have split' : t.releases = earlier ++ p :: (r :: todo) := by rw [split]; simp
      rw [rank, (sound.split_rank split').1]
      simp
    simpa [Item.entryIn] using (Item.statusIn_next sound legal member there next quiet).symm

/-- Filling a sparse chain from the first version to the last gives every version its status. -/
theorem fillFrom_eq {done todo : List Release} {rest : Ranked Status}
    (split : t.releases = done ++ todo) (pending : Pending kind t item todo rest)
    (history : ∃ s ∈ t.releases, ¬ item.IsQuiet s) :
    fillFrom item.name (done.map (item.entryIn kind t) ++ rest) todo =
      .ok (t.releases.map (item.entryIn kind t)) := by
  -- What stands before `todo` is filled, so that the lower neighbour is always the version before.
  induction todo generalizing done rest with
  | nil => rw [fillFrom, pending.eq_nil, split, List.append_nil, List.append_nil]
  | cons r todo ih =>
    have split' : t.releases = (done ++ [r]) ++ todo := by rw [split, List.append_assoc]; rfl
    obtain ⟨_, lower, higher⟩ := sound.split_rank split
    have below := below_of_filled kind t item lower
    by_cases quiet : item.IsQuiet r
    · have later := pending.skip quiet
      have above := later.above higher
      have missing : Ranked.has (done.map (item.entryIn kind t) ++ rest) r.rank = false := by
        rw [← Bool.not_eq_true, Ranked.has_iff]
        rintro ⟨e, listed, same⟩
        rcases List.mem_append.mp listed with old | new
        · exact Int.ne_of_lt (below e old) same
        · exact Int.ne_of_gt (above e new) same
      have filled := ih split' later
      rw [List.map_append, List.append_assoc] at filled
      rw [fillFrom, missing, propagated_eq sound legal split quiet later history,
        if_neg Bool.false_ne_true]
      exact (congrArg (fillFrom item.name · todo)
        (by rw [Ranked.insert_append below, Ranked.insert_of_below above]; rfl)).trans filled
    · obtain ⟨later, rfl, remaining⟩ := pending.uncons quiet higher
      have present : Ranked.has (done.map (item.entryIn kind t) ++ item.entryIn kind t r :: later)
          r.rank = true :=
        Ranked.has_iff.mpr ⟨_, List.mem_append_right _ (List.mem_cons_self ..), rfl⟩
      rw [fillFrom, present, if_pos rfl]
      have filled := ih split' remaining
      rwa [List.map_append, List.append_assoc] at filled

end Filling

/-- An item with a history acts in some version. -/
theorem exists_action {t : Timeline} {item : Item} (legal : item.Legal t)
    (history : item.hasHistory = true) : ∃ r ∈ t.releases, ¬ item.IsQuiet r := by
  have named : ∃ name ∈ t.names, ∀ r : Release, r.name = name → ¬ item.IsQuiet r := by
    simp only [Item.hasHistory, Bool.or_eq_true, Option.isSome_iff_exists, Bool.not_eq_true',
      List.isEmpty_eq_false_iff_exists_mem] at history
    rcases history with (⟨a, own⟩ | ⟨c, own⟩) | ⟨d, own⟩
    · exact ⟨a.since, legal.added_declared own, fun r here => Item.acts_of_addition own here.symm⟩
    · exact ⟨c.since, legal.change_declared own, fun r here => Item.acts_of_change own here.symm⟩
    · exact ⟨d.since, legal.deprecated_declared own, fun r here => Item.acts_of_deprecation own here.symm⟩
  obtain ⟨name, declared, acts⟩ := named
  obtain ⟨r, member, same⟩ := List.mem_map.mp declared
  exact ⟨r, member, acts r same⟩

/-- The chain that the statuses of an item make up. -/
def ofStatuses (kind : Kind) (t : Timeline) (item : Item) : Chain where
  item := item
  statuses := if item.hasHistory then some (t.releases.map (item.entryIn kind t)) else none
  timeline := some t

/-- The chain of a legal item is made and filled without a fault, and holds the statuses of its history. -/
theorem fill_ofItem {kind : Kind} {t : Timeline} {item : Item} (sound : t.Sound) (legal : item.Legal t) :
    ∃ chain, ofItem kind t item = .ok chain ∧ chain.fill t = .ok (ofStatuses kind t item) := by
  cases history : item.hasHistory with
  | false =>
    refine ⟨⟨item, none, none⟩, ?_, ?_⟩
    · simp [ofItem, history]
    · simp [fill, ofStatuses, history]
  | true =>
    obtain ⟨member, undone⟩ := @withAddition_undone kind t item sound legal
    have filled := @fillFrom_eq kind t item sound legal [] t.releases _ rfl undone.pending
      (exists_action legal history)
    refine ⟨_, ofItem_eq sound legal history, ?_⟩
    rw [List.map_nil, List.nil_append] at filled
    simp [fill, ofStatuses, history, filled, bind, Except.bind, pure, Except.pure]

section Statuses

variable {kind : Kind} {t : Timeline} {item : Item} (sound : t.Sound) {r : Release} (member : r ∈ t.releases)
include sound member

theorem statusAt_ofStatuses : (ofStatuses kind t item).statusAt r = .ok (item.statusIn kind t r) := by
  cases history : item.hasHistory with
  | false =>
    rw [Item.statusIn_of_no_history history]
    simp [statusAt, ofStatuses, history]
  | true =>
    have ascending : (t.releases.map (item.entryIn kind t)).Pairwise (·.1 < ·.1) :=
      List.pairwise_map.mpr (sound.ordered.imp Int.ofNat_lt.mpr)
    have found := Ranked.get?_of_mem ascending (List.mem_map_of_mem member : item.entryIn kind t r ∈ _)
    simp [statusAt, ofStatuses, history, found]

/-- A filled chain has one status at the rank of a version, the one of that version. -/
theorem single_of_ofStatuses {statuses : Ranked Status}
    (filled : (ofStatuses kind t item).statuses = some statuses) :
    statuses.filter (·.1 == (r.rank : Int)) = [item.entryIn kind t r] := by
  simp only [ofStatuses] at filled
  split at filled
  · cases filled
    obtain ⟨before, after, split⟩ := List.append_of_mem member
    obtain ⟨_, lower, higher⟩ := sound.split_rank split
    have early : (before.map (item.entryIn kind t)).filter (·.1 == (r.rank : Int)) = [] := by
      rw [List.filter_eq_nil_iff]
      intro e listed
      obtain ⟨s, there, rfl⟩ := List.mem_map.mp listed
      have less := lower s there
      simp only [Item.entryIn, beq_iff_eq]
      omega
    have late : (after.map (item.entryIn kind t)).filter (·.1 == (r.rank : Int)) = [] := by
      rw [List.filter_eq_nil_iff]
      intro e listed
      obtain ⟨s, there, rfl⟩ := List.mem_map.mp listed
      have greater := higher s there
      simp only [Item.entryIn, beq_iff_eq]
      omega
    have here : ((item.entryIn kind t r).1 == (r.rank : Int)) = true := beq_self_eq_true _
    rw [split, List.map_append, List.map_cons, List.filter_append, early, List.nil_append,
      List.filter_cons, if_pos here, late]
  · cases filled

end Statuses

/-- The chains of a validated container are those of the statuses of its items. -/
theorem ofContainer_eq {unsorted : Option Bool} {c : Container} {v : Validated}
    (valid : c.validate unsorted = .ok v) :
    ofContainer v = .ok (c.items.map (ofStatuses c.kind v.timeline)) := by
  obtain ⟨rfl, sound, _, legal⟩ := Container.validate_legal valid
  refine mapM_eq_ok_map fun item member => ?_
  obtain ⟨chain, made, filled⟩ := @fill_ofItem v.container.kind v.timeline item sound (legal item member)
  rw [made]
  exact congrArg (fun filled : Except Fault Chain => (liftM filled : Except Failure Chain)) filled

/-- Once it is filled, the chain of every item of a validated container has exactly one status in
every declared version, the one that is read off the history of the item. -/
theorem exactly_one_status {unsorted : Option Bool} {c : Container} {v : Validated}
    (valid : c.validate unsorted = .ok v) :
    v.timeline.names = c.versions.map (·.name) ∧
      ∃ chains, ofContainer v = .ok chains ∧
        List.Forall₂ (fun item chain => ∀ r ∈ v.timeline.releases,
          chain.statusAt r = .ok (item.statusIn c.kind v.timeline r) ∧
            ∀ statuses, chain.statuses = some statuses →
              statuses.filter (·.1 == (r.rank : Int)) = [((r.rank : Int), item.statusIn c.kind v.timeline r)])
          c.items chains := by
  obtain ⟨_, sound, _, _⟩ := Container.validate_legal valid
  refine ⟨Container.names_of_validate valid, _, ofContainer_eq valid, ?_⟩
  rw [List.forall₂_map_right_iff, List.forall₂_same]
  intro item _ r member
  exact ⟨statusAt_ofStatuses sound member, fun statuses filled =>
    single_of_ofStatuses sound member filled⟩

/-- A container whose versions are not sorted, with an item that has every kind of action. -/
def gauge : Container where
  name := "Gauge"
  kind := .struct
  doc := none
  versions := ["v1beta1", "v1alpha1", "v1", "v2", "v3"].map Declaration.named
  items := [⟨"deprecated_level", some "int", none, none, false, some ⟨"v1alpha1", none, none, none⟩,
    [⟨"v1", some "height", some "str", none, none⟩], some ⟨"v2", some "unused"⟩⟩,
    ⟨"unit", some "str", none, none, false, none, [⟨"v1", some "scale", none, none, none⟩], none⟩]
  options := ⟨true, false⟩
  resource := none

/-- A gauge with a field that is added, renamed and deprecated has one status for every field and version. -/
theorem exactly_one_status_gauge :
    ∃ v, gauge.validate none = .ok v ∧ v.timeline.names = gauge.versions.map (·.name) ∧
      ∃ chains, ofContainer v = .ok chains ∧
        List.Forall₂ (fun item chain => ∀ r ∈ v.timeline.releases,
          chain.statusAt r = .ok (item.statusIn gauge.kind v.timeline r) ∧
            ∀ statuses, chain.statuses = some statuses →
              statuses.filter (·.1 == (r.rank : Int)) =
                [((r.rank : Int), item.statusIn gauge.kind v.timeline r)])
          gauge.items chains := by
  have succeeds : (gauge.validate none).isOk = true := by decide +kernel
  obtain ⟨v, valid⟩ := exists_of_isOk succeeds
  exact ⟨v, valid, exactly_one_status valid⟩

end Chain

end Lineage
