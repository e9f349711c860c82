import Lineage.Proofs.Conversion.Run
import Lineage.Proofs.Entries

namespace Lineage

/-- Values that are dropped, with their paths from some place on. -/
abbrev Drops := List (String × Value)

namespace Drops

/-- The paths of dropped values. -/
def paths (drops : Drops) : List String :=
  drops.map (·.1)

/-- Dropped values as a tracker records them at a place. -/
def under (place : String) (drops : Drops) : Entries Value Value :=
  drops.map fun d => (.text (place ++ d.1), d.2)

/-- Dropped values whose paths start further out. -/
def behind (lead : String) (drops : Drops) : Drops :=
  drops.map fun d => (lead ++ d.1, d.2)

/-- The dropped values of the items of a list, each behind its index. -/
def indexed : (index : Nat) → List Drops → Drops
  | _, [] => []
  | index, drops :: rest => behind ("[" ++ toString index ++ "]") drops ++ indexed (index + 1) rest

variable {place lead : String} {drops more : Drops}

@[simp] theorem under_append : under place (drops ++ more) = under place drops ++ under place more :=
  List.map_append

@[simp] theorem paths_append : paths (drops ++ more) = paths drops ++ paths more :=
  List.map_append

theorem under_behind : under place (behind lead drops) = under (place ++ lead) drops := by
  simp only [under, behind, List.map_map, Function.comp_def, String.append_assoc]

theorem paths_behind : paths (behind lead drops) = (paths drops).map (lead ++ ·) := by
  simp only [paths, behind, List.map_map, Function.comp_def]

theorem mem_under {e : Value × Value} :
    e ∈ under place drops ↔ ∃ d ∈ drops, (Value.text (place ++ d.1), d.2) = e :=
  List.mem_map

theorem append_left_cancel {left right : String} (same : lead ++ left = lead ++ right) : left = right := by
  have chars := congrArg String.toList same
  rw [String.toList_append, String.toList_append] at chars
  exact String.toList_injective (List.append_cancel_left chars)

/-- Dropped values of different paths are recorded apart. -/
theorem not_mem_under {e : Value × Value} (distinct : (paths (drops ++ more)).Nodup)
    (member : e ∈ under place drops) : e ∉ under place more := by
  obtain ⟨d, listed, rfl⟩ := mem_under.mp member
  intro other
  obtain ⟨d', listed', same⟩ := mem_under.mp other
  have paths : d'.1 = d.1 := append_left_cancel (Value.text.inj (Prod.mk.inj same).1)
  rw [paths_append, List.nodup_append] at distinct
  exact distinct.2.2 d.1 (List.mem_map_of_mem listed) d'.1 (List.mem_map_of_mem listed') paths.symm

theorem under_nodup (distinct : (paths drops).Nodup) : ((under place drops).map (·.1)).Nodup := by
  have keys : (under place drops).map (·.1) = (paths drops).map fun path => Value.text (place ++ path) := by
    simp only [under, paths, List.map_map, Function.comp_def]
  rw [keys]
  exact distinct.map fun left right same => append_left_cancel (Value.text.inj same)

end Drops

/-- Whether exactly some dropped values were taken out of a tracker. -/
structure Tracker.Frees (t : Tracker) (dropped : Entries Value Value) (u : Tracker) : Prop where
  distinct : (u.values.map (·.1)).Nodup
  mem_iff : ∀ e, e ∈ u.values ↔ e ∈ t.values ∧ e ∉ dropped

namespace Tracker.Frees

variable {t u v : Tracker} {dropped more : Entries Value Value}

theorem nothing (distinct : (t.values.map (·.1)).Nodup) : t.Frees [] t :=
  ⟨distinct, fun e => by simp⟩

/-- Values taken out one after the other are taken out together. -/
theorem trans (first : t.Frees dropped u) (second : u.Frees more v) : t.Frees (dropped ++ more) v := by
  refine ⟨second.distinct, fun e => ?_⟩
  rw [second.mem_iff, first.mem_iff, List.mem_append, not_or, and_assoc]

/-- Other values can still be taken out. -/
theorem subset (frees : t.Frees dropped u) (inside : more ⊆ t.values) (apart : ∀ e ∈ more, e ∉ dropped) :
    more ⊆ u.values :=
  fun e member => (frees.mem_iff e).mpr ⟨inside member, apart e member⟩

theorem congr (frees : t.Frees dropped u) (same : ∀ e, e ∈ more ↔ e ∈ dropped) : t.Frees more u :=
  ⟨frees.distinct, fun e => by rw [frees.mem_iff, same]⟩

end Tracker.Frees

namespace Conversion

/-- Whether a conversion down makes a value of another and records what it drops, and one up makes the other
value of it again, up to the order of entries, and takes out of a tracker what was recorded. -/
structure Restores (down up : Value → (place : String) → Run Value) (v w : Value) (drops : Drops) : Prop where
  down : ∀ place (p : Progress) t, p.tracker = some t → ∃ q, down v place p = (.ok w, q) ∧
    q.tracker = some ⟨Entries.putAll t.values (drops.under place)⟩
  up : ∀ w', w'.Alike w → ∃ v', v'.Alike v ∧ ∀ place (p : Progress) t, p.tracker = some t →
    (t.values.map (·.1)).Nodup → drops.under place ⊆ t.values →
    ∃ q u, up w' place p = (.ok v', q) ∧ q.tracker = some u ∧ t.Frees (drops.under place) u

namespace Restores

variable {down up down' up' : Value → (place : String) → Run Value} {v w x : Value} {drops more : Drops}

theorem nothing {v : Value} (idle : ∀ place, down v place = pure v)
    (back : ∀ v', v'.Alike v → ∀ place, up v' place = pure v') : Restores down up v v [] := by
  refine ⟨fun place p t tracked => ⟨p, ?_, tracked⟩, fun v' alike => ⟨v', alike, ?_⟩⟩
  · rw [idle]
    rfl
  · intro place p t tracked distinct _
    refine ⟨p, t, ?_, tracked, .nothing distinct⟩
    rw [back v' alike]
    rfl

/-- What two conversions drop one after the other is restored in the reverse order. -/
theorem trans (first : Restores down up v w drops) (second : Restores down' up' w x more)
    (distinct : (drops ++ more).paths.Nodup) :
    Restores (fun v place => down v place >>= (down' · place)) (fun x place => up' x place >>= (up · place))
      v x (drops ++ more) := by
  refine ⟨fun place p t tracked => ?_, fun x' alike => ?_⟩
  · obtain ⟨q, run, left⟩ := first.down place p t tracked
    obtain ⟨r, run', left'⟩ := second.down place q _ left
    refine ⟨r, (Run.bind_of_ok run).trans run', ?_⟩
    rw [left', Drops.under_append, Entries.putAll_append]
  · obtain ⟨w', alike', back⟩ := second.up x' alike
    obtain ⟨v', alike'', back'⟩ := first.up w' alike'
    refine ⟨v', alike'', fun place p t tracked single inside => ?_⟩
    rw [Drops.under_append] at inside ⊢
    have within := List.append_subset.mp inside
    obtain ⟨q, u, run, left, frees⟩ := back place p t tracked single within.2
    have still : drops.under place ⊆ u.values :=
      frees.subset within.1 fun e member => Drops.not_mem_under distinct member
    obtain ⟨r, u', run', left', frees'⟩ := back' place q u left frees.distinct still
    refine ⟨r, u', (Run.bind_of_ok run).trans run', left', (frees.trans frees').congr fun e => ?_⟩
    rw [List.mem_append, List.mem_append, or_comm]

section Items

variable {vs : List Value} {made : List (Value × Drops)} {index : Nat}
  (each : List.Forall₂ (fun v m => Restores down up v m.1 m.2) vs made)
include each

/-- On the way down all items record what they drop, each under its index. -/
theorem nestedItems_down (place : String) (p : Progress) (t : Tracker) (tracked : p.tracker = some t) :
    ∃ q, nestedItems down place index vs p = (.ok (made.map (·.1)), q) ∧
      q.tracker = some ⟨Entries.putAll t.values (Drops.under place (Drops.indexed index (made.map (·.2))))⟩ := by
  induction each generalizing index p t with
  | nil => exact ⟨p, rfl, tracked⟩
  | @cons v m vs made first rest ih =>
    obtain ⟨q, run, left⟩ := first.down s!"{place}[{index}]" p t tracked
    obtain ⟨r, runs, last⟩ := @ih (index + 1) q _ left
    refine ⟨r, ?_, ?_⟩
    · rw [nestedItems, Run.bind_of_ok run, Run.bind_of_ok runs]
      rfl
    · rw [last, List.map_cons, Drops.indexed, Drops.under_append, Entries.putAll_append, Drops.under_behind]
      simp only [String.append_assoc]
      rfl

/-- On the way up all items take out again what they have recorded. -/
theorem nestedItems_up (distinct : (Drops.indexed index (made.map (·.2))).paths.Nodup) {ws : List Value}
    (alike : List.Forall₂ Value.Alike ws (made.map (·.1))) :
    ∃ vs', List.Forall₂ Value.Alike vs' vs ∧ ∀ place (p : Progress) t, p.tracker = some t →
      (t.values.map (·.1)).Nodup → Drops.under place (Drops.indexed index (made.map (·.2))) ⊆ t.values →
      ∃ q u, nestedItems up place index ws p = (.ok vs', q) ∧ q.tracker = some u ∧
        t.Frees (Drops.under place (Drops.indexed index (made.map (·.2)))) u := by
  induction each generalizing index ws with
  | nil =>
    cases alike
    exact ⟨[], .nil, fun place p t tracked single _ => ⟨p, t, rfl, tracked, .nothing single⟩⟩
  | @cons v m vs made first rest ih =>
    rw [List.map_cons] at alike
    obtain ⟨w, ws, here, later, rfl⟩ : ∃ w ws', Value.Alike w m.1 ∧
        List.Forall₂ Value.Alike ws' (made.map (·.1)) ∧ ws = w :: ws' := by
      cases alike with
      | cons here later => exact ⟨_, _, here, later, rfl⟩
    rw [List.map_cons, Drops.indexed] at distinct ⊢
    obtain ⟨v', alike', back⟩ := first.up w here
    have others := distinct
    rw [Drops.paths_append, List.nodup_append] at others
    obtain ⟨vs', alikes, backs⟩ := ih others.2.1 later
    refine ⟨v' :: vs', .cons alike' alikes, fun place p t tracked single inside => ?_⟩
    have lead : place ++ ("[" ++ toString index ++ "]") = s!"{place}[{index}]" := by
      simp only [String.append_assoc]
      rfl
    rw [Drops.under_append, Drops.under_behind, lead] at inside ⊢
    have within := List.append_subset.mp inside
    obtain ⟨q, u, run, left, frees⟩ := back _ p t tracked single within.1
    have still : Drops.under place (Drops.indexed (index + 1) (made.map (·.2))) ⊆ u.values := by
      refine frees.subset within.2 fun e member early => ?_
      rw [← lead, ← Drops.under_behind] at early
      exact Drops.not_mem_under distinct early member
    obtain ⟨r, u', runs, last, frees'⟩ := backs place q u left frees.distinct still
    refine ⟨r, u', ?_, last, frees.trans frees'⟩
    rw [nestedItems, Run.bind_of_ok run, Run.bind_of_ok runs]
    rfl

end Items

end Restores

end Conversion

end Lineage
