import Mathlib.Data.List.NodupEquivFin
import Lineage.Proofs.Lifecycle

namespace Lineage

section Places

variable {α : Type} [DecidableEq α] {xs ys : List α} (sub : xs.Sublist ys) (distinct : ys.Nodup)
include sub distinct

/-- What stands first among some elements of a list stands first in the list. -/
theorem idxOf_lt_idxOf_of_sublist {x y : α} (atX : x ∈ xs) (atY : y ∈ xs) :
    ys.idxOf x < ys.idxOf y ↔ xs.idxOf x < xs.idxOf y := by
  obtain ⟨place, same⟩ := List.sublist_iff_exists_orderEmbedding_getElem?_eq.mp sub
  have moved : ∀ z ∈ xs, ys.idxOf z = place (xs.idxOf z) := by
    intro z atZ
    have bound := List.idxOf_lt_length_iff.mpr atZ
    have there : ys[place (xs.idxOf z)]? = some z := by
      rw [← same, List.getElem?_eq_getElem bound, List.getElem_idxOf bound]
    obtain ⟨within, atPlace⟩ := List.getElem?_eq_some_iff.mp there
    have index := distinct.idxOf_getElem (place (xs.idxOf z)) within
    rwa [atPlace] at index
  rw [moved x atX, moved y atY]
  exact place.lt_iff_lt

end Places

namespace Timeline.Sound

variable {t u : Timeline} (sound : t.Sound) (other : u.Sound) (sub : t.names.Sublist u.names)
include sound other sub

/-- Versions that another timeline has too come one after the other there as they do here. -/
theorem rankOf_lt_of_sublist {r s : Release} (atR : r ∈ t.releases) (atS : s ∈ t.releases) :
    u.rankOf r.name < u.rankOf s.name ↔ r.rank < s.rank := by
  have named : ∀ r ∈ t.releases, r.name ∈ t.names := fun r member => List.mem_map_of_mem member
  rw [other.rankOf_eq_idxOf (sub.subset (named r atR)), other.rankOf_eq_idxOf (sub.subset (named s atS)),
    idxOf_lt_idxOf_of_sublist sub other.distinct (named r atR) (named s atS),
    ← sound.rankOf_eq_idxOf (named r atR), ← sound.rankOf_eq_idxOf (named s atS),
    sound.rankOf_name atR, sound.rankOf_name atS]

/-- Where one version stands between two others it does so in the other timeline. -/
theorem exists_of_sublist {r m s : Release} (atR : r ∈ t.releases) (atM : m ∈ t.releases)
    (atS : s ∈ t.releases)
    (through : r.rank ≤ m.rank ∧ m.rank ≤ s.rank ∨ s.rank ≤ m.rank ∧ m.rank ≤ r.rank) :
    ∃ r' ∈ u.releases, ∃ m' ∈ u.releases, ∃ s' ∈ u.releases,
      r'.name = r.name ∧ m'.name = m.name ∧ s'.name = s.name ∧
      (r'.rank ≤ m'.rank ∧ m'.rank ≤ s'.rank ∨ s'.rank ≤ m'.rank ∧ m'.rank ≤ r'.rank) := by
  have named : ∀ r ∈ t.releases, ∃ r' ∈ u.releases, r'.name = r.name ∧ r'.rank = u.rankOf r.name := by
    intro r atR
    obtain ⟨r', there, _, same, rank⟩ := other.get_of_mem (sub.subset (List.mem_map_of_mem atR))
    exact ⟨r', there, same, rank⟩
  have orderly : ∀ {r s : Release}, r ∈ t.releases → s ∈ t.releases → r.rank ≤ s.rank →
      u.rankOf r.name ≤ u.rankOf s.name := by
    intro r s atR atS le
    rw [← Nat.not_lt, sound.rankOf_lt_of_sublist other sub atS atR]
    omega
  obtain ⟨r', inR, nameR, rankR⟩ := named r atR
  obtain ⟨m', inM, nameM, rankM⟩ := named m atM
  obtain ⟨s', inS, nameS, rankS⟩ := named s atS
  refine ⟨r', inR, m', inM, s', inS, nameR, nameM, nameS, ?_⟩
  rw [rankR, rankM, rankS]
  rcases through with ⟨one, two⟩ | ⟨two, one⟩
  · exact Or.inl ⟨orderly atR atM one, orderly atM atS two⟩
  · exact Or.inr ⟨orderly atS atM two, orderly atM atR one⟩

end Timeline.Sound

/-- The rules for the history of an item only look at the order of the versions that it names. -/
theorem Item.WellFormed.of_sublist {names versions : List String} {kind : Kind} {item : Item}
    (well : item.WellFormed names kind) (sub : names.Sublist versions) (distinct : versions.Nodup) :
    item.WellFormed versions kind := by
  have order : ∀ x ∈ names, ∀ y ∈ names, names.idxOf x < names.idxOf y →
      versions.idxOf x < versions.idxOf y := by
    intro x atX y atY less
    exact (idxOf_lt_idxOf_of_sublist sub distinct atX atY).mpr less
  have atAdded := declared_added well.declared
  have atChange := declared_changed well.declared
  have atDeprecated := declared_deprecated well.declared
  refine { well with
    declared := fun since action => sub.subset (well.declared since action)
    added_first := fun a added c changed =>
      order _ (atAdded a added) _ (atChange c changed) (well.added_first a added c changed)
    deprecated_last := fun d deprecated c changed =>
      order _ (atChange c changed) _ (atDeprecated d deprecated) (well.deprecated_last d deprecated c changed)
    added_before_deprecated := fun a added d deprecated =>
      order _ (atAdded a added) _ (atDeprecated d deprecated) (well.added_before_deprecated a added d deprecated)
    changes_apart := ?_ }
  have places : item.changes.map (fun c => names.idxOf c.since) =
      (item.changes.map (·.since)).map names.idxOf := by rw [List.map_map]; rfl
  have apart := well.changes_apart
  rw [places] at apart
  rw [← Function.comp_def versions.idxOf Change.since, ← List.map_map]
  refine (apart.of_map _).map_on fun x atX y _ same => ?_
  obtain ⟨c, changed, rfl⟩ := List.mem_map.mp atX
  exact (List.idxOf_inj (sub.subset (atChange c changed))).mp same

end Lineage
