import Mathlib.Data.List.Nodup
import Lineage.Proofs.Timeline
import Lineage.Proofs.WellFormed

namespace Lineage

/-- What the rules leave of the history of an item: its actions take effect in declared versions,
first the addition, then the changes, each in a version of its own, and last the deprecation. -/
structure Item.Legal (t : Timeline) (item : Item) : Prop where
  declared : ∀ name ∈ item.actions.map (·.2), name ∈ t.names
  added_first : ∀ a ∈ item.added, ∀ c ∈ item.changes, t.rankOf a.since < t.rankOf c.since
  deprecated_last : ∀ d ∈ item.deprecated, ∀ c ∈ item.changes, t.rankOf c.since < t.rankOf d.since
  added_before_deprecated :
    ∀ a ∈ item.added, ∀ d ∈ item.deprecated, t.rankOf a.since < t.rankOf d.since
  changes_apart : (item.changes.map (·.since)).Nodup

theorem Timeline.Sound.rankOf_eq_idxOf {t : Timeline} (sound : t.Sound) {name : String}
    (declared : name ∈ t.names) : t.rankOf name = t.names.idxOf name := by
  obtain ⟨r, member, rfl⟩ := List.mem_map.mp declared
  have bound : r.rank < t.names.length := by
    rw [Timeline.names, List.length_map]
    exact sound.rank_lt member
  have named : t.names[r.rank] = r.name := by
    obtain ⟨_, atRank⟩ := List.getElem?_eq_some_iff.mp (sound.at_rank member)
    simp only [Timeline.names, List.getElem_map, atRank]
  rw [sound.rankOf_name member, ← named, sound.distinct.idxOf_getElem]

/-- The rules judge actions by where their versions are declared, which is their rank. -/
theorem Item.WellFormed.legal {t : Timeline} (sound : t.Sound) {kind : Kind} {item : Item}
    (well : item.WellFormed t.names kind) : item.Legal t := by
  have atAdded := fun a added => sound.rankOf_eq_idxOf (declared_added well.declared a added)
  have atChange := fun c changed => sound.rankOf_eq_idxOf (declared_changed well.declared c changed)
  have atDeprecated := fun d deprecated =>
    sound.rankOf_eq_idxOf (declared_deprecated well.declared d deprecated)
  refine ⟨well.declared, fun a added c changed => ?_, fun d deprecated c changed => ?_,
    fun a added d deprecated => ?_, ?_⟩
  · rw [atAdded a added, atChange c changed]
    exact well.added_first a added c changed
  · rw [atChange c changed, atDeprecated d deprecated]
    exact well.deprecated_last d deprecated c changed
  · rw [atAdded a added, atDeprecated d deprecated]
    exact well.added_before_deprecated a added d deprecated
  · have apart := well.changes_apart
    rw [← Function.comp_def t.names.idxOf Change.since, ← List.map_map] at apart
    exact apart.of_map _

namespace Container

variable {unsorted : Option Bool} {c : Container} {v : Validated} (valid : c.validate unsorted = .ok v)
include valid

theorem wellFormed_of_validate : c.WellFormed (unsorted.getD c.options.allowUnsorted) ∧
    v = ⟨c, ⟨Timeline.releasesFrom 0 c.versions⟩⟩ := by
  by_cases well : c.WellFormed (unsorted.getD c.options.allowUnsorted)
  · rw [validate_of_wellFormed well] at valid
    exact ⟨well, (Except.ok.inj valid).symm⟩
  · rw [validate_of_not_wellFormed well] at valid
    cases valid

theorem names_of_validate : v.timeline.names = c.versions.map (·.name) := by
  obtain ⟨well, rfl⟩ := wellFormed_of_validate valid
  exact (Timeline.sound_of_checkDeclarations well.versions).2.1

theorem parsed_of_validate {name : String} (declared : name ∈ v.timeline.names) :
    ∃ version, Version.parse (some name) = .ok version := by
  rw [names_of_validate valid] at declared
  obtain ⟨d, member, rfl⟩ := List.mem_map.mp declared
  obtain ⟨well, _⟩ := wellFormed_of_validate valid
  exact (checkDeclarations_eq_nil well.versions).2.1 d member

/-- A validated container: its timeline is sound and not empty, and all histories are legal. -/
theorem validate_legal : v.container = c ∧ v.timeline.Sound ∧ v.timeline.releases ≠ [] ∧
    ∀ item ∈ c.items, item.Legal v.timeline := by
  have named := names_of_validate valid
  obtain ⟨well, rfl⟩ := wellFormed_of_validate valid
  obtain ⟨sound, _, nonempty⟩ := Timeline.sound_of_checkDeclarations well.versions
  refine ⟨rfl, sound, nonempty, fun item member => ?_⟩
  have rules := well.items item member
  rw [← named] at rules
  exact rules.legal sound

end Container

end Lineage
