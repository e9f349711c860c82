import Mathlib.Data.List.Forall2
import Lineage.Proofs.Timeline
import Lineage.Proofs.Version.Order

namespace Lineage

/-- Whether the names of declarations are read as versions, one after the other. -/
def Declaration.ReadAs (ds : List Declaration) (vs : List Version) : Prop :=
  List.Forall₂ (fun d v => Version.parse (some d.name) = .ok v) ds vs

namespace Declaration.ReadAs

variable {ds : List Declaration} {vs : List Version}

theorem exists_of_parse (parsed : ∀ d ∈ ds, ∃ version, Version.parse (some d.name) = .ok version) :
    ∃ vs, ReadAs ds vs := by
  induction ds with
  | nil => exact ⟨[], .nil⟩
  | cons d rest ih =>
    obtain ⟨version, read⟩ := parsed d (List.mem_cons_self ..)
    obtain ⟨vs, later⟩ := ih fun e member => parsed e (List.mem_cons_of_mem _ member)
    exact ⟨version :: vs, .cons read later⟩

variable (read : ReadAs ds vs)
include read

theorem releasesFrom_version (rank : Nat) : (Timeline.releasesFrom rank ds).map (·.version) = vs := by
  induction read generalizing rank with
  | nil => rfl
  | cons first _ ih =>
    simp only [Timeline.releasesFrom, first, List.map_cons, ih]
    rfl

/-- The names and versions that the check of the order looks at, of which none is missing. -/
theorem named_eq : (ds.map fun d => (d.name, Version.parse (some d.name))).filterMap
    (fun (name, outcome) => outcome.toOption.map ((name, ·))) = (ds.map (·.name)).zip vs := by
  induction read with
  | nil => rfl
  | cons first _ ih =>
    rw [List.map_cons, first]
    exact congrArg (_ :: ·) ih

theorem exists_of_mem {e : String × Except VersionFault Version}
    (member : e ∈ ds.map fun d => (d.name, Version.parse (some d.name))) : ∃ v, e.2 = .ok v := by
  induction read with
  | nil => cases member
  | cons first _ ih =>
    rcases List.mem_cons.mp member with rfl | later
    · exact ⟨_, first⟩
    · exact ih later

theorem map_parse : (ds.map (·.name)).map (fun name => Version.parse (some name)) = vs.map .ok := by
  induction read with
  | nil => rfl
  | cons first _ ih => rw [List.map_cons, List.map_cons, first, ih, List.map_cons]

theorem versions_nodup_iff_parse :
    vs.Nodup ↔ ((ds.map (·.name)).map fun name => Version.parse (some name)).Nodup := by
  rw [read.map_parse, List.nodup_map_iff fun _ _ same => Except.ok.inj same]

/-- Names of different versions are different. -/
theorem names_nodup (distinct : vs.Nodup) : (ds.map (·.name)).Nodup :=
  (read.versions_nodup_iff_parse.mp distinct).of_map _

/-- Among different names, no version occurs twice exactly if no two names stand for the same one. -/
theorem versions_nodup_iff (distinct : (ds.map (·.name)).Nodup) : vs.Nodup ↔
    ∀ a ∈ ds.map (·.name), ∀ b ∈ ds.map (·.name),
      Version.parse (some a) = Version.parse (some b) → a = b := by
  rw [read.versions_nodup_iff_parse, List.nodup_map_iff_inj_on distinct]

end Declaration.ReadAs

/-- Names that are all different stand where they would in ascending order exactly if their versions do. -/
theorem misplaced?_eq_none_iff {named : List (String × Version)} (distinct : (named.map (·.1)).Nodup) :
    misplaced? named = none ↔ named.Pairwise fun a b => a.2.place ≤ b.2.place := by
  simp only [misplaced?, Option.map_eq_none_iff, List.find?_eq_none, bne_iff_ne, not_not]
  constructor
  · intro placed
    have same : named = Version.ascending named := by
      have length := (Version.ascending_perm named).length_eq
      refine List.ext_getElem length.symm fun i left right => ?_
      have inside : i < (named.zip (Version.ascending named)).length := by
        rw [List.length_zip, length, Nat.min_self]
        exact left
      have name := placed _ (List.getElem_mem inside)
      rw [List.getElem_zip] at name
      exact List.inj_on_of_nodup_map distinct (List.getElem_mem left)
        ((Version.ascending_perm named).mem_iff.mp (List.getElem_mem right)) name
    rw [same]
    exact Version.pairwise_ascending named
  · intro ordered pair member
    rw [Version.ascending_of_pairwise ordered] at member
    obtain ⟨i, _, rfl⟩ := List.mem_iff_getElem.mp member
    rw [List.getElem_zip]

section Accepted

variable {unsorted : Bool} {ds : List Declaration} {vs : List Version}

theorem checkDeclarations_of_readAs (nonempty : ds ≠ []) (distinct : (ds.map (·.name)).Nodup)
    (read : Declaration.ReadAs ds vs) : checkDeclarations unsorted ds =
      if unsorted then []
      else (misplaced? ((ds.map (·.name)).zip vs)).toList.map Problem.versionsUnsorted := by
  have single : repeated (ds.map (·.name)) = [] := repeated_eq_nil_iff.mpr distinct
  simp only [checkDeclarations, List.isEmpty_iff, nonempty, if_false, read.named_eq, single, if_true]
  rw [List.filterMap_eq_nil_iff.mpr]
  · cases unsorted <;> rfl
  · intro e member
    obtain ⟨v, parsed⟩ := read.exists_of_mem member
    rw [parsed]

theorem misplaced?_zip_eq_none_iff (distinct : (ds.map (·.name)).Nodup)
    (read : Declaration.ReadAs ds vs) :
    misplaced? ((ds.map (·.name)).zip vs) = none ↔ vs.Pairwise fun a b => a.place ≤ b.place := by
  have length : (ds.map (·.name)).length = vs.length := by
    rw [List.length_map]
    exact read.length_eq
  have names : ((ds.map (·.name)).zip vs).map (·.1) = ds.map (·.name) := List.map_fst_zip length.le
  have versions : ((ds.map (·.name)).zip vs).map (·.2) = vs := List.map_snd_zip length.ge
  rw [misplaced?_eq_none_iff (names.symm ▸ distinct)]
  conv_rhs => rw [← versions, List.pairwise_map]

/-- Declarations are accepted exactly if there are some, all names are read as versions, none is declared
twice and, unless any order will do, no version comes before one that is declared before it. -/
theorem checkDeclarations_eq_nil_iff : checkDeclarations unsorted ds = [] ↔
    ds ≠ [] ∧ (ds.map (·.name)).Nodup ∧ ∃ vs, Declaration.ReadAs ds vs ∧
      (unsorted = false → vs.Pairwise fun a b => a.place ≤ b.place) := by
  have checked : ∀ vs, ds ≠ [] → (ds.map (·.name)).Nodup → Declaration.ReadAs ds vs →
      (checkDeclarations unsorted ds = [] ↔
        (unsorted = false → vs.Pairwise fun a b => a.place ≤ b.place)) := by
    intro vs nonempty distinct read
    rw [checkDeclarations_of_readAs nonempty distinct read, ← misplaced?_zip_eq_none_iff distinct read]
    cases unsorted <;> simp
  constructor
  · intro clean
    obtain ⟨nonempty, parsed, distinct⟩ := checkDeclarations_eq_nil clean
    obtain ⟨vs, read⟩ := Declaration.ReadAs.exists_of_parse parsed
    exact ⟨nonempty, distinct, vs, read, (checked vs nonempty distinct read).mp clean⟩
  · rintro ⟨nonempty, distinct, vs, read, ordered⟩
    exact (checked vs nonempty distinct read).mpr ordered

end Accepted

namespace Timeline

/-- Whether no two names of a timeline stand for the same version. -/
def Distinguishes (t : Timeline) : Prop :=
  (t.releases.map (·.version)).Nodup

variable {unsorted : Bool} {container : String} {ds : List Declaration} {vs : List Version} {t : Timeline}

theorem ofDeclarations_eq_ok_iff : ofDeclarations unsorted container ds = .ok t ↔
    checkDeclarations unsorted ds = [] ∧ t = ⟨releasesFrom 0 ds⟩ := by
  unfold ofDeclarations
  split <;> simp_all [eq_comm]

theorem distinguishes_iff (read : Declaration.ReadAs ds vs) :
    Distinguishes ⟨releasesFrom 0 ds⟩ ↔ vs.Nodup := by
  rw [Distinguishes, read.releasesFrom_version]

theorem exists_ofDeclarations_iff : (∃ t, ofDeclarations unsorted container ds = .ok t) ↔
    checkDeclarations unsorted ds = [] := by
  simp [ofDeclarations_eq_ok_iff]

/-- Versions are accepted and told apart exactly if they are read, differ and stand in order. -/
theorem exists_distinguishing_iff :
    (∃ t, ofDeclarations unsorted container ds = .ok t ∧ t.Distinguishes) ↔
      ds ≠ [] ∧ ∃ vs, Declaration.ReadAs ds vs ∧ vs.Nodup ∧
        (unsorted = false → vs.Pairwise fun a b => a.place ≤ b.place) := by
  simp only [ofDeclarations_eq_ok_iff, checkDeclarations_eq_nil_iff]
  constructor
  · rintro ⟨_, ⟨⟨nonempty, _, vs, read, ordered⟩, rfl⟩, apart⟩
    exact ⟨nonempty, vs, read, (distinguishes_iff read).mp apart, ordered⟩
  · rintro ⟨nonempty, vs, read, distinct, ordered⟩
    exact ⟨_, ⟨⟨nonempty, read.names_nodup distinct, vs, read, ordered⟩, rfl⟩,
      (distinguishes_iff read).mpr distinct⟩

/-- Versions that differ stand in order exactly if each comes before the later ones. -/
theorem ascending_iff : vs.Nodup ∧ (vs.Pairwise fun a b => a.place ≤ b.place) ↔
    vs.Pairwise fun a b => a.before b = true := by
  rw [List.Nodup, ← List.pairwise_and_iff]
  refine List.Pairwise.iff fun a b => ?_
  rw [Version.before_iff, lt_iff_le_and_ne, Version.place_injective.ne_iff, and_comm]

/-- When declarations become a timeline. Names are told apart as they are spelled, so that the versions of a
timeline are told apart too exactly if no version is declared under two names; with that they have to be
read, to differ and, unless any order will do, to ascend. -/
theorem ofDeclarations_decides (container : String) (ds : List Declaration) :
    ((∃ t, ofDeclarations false container ds = .ok t) ↔ ds ≠ [] ∧ (ds.map (·.name)).Nodup ∧
      ∃ vs, Declaration.ReadAs ds vs ∧ vs.Pairwise fun a b => a.before b = true ∨ a = b) ∧
    ((∃ t, ofDeclarations true container ds = .ok t) ↔ ds ≠ [] ∧ (ds.map (·.name)).Nodup ∧
      ∃ vs, Declaration.ReadAs ds vs) ∧
    ((∃ t, ofDeclarations false container ds = .ok t ∧ t.Distinguishes) ↔
      ds ≠ [] ∧ ∃ vs, Declaration.ReadAs ds vs ∧ vs.Pairwise fun a b => a.before b = true) ∧
    ((∃ t, ofDeclarations true container ds = .ok t ∧ t.Distinguishes) ↔
      ds ≠ [] ∧ ∃ vs, Declaration.ReadAs ds vs ∧ vs.Nodup) ∧
    ∀ unsorted t, ofDeclarations unsorted container ds = .ok t → (t.Distinguishes ↔
      ∀ a ∈ ds.map (·.name), ∀ b ∈ ds.map (·.name),
        Version.parse (some a) = Version.parse (some b) → a = b) := by
  refine ⟨?_, ?_, ?_, ?_, fun unsorted t run => ?_⟩
  · simp only [exists_ofDeclarations_iff, checkDeclarations_eq_nil_iff, Version.place_le_iff, true_imp_iff]
  · simp only [exists_ofDeclarations_iff, checkDeclarations_eq_nil_iff, Bool.true_eq_false, false_imp_iff,
      and_true]
  · simp only [exists_distinguishing_iff, true_imp_iff, ascending_iff]
  · simp only [exists_distinguishing_iff, Bool.true_eq_false, false_imp_iff, and_true]
  · obtain ⟨clean, rfl⟩ := ofDeclarations_eq_ok_iff.mp run
    obtain ⟨_, distinct, vs, read, _⟩ := checkDeclarations_eq_nil_iff.mp clean
    rw [distinguishes_iff read, read.versions_nodup_iff distinct]

/-- The first version under two names. -/
def twins : List Declaration :=
  ["v1", "v01"].map Declaration.named

/-- A version that is declared under two names is accepted twice, whether the order matters or not. -/
theorem twins_accepted : Declaration.ReadAs twins [⟨1, none⟩, ⟨1, none⟩] ∧
    (∃ t, ofDeclarations false "<versions>" twins = .ok t ∧ ¬ t.Distinguishes) ∧
    (∃ t, ofDeclarations true "<versions>" twins = .ok t ∧ ¬ t.Distinguishes) ∧
    ¬ ((∃ t, ofDeclarations false "<versions>" twins = .ok t) ↔
      twins ≠ [] ∧ ∃ vs, Declaration.ReadAs twins vs ∧ vs.Pairwise fun a b => a.before b = true) ∧
    ¬ ((∃ t, ofDeclarations true "<versions>" twins = .ok t) ↔
      twins ≠ [] ∧ ∃ vs, Declaration.ReadAs twins vs ∧ vs.Nodup) := by
  have first : Version.parse (some "v1") = .ok ⟨1, none⟩ := by decide +kernel
  have second : Version.parse (some "v01") = .ok ⟨1, none⟩ := by decide +kernel
  have read : Declaration.ReadAs twins [⟨1, none⟩, ⟨1, none⟩] := .cons first (.cons second .nil)
  have single : ∀ vs, Declaration.ReadAs twins vs → ¬ vs.Nodup := by
    intro vs other distinct
    have apart := (other.versions_nodup_iff (by decide)).mp distinct "v1" (by decide) "v01" (by decide)
    exact absurd (apart (first.trans second.symm)) (by decide)
  have names : (twins.map (·.name)).Nodup := by decide
  have accepted : ∀ unsorted, checkDeclarations unsorted twins = [] := fun unsorted =>
    checkDeclarations_eq_nil_iff.mpr ⟨by decide, names, _, read, fun _ => by simp⟩
  have made : ∀ unsorted, ∃ t, ofDeclarations unsorted "<versions>" twins = .ok t ∧ ¬ t.Distinguishes :=
    fun unsorted => ⟨_, ofDeclarations_eq_ok_iff.mpr ⟨accepted unsorted, rfl⟩, fun apart =>
      single _ read ((distinguishes_iff read).mp apart)⟩
  refine ⟨read, made false, made true, fun claimed => ?_, fun claimed => ?_⟩
  · obtain ⟨_, vs, other, ascending⟩ := claimed.mp (exists_ofDeclarations_iff.mpr (accepted false))
    exact single vs other (ascending_iff.mpr ascending).1
  · obtain ⟨_, vs, other, distinct⟩ := claimed.mp (exists_ofDeclarations_iff.mpr (accepted true))
    exact single vs other distinct

end Timeline

end Lineage
