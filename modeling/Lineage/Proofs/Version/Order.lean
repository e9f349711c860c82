import Mathlib.Data.Prod.Lex
import Mathlib.Order.WithBot
import Lineage.Proofs.Traversal
import Lineage.Version.Reader

namespace Lineage

/-- The place of a stage. -/
def Stage.place : Stage → Nat
  | .alpha => 0
  | .beta => 1

/-- The place of a level among all levels: by its stage first, then by its number. -/
def Level.place (l : Level) : Nat ×ₗ Nat :=
  toLex (l.stage.place, l.number)

/-- The place of a version among all versions: by its major number first, then by its level, above all
of which stands the stable version. -/
def Version.place (v : Version) : Nat ×ₗ WithTop (Nat ×ₗ Nat) :=
  toLex (v.major, match v.level with
    | some l => (l.place : WithTop (Nat ×ₗ Nat))
    | none => ⊤)

theorem Stage.place_injective : Function.Injective Stage.place := by
  intro a b same
  cases a <;> cases b <;> simp [place] at same ⊢

theorem Stage.before_iff {a b : Stage} : a.before b = true ↔ a.place < b.place := by
  cases a <;> cases b <;> decide

theorem Level.place_injective : Function.Injective Level.place := by
  rintro ⟨a, m⟩ ⟨b, n⟩ same
  obtain ⟨stage, number⟩ := Prod.mk.inj (toLex.injective same)
  exact congrArg₂ Level.mk (Stage.place_injective stage) number

theorem Level.before_iff {a b : Level} : a.before b = true ↔ a.place < b.place := by
  simp only [Level.before, Level.place, Prod.Lex.toLex_lt_toLex, Bool.or_eq_true, Bool.and_eq_true,
    Stage.before_iff, beq_iff_eq, decide_eq_true_iff, Stage.place_injective.eq_iff]

namespace Version

theorem place_injective : Function.Injective place := by
  rintro ⟨m, a⟩ ⟨n, b⟩ same
  obtain ⟨rfl, level⟩ := Prod.mk.inj (toLex.injective same)
  cases a with
  | none => cases b with
    | none => rfl
    | some l => cases level
  | some k => cases b with
    | none => cases level
    | some l => rw [Level.place_injective (WithTop.coe_injective level)]

/-- The order of versions is the order of their places. -/
theorem before_iff {a b : Version} : a.before b = true ↔ a.place < b.place := by
  simp only [before, place, Prod.Lex.toLex_lt_toLex, Bool.or_eq_true, Bool.and_eq_true, beq_iff_eq,
    decide_eq_true_iff]
  refine or_congr_right (and_congr_right fun _ => ?_)
  cases a.level with
  | none => simp
  | some k => cases b.level with
    | none => simp
    | some l => exact Level.before_iff.trans WithTop.coe_lt_coe.symm

theorem not_before_iff {a b : Version} : (!b.before a) = true ↔ a.place ≤ b.place := by
  rw [Bool.not_eq_true', ← Bool.not_eq_true, before_iff, not_lt]

/-- One version does not come after another if it comes before it or is the same. -/
theorem place_le_iff {a b : Version} : a.place ≤ b.place ↔ a.before b = true ∨ a = b := by
  rw [before_iff, le_iff_lt_or_eq, place_injective.eq_iff]

end Version

/-- Whether exactly one of three statements holds. -/
def ExactlyOne (p q r : Prop) : Prop :=
  p ∧ ¬ q ∧ ¬ r ∨ ¬ p ∧ q ∧ ¬ r ∨ ¬ p ∧ ¬ q ∧ r

/-- Whether four comparisons are those of one total order that agrees with equality. -/
structure Comparisons {α : Type} (before atMost after atLeast : α → α → Bool) : Prop where
  exactly_one : ∀ a b, ExactlyOne (before a b = true) (a = b) (before b a = true)
  trans : ∀ a b c, before a b = true → before b c = true → before a c = true
  atMost_iff : ∀ a b, atMost a b = true ↔ before a b = true ∨ a = b
  after_iff : ∀ a b, after a b = true ↔ before b a = true
  atLeast_iff : ∀ a b, atLeast a b = true ↔ before b a = true ∨ a = b

theorem exactlyOne_of_lt {β : Type} [LinearOrder β] (x y : β) : ExactlyOne (x < y) (x = y) (y < x) := by
  rcases lt_trichotomy x y with less | rfl | greater
  · exact Or.inl ⟨less, less.ne, less.asymm⟩
  · exact Or.inr (Or.inl ⟨lt_irrefl x, rfl, lt_irrefl x⟩)
  · exact Or.inr (Or.inr ⟨greater.asymm, greater.ne', greater⟩)

/-- What is ordered by different places is ordered totally, and the comparisons that are made of its order and
of its equality agree with that. -/
theorem Comparisons.of_place {α β : Type} [DecidableEq α] [LinearOrder β] {place : α → β}
    (distinct : Function.Injective place) {before : α → α → Bool}
    (before_iff : ∀ {a b}, before a b = true ↔ place a < place b) :
    Comparisons before (fun a b => before a b || a == b) (fun a b => !before a b && a != b)
      (fun a b => !before a b) where
  exactly_one a b := by
    rw [before_iff, before_iff, ← distinct.eq_iff]
    exact exactlyOne_of_lt (place a) (place b)
  trans a b c first second := before_iff.mpr ((before_iff.mp first).trans (before_iff.mp second))
  atMost_iff a b := by rw [Bool.or_eq_true, beq_iff_eq]
  after_iff a b := by
    rw [Bool.and_eq_true, Bool.not_eq_true', ← Bool.not_eq_true, bne_iff_ne, before_iff, before_iff, not_lt,
      ← distinct.ne_iff, ne_comm, lt_iff_le_and_ne]
  atLeast_iff a b := by
    rw [Bool.not_eq_true', ← Bool.not_eq_true, before_iff, before_iff, not_lt, le_iff_lt_or_eq,
      distinct.eq_iff, eq_comm]

theorem Level.comparisons : Comparisons Level.before Level.atMost Level.after Level.atLeast :=
  .of_place Level.place_injective Level.before_iff

namespace Version

theorem comparisons : Comparisons Version.before Version.atMost Version.after Version.atLeast :=
  .of_place place_injective before_iff

theorem atMost_iff {a b : Version} : a.atMost b = true ↔ a.place ≤ b.place := by
  rw [place_le_iff, comparisons.atMost_iff]

theorem before_of_major {a b : Version} (less : a.major < b.major) : a.before b = true := by
  rw [before, decide_eq_true less, Bool.true_or]

/-- Among the levels of one major number, versions are ordered as these. -/
theorem before_levels {major : Nat} {k l : Level} :
    (⟨major, some k⟩ : Version).before ⟨major, some l⟩ = k.before l := by
  simp [before]

section Sorting

variable {α : Type} {versioned : List (α × Version)}

theorem ascending_perm (versioned : List (α × Version)) : (ascending versioned).Perm versioned :=
  List.mergeSort_perm versioned _

theorem not_before_trans (a b c : α × Version) (first : (!b.2.before a.2) = true)
    (second : (!c.2.before b.2) = true) : (!c.2.before a.2) = true :=
  not_before_iff.mpr ((not_before_iff.mp first).trans (not_before_iff.mp second))

theorem not_before_total (a b : α × Version) : (!b.2.before a.2 || !a.2.before b.2) = true := by
  rw [Bool.or_eq_true, not_before_iff, not_before_iff]
  exact le_total _ _

theorem pairwise_ascending (versioned : List (α × Version)) :
    (ascending versioned).Pairwise fun a b => a.2.place ≤ b.2.place :=
  (List.pairwise_mergeSort not_before_trans not_before_total versioned).imp not_before_iff.mp

theorem ascending_of_pairwise (ordered : versioned.Pairwise fun a b => a.2.place ≤ b.2.place) :
    ascending versioned = versioned :=
  List.mergeSort_of_pairwise (ordered.imp not_before_iff.mpr)

/-- What has the same version is not reordered. -/
theorem filter_ascending (v : Version) :
    (ascending versioned).filter (·.2 = v) = versioned.filter (·.2 = v) := by
  have alike : (versioned.filter (·.2 = v)).Pairwise fun a b => (!b.2.before a.2) = true := by
    refine List.pairwise_of_forall_mem_list fun a first b second => not_before_iff.mpr (le_of_eq ?_)
    rw [of_decide_eq_true (List.mem_filter.mp first).2, of_decide_eq_true (List.mem_filter.mp second).2]
  have kept : (versioned.filter (·.2 = v)).Sublist (ascending versioned) :=
    List.sublist_mergeSort not_before_trans not_before_total alike List.filter_sublist
  have inside := kept.filter (·.2 = v)
  rw [List.filter_filter] at inside
  simp only [Bool.and_self] at inside
  exact (inside.eq_of_length ((ascending_perm versioned).filter _).length_eq.symm).symm

/-- Sorting by texts that are all versions leaves nothing out, puts no later version before an earlier one and
keeps what has the same version in its order. -/
theorem sortBy_sorts {text : α → Option String} {xs : List α}
    (valid : ∀ x ∈ xs, ∃ v, Version.parse (text x) = .ok v) :
    ∃ sorted, Version.sortBy text xs = .ok sorted ∧ sorted.Perm xs ∧
      (sorted.Pairwise fun a b => ∀ v w, Version.parse (text a) = .ok v → Version.parse (text b) = .ok w →
        v.atMost w = true) ∧
      ∀ v, sorted.filter (fun x => Version.parse (text x) = .ok v) =
        xs.filter fun x => Version.parse (text x) = .ok v := by
  let version := fun x => ((Version.parse (text x)).toOption).getD ⟨0, none⟩
  have read : ∀ x ∈ xs, Version.parse (text x) = .ok (version x) := by
    intro x member
    obtain ⟨v, parsed⟩ := valid x member
    simp only [version, parsed, Except.toOption, Option.getD_some]
  let pairs := xs.map fun x => (x, version x)
  have firsts : pairs.map (·.1) = xs := by
    rw [List.map_map]
    exact List.map_id xs
  have paired : ∀ e ∈ pairs, Version.parse (text e.1) = .ok e.2 := by
    rintro _ member
    obtain ⟨x, listed, rfl⟩ := List.mem_map.mp member
    exact read x listed
  have sortedPairs : ∀ e ∈ ascending pairs, Version.parse (text e.1) = .ok e.2 :=
    fun e member => paired e ((ascending_perm pairs).mem_iff.mp member)
  -- Texts of a version and pairs with this version are the same, before and after sorting.
  have selected : ∀ es : List (α × Version), (∀ e ∈ es, Version.parse (text e.1) = .ok e.2) → ∀ v,
      (es.map (·.1)).filter (fun x => Version.parse (text x) = .ok v) = (es.filter (·.2 = v)).map (·.1) := by
    intro es own v
    rw [List.filter_map]
    refine congrArg (List.map _) (List.filter_congr fun e member => ?_)
    simp only [Function.comp_apply, own e member, Except.ok.injEq]
  refine ⟨(ascending pairs).map (·.1), ?_, ?_, ?_, fun v => ?_⟩
  · rw [Version.sortBy, mapM_eq_ok_map (g := fun x => (x, version x)) fun x member => by rw [read x member]; rfl]
    rfl
  · rw [← firsts]
    exact ((ascending_perm pairs).map _).trans (by rw [firsts])
  · refine List.pairwise_map.mpr ((pairwise_ascending pairs).imp_of_mem ?_)
    intro a b first second ordered v w readA readB
    rw [sortedPairs a first] at readA
    rw [sortedPairs b second] at readB
    cases readA
    cases readB
    exact atMost_iff.mpr ordered
  · rw [selected _ sortedPairs, filter_ascending, ← selected _ paired, firsts]

end Sorting

/-- The order of versions is total and agrees with equality, and so do the comparisons that are made of both; the
same holds of levels. It looks at the major numbers first; within one the alpha stages come before the beta
stages and these before the stable version, and the levels of one stage are ordered by their numbers. Texts that
are versions are sorted in this order, and those of the same version stay in theirs. -/
theorem total_order_sorts :
    Comparisons Version.before Version.atMost Version.after Version.atLeast ∧
    Comparisons Level.before Level.atMost Level.after Level.atLeast ∧
    (∀ a b : Version, a.major < b.major → a.before b = true) ∧
    (∀ major k l, Version.before ⟨major, some ⟨.alpha, k⟩⟩ ⟨major, some ⟨.beta, l⟩⟩ = true) ∧
    (∀ major level, Version.before ⟨major, some level⟩ ⟨major, none⟩ = true) ∧
    (∀ major stage k l, Version.before ⟨major, some ⟨stage, k⟩⟩ ⟨major, some ⟨stage, l⟩⟩ = true ↔ k < l) ∧
    ∀ raws : List String, (∀ raw ∈ raws, ∃ v, Version.parse (some raw) = .ok v) →
      ∃ sorted, Version.sortBy some raws = .ok sorted ∧ sorted.Perm raws ∧
        (sorted.Pairwise fun a b => ∀ v w, Version.parse (some a) = .ok v → Version.parse (some b) = .ok w →
          v.atMost w = true) ∧
        ∀ v, sorted.filter (fun raw => Version.parse (some raw) = .ok v) =
          raws.filter fun raw => Version.parse (some raw) = .ok v := by
  refine ⟨comparisons, Level.comparisons, fun a b => before_of_major, fun major k l => ?_, fun major level => ?_,
    fun major stage k l => ?_, fun raws valid => sortBy_sorts valid⟩
  · rw [before_levels]
    rfl
  · simp [before]
  · rw [before_levels]
    cases stage <;> simp [Level.before, Stage.before]

/-- Versions of all stages, one of them in two spellings. -/
def releasedNames : List String :=
  ["v2", "v1", "v1beta1", "v01", "v1alpha2", "v2alpha1"]

theorem total_order_sorts_released : (∀ raw ∈ releasedNames, ∃ v, Version.parse (some raw) = .ok v) ∧
    ∃ sorted, Version.sortBy some releasedNames = .ok sorted ∧ sorted.Perm releasedNames ∧
      (sorted.Pairwise fun a b => ∀ v w, Version.parse (some a) = .ok v → Version.parse (some b) = .ok w →
        v.atMost w = true) ∧
      sorted.filter (fun raw => Version.parse (some raw) = .ok ⟨1, none⟩) = ["v1", "v01"] := by
  have parsed : ∀ raw ∈ releasedNames, (Version.parse (some raw)).isOk = true := by decide
  have valid : ∀ raw ∈ releasedNames, ∃ v, Version.parse (some raw) = .ok v :=
    fun raw member => exists_of_isOk (parsed raw member)
  obtain ⟨sorted, run, perm, ordered, stable⟩ := total_order_sorts.2.2.2.2.2.2 releasedNames valid
  refine ⟨valid, sorted, run, perm, ordered, (stable ⟨1, none⟩).trans ?_⟩
  decide

end Version

end Lineage
