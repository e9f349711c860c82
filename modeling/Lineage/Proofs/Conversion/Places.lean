import Lineage.Proofs.Conversion.Nesting
import Lineage.Proofs.History
import Lineage.Proofs.Text

namespace Lineage

/-- What stands in a path between the name of an item and the path inside of one of its values: nothing, or
the index of the value in a list. -/
def Hint.Leads (hint : Option Hint) (lead : String) : Prop :=
  lead = "" ∨ hint = some .list ∧ ∃ i : Nat, lead = "[" ++ toString i ++ "]"

/-- Whether the name of an item reads like a path into the values of another. -/
def Item.ReadsInto (item other : Item) : Prop :=
  other.nested = true ∧ ((other.name ++ ".").toList <+: item.name.toList ∨
    other.hint = some .list ∧ (other.name ++ "[").toList <+: item.name.toList)

instance (item other : Item) : Decidable (item.ReadsInto other) :=
  inferInstanceAs (Decidable (_ ∧ _))

/-- Whether no name of an item reads like a path into the values of another. -/
def Container.PathsApart (c : Container) : Prop :=
  ∀ item ∈ c.items, ∀ other ∈ c.items, ¬ item.ReadsInto other

instance (c : Container) : Decidable c.PathsApart :=
  inferInstanceAs (Decidable (∀ item ∈ c.items, ∀ other ∈ c.items, ¬ item.ReadsInto other))

/-- What can follow the name of an item in a path: nothing, or a path into its values. -/
def Item.Continues (item : Item) (rest : String) : Prop :=
  rest = "" ∨ item.nested = true ∧ ((∃ tail, rest = "." ++ tail) ∨
    item.hint = some .list ∧ ∃ tail, rest = "[" ++ tail)

/-- A name that goes on with what leads into a nested item reads like a path into it. -/
theorem Item.Continues.readsInto {item other : Item} {rest : String} (continues : other.Continues rest)
    {c : Char} {cs ds : List Char} (starts : rest.toList = c :: cs)
    (longer : item.name.toList = other.name.toList ++ c :: ds) : item.ReadsInto other := by
  have front : ∀ s : String, s.toList = [c] → (other.name ++ s).toList <+: item.name.toList := by
    intro s single
    rw [longer, String.toList_append, single]
    exact ⟨ds, by simp⟩
  rcases continues with rfl | ⟨nested, ⟨tail, rfl⟩ | ⟨hint, tail, rfl⟩⟩
  · cases starts
  · rw [String.toList_append] at starts
    cases starts
    exact ⟨nested, Or.inl (front "." rfl)⟩
  · rw [String.toList_append] at starts
    cases starts
    exact ⟨nested, Or.inr ⟨hint, front "[" rfl⟩⟩

namespace Container.PathsApart

variable {c : Container} (apart : c.PathsApart) {item other : Item} {rest rest' : String}
include apart

/-- A path that starts with the name of an item starts with that of no other. -/
theorem eq_of_append (listed : item ∈ c.items) (there : other ∈ c.items) (continues : item.Continues rest)
    (continues' : other.Continues rest') (same : item.name ++ rest = other.name ++ rest') :
    item.name = other.name ∧ rest = rest' := by
  have chars := congrArg String.toList same
  rw [String.toList_append, String.toList_append] at chars
  rcases List.append_eq_append_iff.mp chars with ⟨more, longer, split⟩ | ⟨more, longer, split⟩
  · cases more with
    | nil =>
      rw [List.append_nil] at longer
      exact ⟨(String.toList_injective longer).symm, String.toList_injective split⟩
    | cons ch more => exact absurd (continues.readsInto split longer) (apart other there item listed)
  · cases more with
    | nil =>
      rw [List.append_nil] at longer
      exact ⟨String.toList_injective longer, (String.toList_injective split).symm⟩
    | cons ch more => exact absurd (continues'.readsInto split longer) (apart item listed other there)

end Container.PathsApart

/-- Texts that go on after the same closed index have the same index and go on alike. -/
theorem index_inj {i j : Nat} {cs ds : List Char}
    (same : (toString i).toList ++ ']' :: cs = (toString j).toList ++ ']' :: ds) : i = j ∧ cs = ds := by
  -- A bracket is no digit, so both texts have the same digits before it.
  have number : ∀ (n : Nat) (es : List Char),
      ((toString n).toList ++ ']' :: es).takeWhile (· != ']') = (toString n).toList := by
    intro n es
    rw [List.takeWhile_append_of_pos, List.takeWhile_cons_of_neg (by decide), List.append_nil]
    intro c among
    have digit := Text.isDigit_of_mem_toString among
    rw [bne_iff_ne]
    rintro rfl
    cases digit
  have front := congrArg (List.takeWhile (· != ']')) same
  rw [number, number] at front
  rw [front] at same
  exact ⟨Text.toString_inj front, (List.cons.inj (List.append_cancel_left same)).2⟩

theorem Hint.Leads.eq_of_append {hint hint' : Option Hint} {lead lead' tail tail' : String}
    (leads : Hint.Leads hint lead) (leads' : Hint.Leads hint' lead')
    (same : lead ++ ("." ++ tail) = lead' ++ ("." ++ tail')) : lead = lead' ∧ tail = tail' := by
  have chars := congrArg String.toList same
  rcases leads with rfl | ⟨_, i, rfl⟩ <;> rcases leads' with rfl | ⟨_, j, rfl⟩ <;>
    simp only [String.toList_append, List.append_assoc] at chars
  · exact ⟨rfl, String.toList_injective (List.append_cancel_left (List.append_cancel_left chars))⟩
  · cases chars
  · cases chars
  · obtain ⟨rfl, rest⟩ := index_inj (List.append_cancel_left chars)
    exact ⟨rfl, String.toList_injective (List.append_cancel_left rest)⟩

namespace Runtime

variable {ι : Type}

/-- The container from which a runtime was generated. -/
def container (rt : Runtime ι) : Container :=
  rt.generation.validated.container

/-- Whether the container of a runtime is a struct that keeps the types of its items and converts between
all of some versions, whether all containers are registered that its items hold, and whether the paths of
its items tell them apart. -/
structure Tidy (versions : List String) (rt : Runtime ι) : Prop where
  run : Generation.ofContainer rt.container = .ok rt.generation
  struct : rt.container.kind = .struct
  keeps : ∀ item ∈ rt.container.items, item.KeepsType
  names : rt.generation.timeline.names = versions
  edges : ∀ a ∈ versions, ∀ b ∈ versions, ∃ edges, rt.generation.edgesBetween a b = .ok edges
  registered : ∀ item ∈ rt.container.items, item.nested = true → ∃ type N, item.type = some type ∧
    rt.nested? (TypeName.base type) = some N ∧
    rt.functions.converter? (some (TypeName.base type)) (some (TypeName.base type)) = none
  apart : rt.container.PathsApart

/-- Whether a path leads to a value that is added in a version, be it in an instance of the container or in
a value that is nested in one. -/
inductive Adds (versions : List String) : Runtime ι → (path version : String) → Prop
  | here {rt : Runtime ι} {item : Item} {a : Addition} (tidy : rt.Tidy versions)
      (listed : item ∈ rt.container.items) (own : item.added = some a) :
      Adds versions rt ("." ++ item.name) a.since
  | inside {rt N : Runtime ι} {item : Item} {type lead path version : String} (tidy : rt.Tidy versions)
      (listed : item ∈ rt.container.items) (nested : item.nested = true) (typed : item.type = some type)
      (registered : rt.nested? (TypeName.base type) = some N) (leads : Hint.Leads item.hint lead)
      (within : Adds versions N path version) :
      Adds versions rt ("." ++ item.name ++ (lead ++ path)) version

variable {versions : List String} {rt N : Runtime ι} {path version version' : String}

theorem Adds.starts (adds : rt.Adds versions path version) : ∃ tail, path = "." ++ tail := by
  cases adds with
  | @here _ item => exact ⟨item.name, rfl⟩
  | @inside _ N item type lead path => exact ⟨item.name ++ (lead ++ path), String.append_assoc⟩

theorem Adds.continues {item : Item} {lead : String} (nested : item.nested = true)
    (leads : Hint.Leads item.hint lead) (adds : N.Adds versions path version) :
    item.Continues (lead ++ path) := by
  obtain ⟨tail, rfl⟩ := adds.starts
  rcases leads with rfl | ⟨hint, i, rfl⟩
  · exact Or.inr ⟨nested, Or.inl ⟨tail, String.empty_append⟩⟩
  · refine Or.inr ⟨nested, Or.inr ⟨hint, toString i ++ "]" ++ ("." ++ tail), ?_⟩⟩
    simp only [String.append_assoc]

theorem item_of_path (tidy : rt.Tidy versions) {item other : Item} {rest rest' : String}
    (listed : item ∈ rt.container.items) (there : other ∈ rt.container.items) (continues : item.Continues rest)
    (continues' : other.Continues rest') (same : "." ++ item.name ++ rest = "." ++ other.name ++ rest') :
    item = other ∧ rest = rest' := by
  rw [String.append_assoc, String.append_assoc] at same
  have chars := congrArg String.toList same
  rw [String.toList_append, @String.toList_append "."] at chars
  obtain ⟨names, rests⟩ := tidy.apart.eq_of_append listed there continues continues'
    (String.toList_injective (List.append_cancel_left chars))
  have distinct := (Generation.made_of_ofContainer tidy.run).item_names_nodup
  exact ⟨List.inj_on_of_nodup_map distinct listed there names, rests⟩

theorem Adds.ne_empty {lead : String} (adds : N.Adds versions path version) : lead ++ path ≠ "" := by
  obtain ⟨tail, rfl⟩ := adds.starts
  intro empty
  have length := congrArg String.length empty
  simp only [String.length_append] at length
  have dot : ".".length = 1 := rfl
  have zero : "".length = 0 := rfl
  omega

/-- A path leads to no more than one value, and that is added once. -/
theorem Adds.unique (adds : rt.Adds versions path version)
    (adds' : rt.Adds versions path version') : version = version' := by
  induction adds generalizing version' with
  | @here rt item a tidy listed own =>
    generalize whole : "." ++ item.name = path at adds'
    rw [← @String.append_empty ("." ++ item.name)] at whole
    cases adds' with
    | @here _ other b _ there own' =>
      rw [← @String.append_empty ("." ++ other.name)] at whole
      obtain ⟨rfl, _⟩ := item_of_path tidy listed there (Or.inl rfl) (Or.inl rfl) whole
      cases own.symm.trans own'
      rfl
    | @inside _ N other type lead path version _ there nested typed registered leads within =>
      obtain ⟨_, empty⟩ := item_of_path tidy listed there (Or.inl rfl) (within.continues nested leads) whole
      exact absurd empty.symm within.ne_empty
  | @inside rt N item type lead path version tidy listed nested typed registered leads within ih =>
    generalize whole : "." ++ item.name ++ (lead ++ path) = longer at adds'
    cases adds' with
    | @here _ other b _ there own' =>
      rw [← @String.append_empty ("." ++ other.name)] at whole
      obtain ⟨_, empty⟩ := item_of_path tidy listed there (within.continues nested leads) (Or.inl rfl) whole
      exact absurd empty within.ne_empty
    | @inside _ N' other type' lead' path' version' _ there nested' typed' registered' leads' within' =>
      obtain ⟨rfl, rests⟩ := item_of_path tidy listed there (within.continues nested leads)
        (within'.continues nested' leads') whole
      cases typed.symm.trans typed'
      cases registered.symm.trans registered'
      obtain ⟨tail, rfl⟩ := within.starts
      obtain ⟨tail', rfl⟩ := within'.starts
      obtain ⟨_, rfl⟩ := leads.eq_of_append leads' rests
      exact ih within'

end Runtime

end Lineage
