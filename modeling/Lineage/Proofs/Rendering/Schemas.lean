import Lineage.CustomResource.Definition
import Lineage.Proofs.Definition.Schema
import Lineage.Proofs.Generation
import Lineage.Rendering

namespace Lineage

/-- Whether a type is written in the history of an item, be it the last one or an earlier one. -/
def Item.Writes (item : Item) (type : String) : Prop :=
  item.type = some type ∨ ∃ ch ∈ item.changes, ch.fromType = some type

/-- Whether the type of some member in some version cannot be read. -/
def Generation.IsHollow (g : Generation) : Prop :=
  ∃ d ∈ g.definitions, d.IsHollow

namespace Item

variable {item : Item} {kind : Kind}

/-- A type that undoing changes leads to is the one before or was written in a change. -/
theorem writes_of_undo {changes : List Change} (among : ∀ ch ∈ changes, ch ∈ item.changes)
    {member : String × Option String} (written : ∀ type, member.2 = some type → item.Writes type) {type : String}
    (own : (changes.foldl (fun member ch => ch.undo member) member).2 = some type) : item.Writes type := by
  induction changes generalizing member with
  | nil => exact written type own
  | cons ch rest ih =>
    refine ih (fun other later => among other (List.mem_cons_of_mem _ later)) (fun type known => ?_) own
    simp only [Change.undo] at known
    cases given : ch.fromType with
    | none =>
      rw [given] at known
      exact written type known
    | some other =>
      rw [given] at known
      exact .inr ⟨ch, among ch (List.mem_cons_self ..), given.trans known⟩

theorem writes_of_undoneFrom {t : Timeline} {rank : Nat} {type : String}
    (own : (item.undoneFrom kind t rank).2 = some type) : item.Writes type := by
  unfold undoneFrom at own
  generalize t.releases.drop rank = releases at own
  induction releases generalizing type with
  | nil => exact .inl own
  | cons r rest ih =>
    refine writes_of_undo (fun ch taken => (List.mem_filter.mp taken).1) (fun type known => ?_) own
    split at known <;> exact ih known

end Item

namespace Generation

variable {c : Container} {g : Generation}

theorem render_fails {format : Format} (schemas : format ≠ .python) :
    FailsWith (.fault .beyondEnd) g.IsHollow (format.render g) := by
  have files := FailsWith.mapM g.definitions fun d _ =>
    (d.document_fails.lift).bind fun document => ⟨(s!"{Text.snakeCase g.name}/{d.release.name}.{format.name}",
      format.write document), rfl⟩
  cases format with
  | python => exact absurd rfl schemas
  | yaml | json => exact files

section Generated

variable (run : ofContainer c = .ok g)
include run

/-- A type that cannot be read is written in the container, and there are only blanks between brackets of it. -/
theorem exists_blanks_of_isHollow (hollow : g.IsHollow) :
    ∃ item ∈ c.items, ∃ type, item.Writes type ∧ ∃ blanks, blanks ≠ [] ∧
      (∀ ch ∈ blanks, Text.isBlank ch = true) ∧ '[' :: (blanks ++ [']']) <:+: type.toList := by
  have made := made_of_ofContainer run
  obtain ⟨d, among, m, member, hollow⟩ := hollow
  rw [made.definitions] at among
  obtain ⟨r, _, rfl⟩ := List.mem_map.mp among
  rw [Container.members_definitionIn] at member
  obtain ⟨item, own, there⟩ := List.mem_filterMap.mp member
  obtain ⟨⟨name, type⟩, present, rfl⟩ := Option.map_eq_some_iff.mp there
  cases type with
  | none => exact absurd hollow (Member.not_isHollow_of_unit rfl)
  | some type =>
    refine ⟨item, own, type, ?_, hollow.exists_blanks⟩
    rw [Item.member?_statusIn] at present
    split at present
    · cases present
    · exact Item.writes_of_undoneFrom (congrArg Prod.snd (Option.some.inj present))

/-- A custom resource definition is not written exactly if the type of a field is hollow. -/
theorem resource_fails {options : ResourceOptions} (storage webhook : Option String) (track : Bool)
    (served : c.resource = some options) (kind : c.kind = .struct)
    (declared : ∀ version, filled? storage = some version → version ∈ g.timeline.names) :
    FailsWith (.fault .beyondEnd) g.IsHollow (CustomResource.document g storage webhook track) := by
  have made := made_of_ofContainer run
  have well := (Container.wellFormed_of_validate (validate_of_ofContainer run)).1
  have options_ok : CustomResource.optionsOf g = .ok options := by
    simp only [CustomResource.optionsOf, Generation.kind, made.container, served, kind, if_true]
  obtain ⟨names, names_ok⟩ : ∃ names, CustomResource.namesOf g = .ok names := by
    rw [CustomResource.namesOf, options_ok]
    exact ⟨_, rfl⟩
  -- The stored version is asked for, or the validated one of the container, or the last that there is.
  obtain ⟨r, stored⟩ : ∃ r, g.timeline.get ((filled? storage <|> filled? options.storageVersion).getD
      ((g.timeline.latest?.map (·.name)).getD "")) = .ok r := by
    cases asked : filled? storage with
    | some version =>
      obtain ⟨r, _, found, _⟩ := made.sound.get_of_mem (declared version asked)
      exact ⟨r, found⟩
    | none =>
      cases own : filled? options.storageVersion with
      | some version =>
        obtain ⟨given, filled⟩ := filled?_eq_some.mp own
        have listed := well.storage options served version given filled
        rw [← names_of_ofContainer run] at listed
        obtain ⟨r, _, found, _⟩ := made.sound.get_of_mem listed
        exact ⟨r, found⟩
      | none =>
        obtain ⟨r, last⟩ := Option.ne_none_iff_exists'.mp (mt List.getLast?_eq_none_iff.mp made.nonempty)
        have latest : g.timeline.latest? = some r := last
        rw [latest]
        exact ⟨r, made.sound.get_name (List.mem_of_getLast? last)⟩
  have versions : FailsWith (.fault .beyondEnd : Failure) g.IsHollow
      (g.definitions.mapM fun d => do return ← CustomResource.versionDocument track r d) := by
    refine FailsWith.mapM _ fun d _ => ?_
    have schema : FailsWith .beyondEnd d.IsHollow (CustomResource.versionDocument track r d) :=
      (d.schemaDocument_fails.bind fun _ => ⟨_, rfl⟩).bind fun _ => ⟨_, rfl⟩
    exact schema.lift
  unfold CustomResource.document
  simp only [options_ok, stored, names_ok, bind, Except.bind]
  exact versions.bind fun _ => ⟨_, rfl⟩

/-- What can be generated can be written as schemas, and as a custom resource if it is served as one, unless
a type in it has nothing but blanks between brackets; then the reason is always the same. -/
theorem schemas_written :
    (∀ format : Format, format ≠ .python →
      ((∃ files, format.render g = .ok files) ↔ ¬ g.IsHollow) ∧
        ∀ cause, format.render g = .error cause → cause = .fault .beyondEnd) ∧
    (∀ options storage webhook track, c.resource = some options → c.kind = .struct →
      (∀ version, filled? storage = some version → version ∈ g.timeline.names) →
      ((∃ document, CustomResource.document g storage webhook track = .ok document) ↔ ¬ g.IsHollow) ∧
        ∀ cause, CustomResource.document g storage webhook track = .error cause → cause = .fault .beyondEnd) ∧
    (g.IsHollow → ∃ item ∈ c.items, ∃ type, item.Writes type ∧ ∃ blanks, blanks ≠ [] ∧
      (∀ ch ∈ blanks, Text.isBlank ch = true) ∧ '[' :: (blanks ++ [']']) <:+: type.toList) := by
  refine ⟨fun format schemas => ?_, fun options storage webhook track served kind declared => ?_,
    exists_blanks_of_isHollow run⟩
  · have fails := render_fails (g := g) schemas
    exact ⟨fails.exists_ok_iff, fun cause failed => ((fails cause).mp failed).2⟩
  · have fails := resource_fails run storage webhook track served kind declared
    exact ⟨fails.exists_ok_iff, fun cause failed => ((fails cause).mp failed).2⟩

end Generated

/-- A struct that is served as a custom resource, with one field of a type. -/
def crate (type : String) : Container where
  name := "Crate"
  kind := .struct
  doc := none
  versions := [.named "v1"]
  items := [⟨"parts", some type, none, none, false, none, [], none⟩]
  options := .standard
  resource := some ⟨"example.com", none, none, none, true, some "v1", []⟩

/-- The schemas of a crate with a list of lists are written in every format. -/
theorem schemas_written_crate : ∃ g, ofContainer (crate "Optional[List[int]]") = .ok g ∧
    (∃ files, Format.yaml.render g = .ok files) ∧ (∃ files, Format.json.render g = .ok files) ∧
      ∃ document, CustomResource.document g (some "v1") none false = .ok document := by
  have succeeds : (ofContainer (crate "Optional[List[int]]")).isOk = true := by decide +kernel
  have single : ∀ item ∈ (crate "Optional[List[int]]").items,
      item.type = some "Optional[List[int]]" ∧ item.changes = [] := by decide +kernel
  have solid : "Optional[List[int]]".toList.all (fun ch => !Text.isBlank ch) = true := by decide +kernel
  obtain ⟨g, run⟩ := exists_of_isOk succeeds
  obtain ⟨schemas, resource, blanks⟩ := schemas_written run
  have readable : ¬ g.IsHollow := by
    intro hollow
    obtain ⟨item, own, type, written, inside, filled, blank, start, rest, whole⟩ := blanks hollow
    obtain ⟨typed, constant⟩ := single item own
    have only : type = "Optional[List[int]]" := by
      rcases written with last | ⟨ch, changed, _⟩
      · exact Option.some.inj (last.symm.trans typed)
      · rw [constant] at changed
        cases changed
    obtain ⟨ch, others, rfl⟩ := List.exists_cons_of_ne_nil filled
    have listed : ch ∈ "Optional[List[int]]".toList := by
      rw [← only, ← whole]
      simp
    have not := List.all_eq_true.mp solid ch listed
    rw [blank ch (List.mem_cons_self ..)] at not
    cases not
  have asked : ∀ version, filled? (some "v1") = some version → version ∈ g.timeline.names := by
    rw [names_of_ofContainer run]
    decide
  exact ⟨g, run, (schemas .yaml (by decide)).1.mpr readable, (schemas .json (by decide)).1.mpr readable,
    (resource _ _ none false rfl rfl asked).1.mpr readable⟩

/-- A list of nothing but a blank cannot be written as a schema. -/
theorem blank_list_unwritten : ∃ g, ofContainer (crate "List[ ]") = .ok g ∧
    Format.yaml.render g = .error (.fault .beyondEnd) ∧ Format.json.render g = .error (.fault .beyondEnd) ∧
      CustomResource.document g none none false = .error (.fault .beyondEnd) := by
  have facts : (ofContainer (crate "List[ ]")).toOption.map (fun g =>
      g.definitions.map fun d => d.members.map (·.type)) = some [[some "List[ ]"]] := by decide +kernel
  have empty : TypeName.IsHollow "List[ ]".toList := by
    refine ⟨_, .refl, "List", [' '], ⟨by decide +kernel, "List".toList, by decide +kernel, rfl⟩, ?_, ?_⟩
    · decide
    · exact List.forall_mem_singleton.mpr (by decide)
  obtain ⟨g, run, facts⟩ := exists_of_toOption_map facts
  obtain ⟨d, among, members⟩ := List.map_eq_singleton_iff.mp facts
  obtain ⟨m, listed, typed⟩ := List.map_eq_singleton_iff.mp members
  have hollow : g.IsHollow := ⟨d, by simp [among], m, by simp [listed], by rwa [Member.IsHollow, typed]⟩
  exact ⟨g, run, (render_fails (by decide) _).mpr ⟨hollow, rfl⟩, (render_fails (by decide) _).mpr ⟨hollow, rfl⟩,
    (resource_fails run none none false rfl rfl (fun _ none => by cases none) _).mpr ⟨hollow, rfl⟩⟩

end Generation

end Lineage
