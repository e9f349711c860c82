import Lineage.Proofs.Generation.Reordering

namespace Lineage

/-- A deprecation without what is said about it. -/
def Deprecation.withoutNote (d : Deprecation) : Deprecation :=
  { d with note := none }

/-- An item without the note of its deprecation. -/
def Item.withoutNote (item : Item) : Item :=
  { item with deprecated := item.deprecated.map Deprecation.withoutNote }

/-- A container without the notes of deprecated items. -/
def Container.withoutNotes (c : Container) : Container :=
  { c with items := c.items.map Item.withoutNote }

/-- The notes of the deprecated items of a container. -/
def Container.notes (c : Container) : List String :=
  c.items.filterMap fun item => item.deprecated.bind (·.note)

/-- A status without the note of a deprecation. -/
def Status.withoutNote : Status → Status
  | deprecated previousName name type _ => deprecated previousName name type none
  | unchanged name type marked _ => unchanged name type marked none
  | other => other

/-- A member without the note of its deprecation. -/
def Member.withoutNote (m : Member) : Member :=
  { m with note := none }

/-- A definition without the notes of deprecated members. -/
def Definition.withoutNotes (d : Definition) : Definition :=
  { d with members := d.members.map Member.withoutNote }

theorem Status.member?_withoutNote (s : Status) : s.withoutNote.member? = s.member? := by
  cases s <;> rfl

theorem Status.isPresent_withoutNote (s : Status) : s.withoutNote.isPresent = s.isPresent := by
  rw [isPresent, member?_withoutNote, isPresent]

namespace Item

variable (kind : Kind) (t : Timeline) (item : Item) (r : Release)

theorem deprecationIn_withoutNote :
    item.withoutNote.deprecationIn r = (item.deprecationIn r).map Deprecation.withoutNote := by
  simp only [deprecationIn, withoutNote]
  cases item.deprecated with
  | none => rfl
  | some d =>
    simp only [Option.map_some, Option.filter_some, Deprecation.withoutNote]
    split <;> rfl

theorem deprecationBefore_withoutNote :
    item.withoutNote.deprecationBefore t r = (item.deprecationBefore t r).map Deprecation.withoutNote := by
  simp only [deprecationBefore, withoutNote]
  cases item.deprecated with
  | none => rfl
  | some d =>
    simp only [Option.map_some, Option.filter_some, Deprecation.withoutNote]
    split <;> rfl

theorem undoIn_withoutNote : item.withoutNote.undoIn kind r = item.undoIn kind r := by
  funext member
  rw [undoIn, deprecationIn_withoutNote, Option.isSome_map]
  rfl

theorem memberIn_withoutNote : item.withoutNote.memberIn kind t r = item.memberIn kind t r := by
  have undo : item.withoutNote.undoIn kind = item.undoIn kind := funext fun r => undoIn_withoutNote kind item r
  rw [memberIn, undoneFrom, undo]
  rfl

theorem memberBefore_withoutNote : item.withoutNote.memberBefore kind t r = item.memberBefore kind t r := by
  simp only [memberBefore, memberIn_withoutNote, undoIn_withoutNote]

variable {kind t item r} in
/-- The note of a status is that of the deprecation of the item. -/
theorem note_statusIn {note : String} (noted : (item.statusIn kind t r).note = some note) :
    ∃ d, item.deprecated = some d ∧ d.note = some note := by
  simp only [statusIn] at noted
  split at noted
  · cases noted
  cases added : item.additionIn r with
  | some a =>
    simp only [added] at noted
    cases noted
  | none =>
    cases deprecated : item.deprecationIn r with
    | some d =>
      simp only [added, deprecated] at noted
      exact ⟨d, (deprecationIn_eq_some.mp deprecated).1, noted⟩
    | none =>
      cases changed : item.changesIn r with
      | cons ch rest =>
        simp only [added, deprecated, changed] at noted
        split at noted <;> cases noted
      | nil =>
        simp only [added, deprecated, changed] at noted
        split at noted
        · rename_i d before
          exact ⟨d, (deprecationBefore_eq_some.mp before).1, noted⟩
        · cases noted

/-- Statuses differ in notes only if items do. -/
theorem statusIn_withoutNote :
    item.withoutNote.statusIn kind t r = (item.statusIn kind t r).withoutNote := by
  have added : item.withoutNote.additionIn r = item.additionIn r := rfl
  have changes : item.withoutNote.changesIn r = item.changesIn r := rfl
  have absent : item.withoutNote.isBeforeAddition t r = item.isBeforeAddition t r := rfl
  simp only [statusIn, memberIn_withoutNote, memberBefore_withoutNote, deprecationIn_withoutNote,
    deprecationBefore_withoutNote, added, changes, absent]
  split
  · rfl
  cases item.additionIn r with
  | some a => rfl
  | none =>
    cases item.deprecationIn r with
    | some d => rfl
    | none =>
      cases item.changesIn r with
      | nil => cases item.deprecationBefore t r <;> rfl
      | cons ch rest =>
        simp only [Option.map_none]
        split <;> rfl

end Item

section Steps

variable (item : Item) (old new : Status)

theorem Member.ofStatus?_withoutNote :
    ofStatus? item.withoutNote old.withoutNote = (ofStatus? item old).map Member.withoutNote := by
  cases old <;> rfl

theorem FieldStep.upgrade?_withoutNote :
    upgrade? item.withoutNote old.withoutNote new.withoutNote = upgrade? item old new := by
  rw [upgrade?.eq_def, old.member?_withoutNote]
  cases new <;> cases member : old.member? <;> simp only [Status.withoutNote, upgrade?, member] <;> rfl

theorem FieldStep.downgrade?_withoutNote :
    downgrade? item.withoutNote old.withoutNote new.withoutNote = downgrade? item old new := by
  rw [downgrade?.eq_def, old.member?_withoutNote]
  cases new <;> cases member : old.member? <;> simp only [Status.withoutNote, downgrade?, member] <;> rfl

theorem Dropped.ofStatuses?_withoutNote :
    ofStatuses? item.withoutNote old.withoutNote new.withoutNote = ofStatuses? item old new := by
  rw [ofStatuses?, old.isPresent_withoutNote, new.member?_withoutNote]
  rfl

theorem VariantStep.upgrade?_withoutNote :
    upgrade? item.withoutNote old.withoutNote new.withoutNote = upgrade? item old new := by
  rw [upgrade?.eq_def, old.member?_withoutNote]
  cases new <;> cases member : old.member? <;> simp only [Status.withoutNote, upgrade?, member] <;> rfl

theorem Definition.member?_withoutNotes (d : Definition) (name : String) :
    d.withoutNotes.member? name = (d.member? name).map Member.withoutNote := by
  rw [member?, withoutNotes, List.find?_map]
  rfl

theorem VariantStep.downgrade_withoutNote (container : String) (older newer : Release) (d : Definition) :
    downgrade container item.withoutNote old.withoutNote new.withoutNote older newer (some d.withoutNotes) =
      downgrade container item old new older newer (some d) := by
  have absent : ∀ variant, (d.withoutNotes.member? variant).isNone = (d.member? variant).isNone := by
    intro variant
    rw [d.member?_withoutNotes, Option.isNone_map]
  rw [downgrade.eq_def, old.member?_withoutNote, new.member?_withoutNote]
  cases new <;> cases member : old.member? <;>
    simp only [Status.withoutNote, downgrade, member, Option.any_some, absent, fallbackOf?] <;> rfl

end Steps

theorem Container.definitionIn_withoutNotes (c : Container) (t : Timeline) (r : Release) :
    c.withoutNotes.definitionIn t r = (c.definitionIn t r).withoutNotes := by
  have members : (c.items.map Item.withoutNote).filterMap
        (fun item => Member.ofStatus? item (item.statusIn c.kind t r)) =
      (c.items.filterMap fun item => Member.ofStatus? item (item.statusIn c.kind t r)).map
        Member.withoutNote := by
    rw [List.filterMap_map, List.map_filterMap]
    refine List.filterMap_congr fun item _ => ?_
    rw [Function.comp_apply, Item.statusIn_withoutNote, Member.ofStatus?_withoutNote]
  exact congrArg (fun members => Definition.mk c.name c.kind r members c.doc) members

/-- Edges do not depend on notes. -/
theorem Edge.Made.withoutNotes {c : Container} {t : Timeline} {older newer : Release} {e : Edge}
    (own : Made c t older newer e) : Made c.withoutNotes t older newer e := by
  have statuses : ∀ {α : Type} (f : Item → Status → Status → Option α),
      (∀ item old new, f item.withoutNote old.withoutNote new.withoutNote = f item old new) →
      (c.withoutNotes.items.filterMap fun item =>
        f item (item.statusIn c.withoutNotes.kind t older) (item.statusIn c.withoutNotes.kind t newer)) =
      c.items.filterMap fun item => f item (item.statusIn c.kind t older) (item.statusIn c.kind t newer) := by
    intro α f unaffected
    rw [Container.withoutNotes, List.filterMap_map]
    refine List.filterMap_congr fun item _ => ?_
    simp only [Function.comp_apply, Item.statusIn_withoutNote, unaffected]
  cases own with
  | structUpgrade kind =>
    rw [← statuses _ FieldStep.upgrade?_withoutNote]
    exact @structUpgrade c.withoutNotes t older newer kind
  | structDowngrade kind =>
    rw [← statuses _ FieldStep.downgrade?_withoutNote, ← statuses _ Dropped.ofStatuses?_withoutNote]
    exact @structDowngrade c.withoutNotes t older newer kind
  | enumUpgrade kind =>
    rw [← statuses _ VariantStep.upgrade?_withoutNote]
    exact @enumUpgrade c.withoutNotes t older newer kind
  | enumDowngrade kind steps each =>
    refine @enumDowngrade c.withoutNotes t older newer kind steps ?_
    simp only [c.definitionIn_withoutNotes]
    rw [Container.withoutNotes, List.forall₂_map_left_iff]
    simp only [Item.statusIn_withoutNote, VariantStep.downgrade_withoutNote]
    exact each

namespace Generation

/-- Definitions are those of the container, and the notes in them are its own. -/
theorem Made.note_mem {c : Container} {g : Generation} (made : Made c g) {d : Definition} (among : d ∈ g.definitions)
    {m : Member} (member : m ∈ d.members) {note : String} (noted : m.note = some note) : note ∈ c.notes := by
  rw [made.definitions] at among
  obtain ⟨r, _, rfl⟩ := List.mem_map.mp among
  obtain ⟨item, own, there⟩ := List.mem_filterMap.mp member
  obtain ⟨_, _, rfl⟩ := Option.map_eq_some_iff.mp there
  obtain ⟨a, deprecated, told⟩ := Item.note_statusIn noted
  exact List.mem_filterMap.mpr ⟨item, own, by rw [deprecated]; exact told⟩

section Alike

variable {c c' : Container} {g g' : Generation} (same : c.withoutNotes = c'.withoutNotes)
  (run : ofContainer c = .ok g) (run' : ofContainer c' = .ok g')
include same run run'

theorem timeline_of_withoutNotes : g'.timeline = g.timeline := by
  have versions : c.versions = c'.versions := congrArg (·.versions) same
  rw [(wellFormed_of_ofContainer run).2, (wellFormed_of_ofContainer run').2]
  simp only [Container.timeline, versions]

theorem definitions_of_withoutNotes :
    g.definitions.map Definition.withoutNotes = g'.definitions.map Definition.withoutNotes := by
  rw [(made_of_ofContainer run).definitions, (made_of_ofContainer run').definitions,
    timeline_of_withoutNotes same run run', List.map_map, List.map_map]
  refine List.map_congr_left fun r _ => ?_
  simp only [Function.comp_apply, ← Container.definitionIn_withoutNotes, same]

/-- Containers that differ only in notes have definitions that do. -/
theorem definition_of_withoutNotes (name : String) :
    (g.definition name).map Definition.withoutNotes = (g'.definition name).map Definition.withoutNotes := by
  have whole : ∀ h : Generation, (h.definition name).map Definition.withoutNotes =
      (h.timeline.get name).bind fun r =>
        ((h.definitions.map Definition.withoutNotes).find? fun d => d.release.name == r.name).elim
          (.error (.fault (.uncovered r.name))) .ok := by
    intro h
    rw [definition]
    cases h.timeline.get name with
    | error failure => rfl
    | ok r =>
      simp only [bind, Except.bind, List.find?_map]
      have release : (fun d : Definition => d.release.name == r.name) ∘ Definition.withoutNotes =
          fun d => d.release.name == r.name := rfl
      rw [release]
      cases h.definitions.find? fun d => d.release.name == r.name <;> rfl
  rw [whole, whole, timeline_of_withoutNotes same run run', definitions_of_withoutNotes same run run']

/-- Containers that differ only in notes have the same edges. -/
theorem edge?_of_withoutNotes (source target : String) : g.edge? source target = g'.edge? source target := by
  have options : c.withoutNotes.options = c'.withoutNotes.options := congrArg (·.options) same
  have converts : ∀ r, c'.Converts r ↔ c.Converts r := by
    intro r
    rw [Container.Converts, Container.Converts]
    exact iff_of_eq (congrArg (fun o : Options => o.skipFrom = false ∧ r.skipFrom = false) options.symm)
  have made := made_of_ofContainer run
  have alike := made.edge?_rel (R := Eq) (made_of_ofContainer run') (timeline_of_withoutNotes same run run') converts
    (fun own other direction => own.withoutNotes.eq_of_direction (same ▸ other.withoutNotes) direction) source target
  generalize g.edge? source target = e, g'.edge? source target = e' at alike ⊢
  cases alike with
  | none => rfl
  | some same => rw [same]

end Alike

end Generation

end Lineage
