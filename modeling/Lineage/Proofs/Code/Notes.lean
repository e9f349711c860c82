import Lineage.Code.Module
import Lineage.Proofs.Generation.Notes
import Lineage.Rendering
import Lineage.Text.Lines

namespace Lineage

/-- The note of a member, as far as it is written. -/
def Member.writtenNote (m : Member) : List Char :=
  if m.deprecated then (m.note.getD "").toList else []

/-- How many lines end in the notes of the members of definitions. -/
def Definition.noteEnds (ends : Char → Bool) (ds : List Definition) : Nat :=
  (ds.flatMap fun d => d.members.flatMap Member.writtenNote).countP ends

/-- Whether no line ends in the note of a member. -/
def Member.Unbroken (ends : Char → Bool) (m : Member) : Prop :=
  ∀ note, m.note = some note → ∀ ch ∈ note.toList, ends ch = false

/-- Whether no line ends in the note of any member of a definition. -/
def Definition.Unbroken (ends : Char → Bool) (d : Definition) : Prop :=
  ∀ m ∈ d.members, m.Unbroken ends

theorem Definition.noteEnds_cons (ends : Char → Bool) (d : Definition) (ds : List Definition) :
    noteEnds ends (d :: ds) = noteEnds ends [d] + noteEnds ends ds := by
  simp [noteEnds]

namespace Code

/-- The lines of a text, which end at some characters. -/
def linesAt (ends : Char → Bool) (text : String) : List (List Char) :=
  text.toList.splitOnP ends

/-- Whether two lines are the same up to what follows the mark of a deprecation. -/
inductive Alike : List Char → List Char → Prop
  | same (line : List Char) : Alike line line
  | marked (start rest rest' : List Char) :
      Alike (start ++ ("# deprecated".toList ++ rest)) (start ++ ("# deprecated".toList ++ rest'))

theorem Alike.cons {line line' : List Char} (ch : Char) (alike : Alike line line') :
    Alike (ch :: line) (ch :: line') := by
  cases alike with
  | same line => exact .same _
  | marked start rest rest' => exact .marked (ch :: start) rest rest'

section Lines

variable {ends : Char → Bool}

theorem length_splitOnP (cs : List Char) : (cs.splitOnP ends).length = cs.countP ends + 1 := by
  induction cs with
  | nil => simp
  | cons ch rest ih =>
    rw [List.splitOnP_cons_eq_if_modifyHead, List.countP_cons]
    split
    · rw [List.length_cons, ih]
    · rw [List.length_modifyHead, ih, Nat.add_zero]

theorem alike_refl (lines : List (List Char)) : List.Forall₂ Alike lines lines :=
  List.forall₂_same.mpr fun line _ => .same line

/-- Texts that differ behind a mark, but not in where lines end, have lines that differ there. -/
theorem alike_splitOnP {rest rest' : List Char} (mark : ∀ ch ∈ "# deprecated".toList, ends ch = false)
    (free : ∀ ch ∈ rest, ends ch = false) (free' : ∀ ch ∈ rest', ends ch = false) (start : List Char) :
    List.Forall₂ Alike ((start ++ ("# deprecated".toList ++ rest)).splitOnP ends)
      ((start ++ ("# deprecated".toList ++ rest')).splitOnP ends) := by
  induction start with
  | nil =>
    have single : ∀ rest : List Char, (∀ ch ∈ rest, ends ch = false) →
        (("# deprecated".toList ++ rest).splitOnP ends) = ["# deprecated".toList ++ rest] := by
      intro rest free
      refine List.splitOnP_eq_singleton fun ch member => ?_
      rcases List.mem_append.mp member with inMark | inRest
      · exact mark ch inMark
      · exact free ch inRest
    rw [List.nil_append, List.nil_append, single rest free, single rest' free']
    exact .cons (.marked [] rest rest') .nil
  | cons ch start ih =>
    simp only [List.cons_append, List.splitOnP_cons_eq_if_modifyHead]
    split
    · exact .cons (.same []) ih
    · generalize (start ++ ("# deprecated".toList ++ rest)).splitOnP ends = lines at ih ⊢
      generalize (start ++ ("# deprecated".toList ++ rest')).splitOnP ends = lines' at ih ⊢
      cases ih with
      | nil => exact .nil
      | cons first others => exact .cons (first.cons ch) others

theorem linesAt_join (feed : ends '\n' = true) (lines : List String) :
    linesAt ends (String.join (lines.map (· ++ "\n"))) = lines.flatMap (linesAt ends) ++ [[]] := by
  rw [linesAt, String.toList_join]
  induction lines with
  | nil => rfl
  | cons line rest ih =>
    have begins : (line ++ "\n").toList = line.toList ++ ['\n'] := String.toList_append
    rw [List.map_cons, List.flatMap_cons, begins, List.append_assoc, List.singleton_append,
      List.splitOnP_append_cons _ _ feed, ih, List.flatMap_cons, List.append_assoc]
    rfl

end Lines

/-- The part of a comment that tells the note. -/
def noteText (note : Option String) : String :=
  ((filled? note).map fun note => ": " ++ note).getD ""

theorem deprecationComment_of_deprecated {m : Member} (deprecated : m.deprecated = true) :
    deprecationComment m = "  # deprecated" ++ noteText m.note := by
  rw [deprecationComment, if_pos deprecated, noteText]
  cases filled? m.note with
  | none => rfl
  | some note => rw [Option.map_some, Option.getD_some, ← String.append_assoc]; rfl

/-- The line of a member is that of one that is not deprecated, and then the comment. -/
theorem memberLine_eq (kind : Kind) (m : Member) : memberLine kind m =
    memberLine kind { m.withoutNote with deprecated := false } ++ deprecationComment m := by
  have bare : deprecationComment { m.withoutNote with deprecated := false } = "" := rfl
  cases kind <;> simp only [memberLine, bare] <;>
    exact congrArg (· ++ deprecationComment m) (String.append_empty ..).symm

/-- The classes of definitions that differ in notes differ in the lines of members. -/
theorem exists_classLines {d d' : Definition} (same : d.withoutNotes = d'.withoutNotes) :
    ∃ head, classLines d = head ++ d.members.map (memberLine d.kind) ∧
      classLines d' = head ++ d'.members.map (memberLine d.kind) ∧
      List.Forall₂ (fun m m' : Member => m.withoutNote = m'.withoutNote) d.members d'.members := by
  obtain ⟨container, kind, release, members, doc⟩ := d
  obtain ⟨container', kind', release', members', doc'⟩ := d'
  simp only [Definition.withoutNotes, Definition.mk.injEq] at same
  obtain ⟨rfl, rfl, rfl, erased, rfl⟩ := same
  have empty : members.isEmpty = members'.isEmpty := by
    have := congrArg List.isEmpty erased
    rwa [List.isEmpty_map, List.isEmpty_map] at this
  refine ⟨_, rfl, ?_, forall₂_of_map_eq erased⟩
  simp only [classLines, Definition.className, empty]

section Definitions

variable {ends : Char → Bool} (only : ∀ ch, ends ch = true → Text.endsLine ch = true)
include only

theorem not_ends {cs : List Char} (inside : cs.all (fun ch => !Text.endsLine ch) = true) :
    ∀ ch ∈ cs, ends ch = false := by
  intro ch member
  have not := List.all_eq_true.mp inside ch member
  cases there : ends ch with
  | false => rfl
  | true =>
    rw [only ch there] at not
    cases not

/-- The text of a note has as many line ends as the note. -/
theorem countP_noteText (note : Option String) :
    (noteText note).toList.countP ends = (note.getD "").toList.countP ends := by
  have colon : (": ".toList).countP ends = 0 := by
    rw [List.countP_eq_zero]
    exact fun ch member => Bool.not_eq_true _ |>.mpr (not_ends only (by decide) ch member)
  cases note with
  | none => rfl
  | some note =>
    by_cases empty : note = ""
    · subst empty
      rfl
    · rw [noteText, filled?_eq_some.mpr ⟨rfl, empty⟩, Option.map_some, Option.getD_some, String.toList_append,
        List.countP_append, colon, Nat.zero_add, Option.getD_some]

/-- The line of a member has as many line ends as without its note, and those of the note. -/
theorem countP_memberLine (kind : Kind) (m : Member) : (memberLine kind m).toList.countP ends =
    (memberLine kind m.withoutNote).toList.countP ends + m.writtenNote.countP ends := by
  rw [memberLine_eq kind m, memberLine_eq kind m.withoutNote, String.toList_append, String.toList_append,
    List.countP_append, List.countP_append, Nat.add_assoc]
  congr 1
  cases deprecated : m.deprecated with
  | false =>
    simp [Member.writtenNote, deprecationComment, Member.withoutNote, deprecated]
  | true =>
    have erased : m.withoutNote.deprecated = true := deprecated
    rw [deprecationComment_of_deprecated deprecated, deprecationComment_of_deprecated erased, String.toList_append,
      String.toList_append, List.countP_append, List.countP_append, countP_noteText only, countP_noteText only,
      Member.writtenNote, if_pos deprecated]
    rfl

/-- The lines of two members that differ only in unbroken notes are alike. -/
theorem alike_memberLine {kind : Kind} {m m' : Member} (same : m.withoutNote = m'.withoutNote)
    (unbroken : m.Unbroken ends) (unbroken' : m'.Unbroken ends) :
    List.Forall₂ Alike (linesAt ends (memberLine kind m)) (linesAt ends (memberLine kind m')) := by
  have written : ∀ note : Option String, (∀ text, note = some text → ∀ ch ∈ text.toList, ends ch = false) →
      ∀ ch ∈ (noteText note).toList, ends ch = false := by
    intro note free ch member
    have none : (noteText note).toList.countP ends = 0 := by
      rw [countP_noteText only, List.countP_eq_zero]
      intro ch member
      cases note with
      | none => cases member
      | some text => simpa using free text rfl ch member
    simpa using List.countP_eq_zero.mp none ch member
  rw [memberLine_eq kind m, memberLine_eq kind m', same]
  have marked : m.deprecated = m'.deprecated :=
    (congrArg Member.deprecated same : m.withoutNote.deprecated = m'.withoutNote.deprecated)
  cases deprecated : m.deprecated with
  | false =>
    have bare : deprecationComment m = "" := by rw [deprecationComment, if_neg (by simp [deprecated])]
    have bare' : deprecationComment m' = "" := by
      rw [deprecationComment, if_neg (by simp [← marked, deprecated])]
    rw [bare, bare']
    exact alike_refl _
  | true =>
    rw [deprecationComment_of_deprecated deprecated, deprecationComment_of_deprecated (marked ▸ deprecated)]
    generalize memberLine kind { m'.withoutNote with deprecated := false } = start
    have apart : ∀ tail : String, (start ++ ("  # deprecated" ++ tail)).toList =
        (start ++ "  ").toList ++ ("# deprecated".toList ++ tail.toList) := by
      intro tail
      simp [String.toList_append]
    rw [linesAt, linesAt, apart, apart]
    exact alike_splitOnP (not_ends only (by decide)) (written m.note unbroken) (written m'.note unbroken') _

theorem length_memberLine (kind : Kind) {m m' : Member} (same : m.withoutNote = m'.withoutNote) :
    (linesAt ends (memberLine kind m)).length + m'.writtenNote.countP ends =
      (linesAt ends (memberLine kind m')).length + m.writtenNote.countP ends := by
  rw [linesAt, linesAt, length_splitOnP, length_splitOnP, countP_memberLine only kind m,
    countP_memberLine only kind m', same]
  omega

variable {d d' : Definition} (same : d.withoutNotes = d'.withoutNotes)
include same

/-- Classes that differ only in notes have as many lines, but for the line ends of the notes. -/
theorem length_classLines : ((classLines d).flatMap (linesAt ends)).length + Definition.noteEnds ends [d'] =
    ((classLines d').flatMap (linesAt ends)).length + Definition.noteEnds ends [d] := by
  obtain ⟨head, lines, lines', members⟩ := exists_classLines same
  have members : ((d.members.map (memberLine d.kind)).flatMap (linesAt ends)).length +
      (d'.members.flatMap Member.writtenNote).countP ends =
      ((d'.members.map (memberLine d.kind)).flatMap (linesAt ends)).length +
        (d.members.flatMap Member.writtenNote).countP ends := by
    generalize d.members = ms, d'.members = ms' at members
    induction members with
    | nil => rfl
    | cons first _ ih =>
      have first := length_memberLine only d.kind first
      simp only [List.map_cons, List.flatMap_cons, List.length_append, List.countP_append]
      omega
  rw [lines, lines', List.flatMap_append, List.flatMap_append, List.length_append, List.length_append]
  simp only [Definition.noteEnds, List.flatMap_singleton]
  omega

/-- Classes that differ only in unbroken notes have lines that are alike. -/
theorem alike_classLines (unbroken : d.Unbroken ends) (unbroken' : d'.Unbroken ends) :
    List.Forall₂ Alike ((classLines d).flatMap (linesAt ends)) ((classLines d').flatMap (linesAt ends)) := by
  obtain ⟨head, lines, lines', members⟩ := exists_classLines same
  rw [lines, lines', List.flatMap_append, List.flatMap_append]
  refine List.rel_append (alike_refl _) ?_
  unfold Definition.Unbroken at unbroken unbroken'
  generalize d.members = ms, d'.members = ms' at members unbroken unbroken'
  induction members with
  | nil => exact .nil
  | cons first _ ih =>
    rw [List.forall_mem_cons] at unbroken unbroken'
    simp only [List.map_cons, List.flatMap_cons]
    exact List.rel_append (alike_memberLine only first unbroken.1 unbroken'.1) (ih unbroken.2 unbroken'.2)

omit same

variable {ds ds' : List Definition}
  (each : List.Forall₂ (fun d d' : Definition => d.withoutNotes = d'.withoutNotes) ds ds')
include each

theorem length_flatMap_classLines :
    ((ds.flatMap classLines).flatMap (linesAt ends)).length + Definition.noteEnds ends ds' =
      ((ds'.flatMap classLines).flatMap (linesAt ends)).length + Definition.noteEnds ends ds := by
  induction each with
  | nil => rfl
  | @cons d d' ds ds' first _ ih =>
    have length := length_classLines only first
    rw [Definition.noteEnds_cons, Definition.noteEnds_cons ends d]
    simp only [List.flatMap_cons, List.flatMap_append, List.length_append]
    omega

theorem alike_flatMap_classLines (unbroken : ∀ d ∈ ds ++ ds', d.Unbroken ends) :
    List.Forall₂ Alike ((ds.flatMap classLines).flatMap (linesAt ends))
      ((ds'.flatMap classLines).flatMap (linesAt ends)) := by
  rw [List.forall_mem_append] at unbroken
  obtain ⟨unbroken, unbroken'⟩ := unbroken
  induction each with
  | nil => exact .nil
  | cons first _ ih =>
    rw [List.forall_mem_cons] at unbroken unbroken'
    simp only [List.flatMap_cons, List.flatMap_append]
    exact List.rel_append (alike_classLines only first unbroken.1 unbroken'.1) (ih unbroken.2 unbroken'.2)

end Definitions

theorem branch_withoutNotes (name : String) (source target : Definition) (s : VariantStep) :
    branch name source.withoutNotes target.withoutNotes s = branch name source target s := by
  have type : ∀ variant, (source.withoutNotes.member? variant).bind (·.type) =
      (source.member? variant).bind (·.type) := by
    intro variant
    rw [Definition.member?_withoutNotes, Option.bind_map]
    rfl
  simp only [branch, type]
  rfl

section Functions

theorem liftM_ok_bind {α β : Type} (a : α) (next : α → StateT Imports (Except Failure) β) :
    (liftM (Except.ok a : Except Failure α) >>= next) = next a :=
  rfl

variable {g g' : Generation}

/-- The function of an edge does not depend on notes. -/
theorem functionLines_eq (definition : ∀ name, (g.definition name).map Definition.withoutNotes =
    (g'.definition name).map Definition.withoutNotes) (e : Edge) : functionLines g e = functionLines g' e := by
  have source := definition e.source.name
  have target := definition e.target.name
  unfold functionLines
  generalize g.definition e.source.name = s, g'.definition e.source.name = s', g.definition e.target.name = t,
    g'.definition e.target.name = t' at source target
  cases s with
  | error failure =>
    cases eq_error_of_map source.symm
    rfl
  | ok s =>
    obtain ⟨s', rfl, source'⟩ := exists_of_map source.symm
    cases t with
    | error failure =>
      cases eq_error_of_map target.symm
      rfl
    | ok t =>
      obtain ⟨t', rfl, target'⟩ := exists_of_map target.symm
      have sourceName : s.className = s'.className := (congrArg Definition.className source').symm
      have targetName : t.className = t'.className := (congrArg Definition.className target').symm
      have branches : ∀ name step, branch name s t step = branch name s' t' step := by
        intro name step
        rw [← branch_withoutNotes, ← branch_withoutNotes name s', source', target']
      simp only [liftM_ok_bind, sourceName, targetName, branches]

end Functions

/-- The lines of a module, when those of the classes are given. -/
def moduleOf (before classes after : List String) : String :=
  String.join ((before ++ classes ++ after).map (· ++ "\n"))

/-- Containers that differ in notes only have modules that differ in the classes only. -/
theorem exists_rendered {c c' : Container} {g g' : Generation} (same : c.withoutNotes = c'.withoutNotes)
    (run : Generation.ofContainer c = .ok g) (run' : Generation.ofContainer c' = .ok g') :
    (∃ failure, Format.python.render g = .error failure ∧ Format.python.render g' = .error failure) ∨
    ∃ path before after,
      Format.python.render g = .ok [(path, moduleOf before (g.definitions.flatMap classLines) after)] ∧
      Format.python.render g' = .ok [(path, moduleOf before (g'.definitions.flatMap classLines) after)] := by
  have made := Generation.made_of_ofContainer run
  have made' := Generation.made_of_ofContainer run'
  have timeline := Generation.timeline_of_withoutNotes same run run'
  have edges : orderedEdges g' = orderedEdges g := by
    simp only [orderedEdges, timeline, Generation.edge?_of_withoutNotes same run run']
  have functions : functionLines g' = functionLines g :=
    funext fun e => (functionLines_eq (Generation.definition_of_withoutNotes same run run') e).symm
  have container : g'.validated.container.withoutNotes = g.validated.container.withoutNotes := by
    rw [made.container, made'.container, same]
  have name : g'.name = g.name := congrArg (·.name) container
  have head : headLines g' = headLines g := by
    have kind : g'.kind = g.kind := congrArg (·.kind) container
    have doc : g'.validated.container.doc = g.validated.container.doc := congrArg (·.doc) container
    simp only [headLines, timeline, name, kind, doc]
  simp only [Format.render, moduleText, edges, functions, head, name]
  cases (orderedEdges g).mapM (functionLines g) Imports.none with
  | error failure => exact .inl ⟨failure, rfl, rfl⟩
  | ok result => exact .inr ⟨_, _, _, rfl, rfl⟩

section Modules

variable {ends : Char → Bool} (feed : ends '\n' = true) (only : ∀ ch, ends ch = true → Text.endsLine ch = true)
include feed only

/-- The modules of definitions that differ in notes are alike if no line ends in a note, and differ in length by
the lines that do. -/
theorem alike_moduleOf {ds ds' : List Definition}
    (same : ds.map Definition.withoutNotes = ds'.map Definition.withoutNotes) (before after : List String) :
    (linesAt ends (moduleOf before (ds.flatMap classLines) after)).length + Definition.noteEnds ends ds' =
      (linesAt ends (moduleOf before (ds'.flatMap classLines) after)).length + Definition.noteEnds ends ds ∧
    ((∀ d ∈ ds ++ ds', d.Unbroken ends) →
      List.Forall₂ Alike (linesAt ends (moduleOf before (ds.flatMap classLines) after))
        (linesAt ends (moduleOf before (ds'.flatMap classLines) after))) := by
  have each := forall₂_of_map_eq same
  rw [moduleOf, moduleOf, linesAt_join feed, linesAt_join feed]
  simp only [List.flatMap_append, List.length_append]
  refine ⟨?_, fun unbroken => ?_⟩
  · have classes := length_flatMap_classLines only each
    omega
  · have classes := alike_flatMap_classLines only each unbroken
    exact List.rel_append (List.rel_append (List.rel_append (alike_refl _) classes) (alike_refl _)) (alike_refl _)

/-- The modules of two containers that differ in notes of deprecated items only are the same, but for what
follows a mark, if no line ends in a note. Their numbers of lines differ by that of the lines that end in notes. -/
theorem modules_alike {c c' : Container} {g g' : Generation} (same : c.withoutNotes = c'.withoutNotes)
    (run : Generation.ofContainer c = .ok g) (run' : Generation.ofContainer c' = .ok g') :
    (∃ failure, Format.python.render g = .error failure ∧ Format.python.render g' = .error failure) ∨
    ∃ path text text', Format.python.render g = .ok [(path, text)] ∧
      Format.python.render g' = .ok [(path, text')] ∧
      (linesAt ends text).length + Definition.noteEnds ends g'.definitions =
        (linesAt ends text').length + Definition.noteEnds ends g.definitions ∧
      ((∀ note ∈ c.notes ++ c'.notes, ∀ ch ∈ note.toList, ends ch = false) →
        List.Forall₂ Alike (linesAt ends text) (linesAt ends text')) := by
  have lines := alike_moduleOf feed only (Generation.definitions_of_withoutNotes same run run')
  rcases exists_rendered same run run' with fails | ⟨path, before, after, rendered, rendered'⟩
  · exact .inl fails
  · refine .inr ⟨path, _, _, rendered, rendered', (lines before after).1, fun free => (lines before after).2 ?_⟩
    intro d among m member note noted
    refine free note (List.mem_append.mpr ?_)
    exact (List.mem_append.mp among).imp ((Generation.made_of_ofContainer run).note_mem · member noted)
      ((Generation.made_of_ofContainer run').note_mem · member noted)

end Modules

/-- A struct with a field that is deprecated, with a note. -/
def label (note : String) : Container where
  name := "Label"
  kind := .struct
  doc := none
  versions := ["v1", "v2"].map Declaration.named
  items := [⟨"text", some "str", none, none, false, none, [], none⟩,
    ⟨"deprecated_title", some "str", none, none, false, none, [], some ⟨"v2", some note⟩⟩]
  options := ⟨true, false⟩
  resource := none

theorem feed_endsLine (ch : Char) (feed : (ch == '\n') = true) : Text.endsLine ch = true := by
  rw [beq_iff_eq.mp feed]
  decide

theorem label_generated : ∀ note ∈ ["use text", "use text only", "use text\nimport os"],
    (Generation.ofContainer (label note)).toOption.map
      (fun g => ((Format.python.render g).isOk, Definition.noteEnds (· == '\n') g.definitions)) =
    some (true, note.toList.count '\n') := by
  decide +kernel

/-- Modules of two labels whose notes have other words have the same lines but for these. -/
theorem modules_alike_label : ∃ g g' path text text', Generation.ofContainer (label "use text") = .ok g ∧
    Generation.ofContainer (label "use text only") = .ok g' ∧ Format.python.render g = .ok [(path, text)] ∧
    Format.python.render g' = .ok [(path, text')] ∧
    (linesAt (· == '\n') text).length = (linesAt (· == '\n') text').length ∧
    List.Forall₂ Alike (linesAt (· == '\n') text) (linesAt (· == '\n') text') := by
  obtain ⟨g, run, rendered⟩ := exists_of_toOption_map (label_generated "use text" (by decide))
  obtain ⟨g', run', rendered'⟩ := exists_of_toOption_map (label_generated "use text only" (by decide))
  have same : (label "use text").withoutNotes = (label "use text only").withoutNotes := rfl
  rcases modules_alike (by decide) feed_endsLine same run run' with
    ⟨failure, fails, _⟩ | ⟨path, text, text', first, second, _, alike⟩
  · rw [fails] at rendered
    cases rendered
  · have unbroken : ((label "use text").notes ++ (label "use text only").notes).all
        (fun note => note.toList.all fun ch => !(ch == '\n')) = true := by decide +kernel
    have alike := alike fun note member ch inside => by
      simpa using List.all_eq_true.mp (List.all_eq_true.mp unbroken note member) ch inside
    exact ⟨g, g', path, text, text', run, run', first, second, alike.length_eq, alike⟩

/-- Where a line ends in a note, the module has one line more. -/
theorem label_longer : ∃ g g' path text text', Generation.ofContainer (label "use text") = .ok g ∧
    Generation.ofContainer (label "use text\nimport os") = .ok g' ∧
    (label "use text").withoutNotes = (label "use text\nimport os").withoutNotes ∧
    Format.python.render g = .ok [(path, text)] ∧ Format.python.render g' = .ok [(path, text')] ∧
    (linesAt (· == '\n') text').length = (linesAt (· == '\n') text).length + 1 := by
  obtain ⟨g, run, facts⟩ := exists_of_toOption_map (label_generated "use text" (by decide))
  obtain ⟨g', run', facts'⟩ := exists_of_toOption_map (label_generated "use text\nimport os" (by decide))
  obtain ⟨rendered, single⟩ := Prod.mk.inj facts
  obtain ⟨_, broken⟩ := Prod.mk.inj facts'
  have same : (label "use text").withoutNotes = (label "use text\nimport os").withoutNotes := rfl
  rcases exists_rendered same run run' with ⟨failure, fails, _⟩ | ⟨path, before, after, first, second⟩
  · rw [fails] at rendered
    cases rendered
  · refine ⟨g, g', path, _, _, run, run', same, first, second, ?_⟩
    have definitions := Generation.definitions_of_withoutNotes same run run'
    have lines := (alike_moduleOf (by decide) feed_endsLine definitions before after).1
    have none : "use text".toList.count '\n' = 0 := by decide
    have one : "use text\nimport os".toList.count '\n' = 1 := by decide
    rw [single, broken, none, one] at lines
    exact lines.symm

end Code

end Lineage
