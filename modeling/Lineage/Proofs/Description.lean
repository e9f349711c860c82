import Lineage.Description.Source
import Lineage.Proofs.Yaml

namespace Lineage

/-- Whether a failure says of a file that it holds no description of the kind that is asked for. -/
def Failure.OfDescription (failure : Failure) : Prop :=
  ∃ source cause, failure = .description source cause

/-- Whether a failure is one of a description, or a fault with a property. -/
def Failure.OfDescriptionOr (P : Fault → Prop) (failure : Failure) : Prop :=
  failure.OfDescription ∨ ∃ cause, failure = .fault cause ∧ P cause

/-- Whether a fault is one that a file can have: that its bytes are no text, or one of a document. -/
def Fault.InFile (cause : Fault) : Prop :=
  (∃ reason, cause = .badEncoding reason) ∨ cause.InDocument

theorem textOfBytes_error {data : List UInt8} {cause : Fault} (garbled : textOfBytes data = .error cause) :
    ∃ reason, cause = .badEncoding reason := by
  unfold textOfBytes at garbled
  split at garbled <;> cases garbled
  exact ⟨_, rfl⟩

namespace Description

/-- Whether a text has a fault for which it is not refused as a description: in JSON an integer that is too
long or values that are too deep in each other, and in what is no JSON whatever YAML is refused for, unless
it is malformed. -/
inductive TextBreaks (text : String) : Fault → Prop
  | digits {count : Nat} (refused : Json.read text = .error (.tooLong count)) :
      TextBreaks text (.digitsRead count)
  | depth {kind : Json.Nest} (refused : Json.read text = .error (.tooDeep kind)) :
      TextBreaks text (.tooDeep s!" while decoding a JSON {kind.name} from a unicode string")
  | value {offset : Nat} {cause : Fault} (noJson : Json.read text = .error (.malformed offset))
      (refused : Yaml.read text = .error (.fault cause)) : TextBreaks text cause

/-- Whether the bytes of a file have a fault for which they are not refused as a description. -/
inductive Breaks (data : List UInt8) : Fault → Prop
  | encoding {cause : Fault} (garbled : textOfBytes data = .error cause) : Breaks data cause
  | text {text : String} {cause : Fault} (holds : textOfBytes data = .ok text) (breaks : TextBreaks text cause) :
      Breaks data cause

theorem TextBreaks.inDocument {text : String} {cause : Fault} (breaks : TextBreaks text cause) :
    cause.InDocument := by
  cases breaks with
  | digits | depth => trivial
  | value _ refused => exact Yaml.read_errsOnly text _ refused

theorem Breaks.inFile {data : List UInt8} {cause : Fault} (breaks : Breaks data cause) : cause.InFile := by
  cases breaks with
  | encoding garbled => exact .inl (textOfBytes_error garbled)
  | text _ breaks => exact .inr breaks.inDocument

theorem parse_of_breaks {text : String} {cause : Fault} (breaks : TextBreaks text cause) (source : String) :
    parse source text = .error (.fault cause) := by
  cases breaks with
  | digits refused | depth refused => simp only [parse, refused]; rfl
  | value noJson refused => simp only [parse, noJson, refused]; rfl

theorem asMapping_errsOnly (source : String) (data : Value) :
    ErrsOnly Failure.OfDescription (asMapping source data) := by
  unfold asMapping
  split
  · exact .ok _
  · rintro _ ⟨⟩
    exact ⟨_, _, rfl⟩

/-- What is neither read nor broken is refused as a description. -/
theorem parse_errsOnly (source text : String) :
    ErrsOnly (Failure.OfDescriptionOr (TextBreaks text)) (parse source text) := by
  have mapping : ∀ data, ErrsOnly (Failure.OfDescriptionOr (TextBreaks text)) (asMapping source data) :=
    fun data failure fails => .inl (asMapping_errsOnly source data failure fails)
  unfold parse
  split
  · exact mapping _
  · rename_i count refused
    rintro _ ⟨⟩
    exact .inr ⟨_, rfl, .digits refused⟩
  · rename_i kind refused
    rintro _ ⟨⟩
    exact .inr ⟨_, rfl, .depth refused⟩
  · rename_i offset noJson
    split
    · exact mapping _
    · rintro _ ⟨⟩
      exact .inl ⟨_, _, rfl⟩
    · rename_i cause refused
      rintro _ ⟨⟩
      exact .inr ⟨_, rfl, .value noJson refused⟩

theorem accept_errsOnly {α : Type} (title path : String) (found : Checked α) :
    ErrsOnly Failure.OfDescription (accept title path found) := by
  cases found with
  | good a => exact .ok a
  | bad issues =>
    rintro _ ⟨⟩
    exact ⟨_, _, rfl⟩

section Load

variable {t : FileTree} {p : FilePath} {data : List UInt8} (found : t.read p = .ok data)
include found

theorem parseFile_of_breaks {cause : Fault} (breaks : Breaks data cause) :
    parseFile t p = .error (.fault cause) := by
  cases breaks with
  | encoding garbled => simp only [parseFile, found, garbled]; rfl
  | text holds breaks =>
    have parsed := parse_of_breaks breaks p.text
    simp only [parseFile, found, holds]
    exact parsed

/-- A file is read, or fails as a description does, or its bytes break. -/
theorem parseFile_errsOnly : ErrsOnly (Failure.OfDescriptionOr (Breaks data)) (parseFile t p) := by
  intro failure fails
  simp only [parseFile, found] at fails
  cases holds : textOfBytes data with
  | error cause =>
    rw [holds] at fails
    cases fails
    exact .inr ⟨cause, rfl, .encoding holds⟩
  | ok text =>
    rw [holds] at fails
    rcases parse_errsOnly _ _ failure fails with reported | ⟨cause, same, breaks⟩
    · exact .inl reported
    · exact .inr ⟨cause, same, .text holds breaks⟩

/-- Whatever is made of the mapping in a file, a file that breaks is not refused as a description, and every
other is, if it is not accepted. -/
theorem reports_iff {α : Type} {next : Value → Except Failure α}
    (accepts : ∀ v, ErrsOnly Failure.OfDescription (next v)) :
    ErrsOnly Failure.OfDescription (parseFile t p >>= next) ↔ ∀ cause, ¬ Breaks data cause := by
  constructor
  · intro reported cause breaks
    obtain ⟨source, other, same⟩ := reported (.fault cause) (by rw [parseFile_of_breaks found breaks]; rfl)
    cases same
  · intro sound
    refine .bind (fun failure fails => ?_) accepts
    rcases parseFile_errsOnly found failure fails with reported | ⟨cause, _, breaks⟩
    · exact reported
    · exact absurd breaks (sound cause)

end Load

/-- What is in a file is loaded or refused as a description exactly if it does not break. If it does, both
loaders fail with the fault itself, which is that the bytes are no text, or one that documents can have. -/
theorem load_reports_unless_breaks {t : FileTree} {path : String} {data : List UInt8}
    (found : t.read (.ofText path) = .ok data) :
    ((∀ failure, loadContainer t path = .error failure → failure.OfDescription) ↔
        ∀ cause, ¬ Breaks data cause) ∧
      ((∀ failure, loadBundle t path = .error failure → failure.OfDescription) ↔
        ∀ cause, ¬ Breaks data cause) ∧
      ∀ cause, Breaks data cause → cause.InFile ∧
        loadContainer t path = .error (.fault cause) ∧ loadBundle t path = .error (.fault cause) := by
  refine ⟨reports_iff found fun _ => accept_errsOnly _ _ _, reports_iff found fun _ => accept_errsOnly _ _ _, ?_⟩
  intro cause breaks
  have stops := parseFile_of_breaks found breaks
  refine ⟨breaks.inFile, ?_, ?_⟩
  · rw [loadContainer, stops]
    rfl
  · rw [loadBundle, stops]
    rfl

/-- A folder with a single file. -/
def holding (name : String) (data : List UInt8) : FileTree :=
  { FileTree.empty with files := [(Location.here.inner name, data)] }

/-- A day in the thirteenth month. -/
def thirteenth : List UInt8 :=
  "since: 2001-13-01".toUTF8.toList

/-- The month is found to be none when the document is read, and the loaders fail for that. -/
theorem load_reports_unless_breaks_month :
    (holding "order.yaml" thirteenth).read (.ofText "order.yaml") = .ok thirteenth ∧
      Breaks thirteenth (.badCalendar "month must be in 1..12") ∧
      loadContainer (holding "order.yaml" thirteenth) "order.yaml" =
        .error (.fault (.badCalendar "month must be in 1..12")) ∧
      ¬ ∀ failure, loadBundle (holding "order.yaml" thirteenth) "order.yaml" = .error failure →
        failure.OfDescription := by
  have found : (holding "order.yaml" thirteenth).read (.ofText "order.yaml") = .ok thirteenth := by
    decide +kernel
  have holds : textOfBytes thirteenth = .ok "since: 2001-13-01" := by decide +kernel
  have refused : (Yaml.read "since: 2001-13-01").map (fun _ => ()) =
      .error (.fault (.badCalendar "month must be in 1..12")) := by decide +kernel
  have breaks : Breaks thirteenth (.badCalendar "month must be in 1..12") :=
    .text holds (.value rfl (eq_error_of_map refused))
  obtain ⟨_, reported, stops⟩ := load_reports_unless_breaks found
  exact ⟨found, breaks, (stops _ breaks).2.1, fun all => reported.mp all _ breaks⟩

/-- A byte with which no character starts is not reported as a fault of the description. -/
theorem garbled_unreported :
    (holding "order.yaml" [0xff]).read (.ofText "order.yaml") = .ok [0xff] ∧
      loadContainer (holding "order.yaml" [0xff]) "order.yaml" = .error (.fault (.badEncoding
        "'utf-8' codec can't decode byte 0xff in position 0: invalid start byte")) ∧
      ¬ ∀ failure, loadContainer (holding "order.yaml" [0xff]) "order.yaml" = .error failure →
        failure.OfDescription := by
  have found : (holding "order.yaml" [0xff]).read (.ofText "order.yaml") = .ok [0xff] := by decide +kernel
  have fails : (loadContainer (holding "order.yaml" [0xff]) "order.yaml").map (fun _ => ()) =
      .error (.fault (.badEncoding "'utf-8' codec can't decode byte 0xff in position 0: invalid start byte")) := by
    decide +kernel
  refine ⟨found, eq_error_of_map fails, fun reported => ?_⟩
  obtain ⟨source, cause, same⟩ := reported _ (eq_error_of_map fails)
  cases same

end Description

end Lineage
