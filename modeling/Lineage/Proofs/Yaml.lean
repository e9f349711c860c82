import Lineage.Proofs.Traversal
import Lineage.Yaml.Reader

namespace Lineage

/-- Whether a fault is one that a document can have: a character, a number, a truth value or a day that there
is not, or values that are too deep in each other. -/
def Fault.InDocument : Fault → Prop
  | .notCodePoint | .codeTooLarge | .digitsRead _ | .notInteger _ _ | .notFloat _ | .tooLargeForFloat
  | .beyondText | .missingKey _ | .badCalendar _ | .noTimestamp | .noTimestampText | .tooDeep _ => True
  | _ => False

section Keeps

variable {σ ε α β : Type} {I : σ → Prop} {P : ε → Prop}

/-- Whether a step keeps what holds of its state, and all its errors have a property. -/
def Keeps (I : σ → Prop) (P : ε → Prop) (m : StateT σ (Except ε) α) : Prop :=
  ∀ s, I s → ErrsOnly P (m s) ∧ ∀ a t, m s = .ok (a, t) → I t

namespace Keeps

theorem pure (a : α) : Keeps I P (Pure.pure a : StateT σ (Except ε) α) := by
  intro s holds
  refine ⟨.ok _, ?_⟩
  rintro b t ⟨⟩
  exact holds

theorem throw {e : ε} (known : P e) : Keeps I P (throw e : StateT σ (Except ε) α) := by
  intro s holds
  refine ⟨?_, nofun⟩
  rintro _ ⟨⟩
  exact known

theorem modify {f : σ → σ} (kept : ∀ s, I s → I (f s)) :
    Keeps I P (modify f : StateT σ (Except ε) PUnit) := by
  intro s holds
  refine ⟨.ok _, ?_⟩
  rintro b t ⟨⟩
  exact kept s holds

theorem lift {m : Except ε α} (only : ErrsOnly P m) : Keeps I P (liftM m : StateT σ (Except ε) α) := by
  intro s holds
  cases m with
  | error cause =>
    refine ⟨?_, nofun⟩
    rintro _ ⟨⟩
    exact only _ rfl
  | ok a =>
    refine ⟨.ok _, ?_⟩
    rintro b t ⟨⟩
    exact holds

/-- Steps that keep an invariant keep it one after the other. -/
theorem bind {m : StateT σ (Except ε) α} {next : α → StateT σ (Except ε) β} (first : Keeps I P m)
    (each : ∀ a, Keeps I P (next a)) : Keeps I P (m >>= next) := by
  intro s holds
  obtain ⟨only, kept⟩ := first s holds
  have unfolded : (m >>= next) s = m s >>= fun (a, t) => next a t := rfl
  rw [unfolded]
  cases result : m s with
  | error cause =>
    refine ⟨?_, nofun⟩
    rintro _ ⟨⟩
    exact only cause result
  | ok pair => exact each pair.1 pair.2 (kept _ _ result)

theorem throw_bind {e : ε} {next : α → StateT σ (Except ε) β} (known : P e) :
    Keeps I P (MonadExcept.throw e >>= next) :=
  throw known

theorem get_bind {next : σ → StateT σ (Except ε) β} (each : ∀ s, I s → Keeps I P (next s)) :
    Keeps I P (get >>= next) :=
  fun s holds => each s holds s holds

theorem map {m : StateT σ (Except ε) α} (f : α → β) (kept : Keeps I P m) : Keeps I P (f <$> m) :=
  bind kept fun a => pure (f a)

theorem ite {p : Prop} [Decidable p] {first second : StateT σ (Except ε) α} (whenTrue : Keeps I P first)
    (whenFalse : Keeps I P second) : Keeps I P (if p then first else second) := by
  split
  · exact whenTrue
  · exact whenFalse

theorem mapM {f : α → StateT σ (Except ε) β} (each : ∀ x, Keeps I P (f x)) (xs : List α) :
    Keeps I P (xs.mapM f) := by
  induction xs with
  | nil => exact pure _
  | cons x rest ih =>
    rw [List.mapM_cons]
    exact bind (each x) fun _ => bind ih fun _ => pure _

theorem forM {f : α → StateT σ (Except ε) PUnit} (each : ∀ x, Keeps I P (f x)) (xs : List α) :
    Keeps I P (xs.forM f) := by
  induction xs with
  | nil => exact pure _
  | cons x rest ih => exact bind (each x) fun _ => ih

end Keeps

end Keeps

namespace Yaml

/-- Whether a document is refused as malformed, or for a fault that documents can have. -/
def Refusal.Known : Refusal → Prop
  | .malformed => True
  | .fault cause => cause.InDocument

theorem malformed_errsOnly {α : Type} : ErrsOnly Refusal.Known (.error .malformed : Except Refusal α) := by
  rintro _ ⟨⟩
  trivial

theorem refused_errsOnly {α : Type} {cause : Fault} (known : cause.InDocument) :
    ErrsOnly Refusal.Known (.error (.fault cause) : Except Refusal α) := by
  rintro _ ⟨⟩
  exact known

namespace Cursor

theorem name_errsOnly (c : Cursor) : ErrsOnly Refusal.Known c.name := .ite malformed_errsOnly (.ok _)

theorem anchorName_errsOnly (c : Cursor) : ErrsOnly Refusal.Known c.anchorName :=
  .bind (name_errsOnly _) fun _ => .ite (.ok _) malformed_errsOnly

theorem tagAddress_errsOnly (c : Cursor) : ErrsOnly Refusal.Known c.tagAddress := by
  unfold tagAddress
  simp only
  split
  · exact malformed_errsOnly
  · exact .ite malformed_errsOnly (.ok _)

theorem tagHandle_errsOnly (c : Cursor) : ErrsOnly Refusal.Known c.tagHandle :=
  .ite malformed_errsOnly (.ite (.ok _) (.ite (.ok _) malformed_errsOnly))

theorem tagToken_errsOnly (c : Cursor) : ErrsOnly Refusal.Known c.tagToken := by
  have found : ∀ token : Token, ∀ after : Cursor, ErrsOnly Refusal.Known
      (if endsField after.head? then pure (token, after) else throw .malformed) :=
    fun _ _ => .ite (.ok _) malformed_errsOnly
  unfold tagToken
  refine .ite ?_ (.ite (found _ _) (.ite ?_ ?_))
  · exact .bind (tagAddress_errsOnly _) fun _ => .ite (found _ _) malformed_errsOnly
  · exact .bind (tagHandle_errsOnly _) fun _ => .bind (tagAddress_errsOnly _) fun _ => found _ _
  · exact .bind (tagAddress_errsOnly _) fun _ => found _ _

theorem versionNumber_errsOnly (c : Cursor) : ErrsOnly Refusal.Known c.versionNumber := by
  unfold versionNumber
  split
  · exact .ok _
  · exact malformed_errsOnly
  · exact refused_errsOnly trivial

theorem skipBlankLine_errsOnly (c : Cursor) : ErrsOnly Refusal.Known c.skipBlankLine := by
  unfold skipBlankLine
  simp only
  split
  · exact .ok _
  · exact .ite (.ok _) malformed_errsOnly

theorem directive_errsOnly (c : Cursor) : ErrsOnly Refusal.Known c.directive := by
  have found : ∀ token : Token, ∀ after : Cursor, ErrsOnly Refusal.Known (do
      let after ← after.skipBlankLine
      return (token, after)) := fun _ _ => .bind (skipBlankLine_errsOnly _) fun _ => .ok _
  unfold directive
  refine .bind (name_errsOnly _) fun _ => .ite malformed_errsOnly (.ite ?_ (.ite ?_ (found _ _)))
  · refine .bind (versionNumber_errsOnly _) fun _ => .ite malformed_errsOnly ?_
    exact .bind (versionNumber_errsOnly _) fun _ => .ite malformed_errsOnly (found _ _)
  · refine .bind (tagHandle_errsOnly _) fun _ => .ite malformed_errsOnly ?_
    exact .bind (tagAddress_errsOnly _) fun _ => .ite malformed_errsOnly (found _ _)

theorem blockMarks_errsOnly (c : Cursor) : ErrsOnly Refusal.Known c.blockMarks := by
  unfold blockMarks
  simp only
  exact .ite malformed_errsOnly (.ok _)

theorem blockScalar_errsOnly (folded : Bool) (indent : Int) (c : Cursor) :
    ErrsOnly Refusal.Known (c.blockScalar folded indent) :=
  .bind (blockMarks_errsOnly _) fun _ => .bind (skipBlankLine_errsOnly _) fun _ => .ok _

end Cursor

theorem ofCode_errsOnly (code : Nat) : ErrsOnly Refusal.Known (ofCode code) :=
  .ite (.ok _) (.ite (refused_errsOnly trivial) (refused_errsOnly trivial))

namespace Cursor

/-- Reading line breaks in a quoted text fails only in known ways. -/
theorem quotedBreaks_errsOnly (c : Cursor) : ErrsOnly Refusal.Known c.quotedBreaks := by
  induction c using quotedBreaks.induct with
  | case1 c marked =>
    rw [quotedBreaks, if_pos marked]
    exact malformed_errsOnly
  | case2 c unmarked ends =>
    rw [quotedBreaks, if_neg unmarked]
    split
    · exact .ok _
    · exact .bind (by simp_all) fun _ => .ok _
  | case3 c unmarked x after found ih =>
    rw [quotedBreaks, if_neg unmarked]
    split
    · exact .ok _
    · rename_i next same
      cases same.symm.trans found
      exact .bind ih fun _ => .ok _

theorem quotedGap_errsOnly (c : Cursor) : ErrsOnly Refusal.Known c.quotedGap := by
  unfold quotedGap
  simp only
  split
  · exact .ok _
  · exact .bind (quotedBreaks_errsOnly _) fun _ => .ok _

/-- Reading an escape fails only in known ways: its code may be malformed or beyond the characters. -/
theorem quotedEscape_errsOnly (c : Cursor) : ErrsOnly Refusal.Known c.quotedEscape := by
  unfold quotedEscape
  split
  · exact malformed_errsOnly
  split
  · exact .ok _
  · refine .ite malformed_errsOnly ?_
    split
    · exact malformed_errsOnly
    · exact .bind (ofCode_errsOnly _) fun _ => .ok _
  · split
    · exact malformed_errsOnly
    · exact quotedBreaks_errsOnly _

theorem quotedParts_errsOnly (double : Bool) (read : List Char) (fuel : Nat) (c : Cursor) :
    ErrsOnly Refusal.Known (c.quotedParts double read fuel) := by
  induction fuel generalizing read c with
  | zero => exact malformed_errsOnly
  | succ fuel ih =>
    unfold quotedParts
    split
    · exact malformed_errsOnly
    refine .ite (.ite (ih _ _) (.ok _)) (.ite ?_ (.ite ?_ (ih _ _)))
    · exact .bind (quotedEscape_errsOnly _) fun _ => ih _ _
    · exact .bind (quotedGap_errsOnly _) fun _ => ih _ _

theorem quotedScalar_errsOnly (double : Bool) (c : Cursor) : ErrsOnly Refusal.Known (c.quotedScalar double) :=
  .bind (quotedParts_errsOnly _ _ _ _) fun _ => .ok _

end Cursor

namespace Lexing

theorem expireKeys_errsOnly (l : Lexing) : ErrsOnly Refusal.Known l.expireKeys := .ite malformed_errsOnly (.ok _)

theorem dropKey_errsOnly (l : Lexing) : ErrsOnly Refusal.Known l.dropKey := by
  unfold dropKey
  split
  · exact .ok _
  · exact .ite malformed_errsOnly (.ok _)

theorem noteKey_errsOnly (l : Lexing) : ErrsOnly Refusal.Known l.noteKey :=
  .ite (.ok _) (.bind (dropKey_errsOnly _) fun _ => .ok _)

theorem endBlocks_errsOnly (l : Lexing) : ErrsOnly Refusal.Known l.endBlocks :=
  .bind (dropKey_errsOnly _) fun _ => .ok _

theorem openBracket_errsOnly (l : Lexing) (t : Token) : ErrsOnly Refusal.Known (l.openBracket t) :=
  .bind (noteKey_errsOnly _) fun _ => .ok _

theorem closeBracket_errsOnly (l : Lexing) (t : Token) : ErrsOnly Refusal.Known (l.closeBracket t) :=
  .bind (dropKey_errsOnly _) fun _ => .ite malformed_errsOnly (.ok _)

theorem blockMark_errsOnly (l : Lexing) (block t : Token) (keyAfter : Bool) :
    ErrsOnly Refusal.Known (l.blockMark block t keyAfter) :=
  .ite malformed_errsOnly (.bind (dropKey_errsOnly _) fun _ => .ok _)

theorem valueMark_errsOnly (l : Lexing) : ErrsOnly Refusal.Known l.valueMark := by
  unfold valueMark
  split
  · exact .ok _
  · exact blockMark_errsOnly _ _ _ _

theorem wordToken_errsOnly (l : Lexing) {read : Cursor → Except Refusal (Token × Cursor)}
    (each : ∀ c, ErrsOnly Refusal.Known (read c)) : ErrsOnly Refusal.Known (l.wordToken read) :=
  .bind (noteKey_errsOnly _) fun _ => .bind (each _) fun _ => .ok _

theorem plainToken_errsOnly (l : Lexing) : ErrsOnly Refusal.Known l.plainToken :=
  .bind (noteKey_errsOnly _) fun _ => .ok _

theorem blockToken_errsOnly (l : Lexing) (folded : Bool) : ErrsOnly Refusal.Known (l.blockToken folded) :=
  .bind (dropKey_errsOnly _) fun _ => .bind (Cursor.blockScalar_errsOnly _ _ _) fun _ => .ok _

/-- A step of the lexer fails only in known ways. -/
theorem step_errsOnly (l : Lexing) : ErrsOnly Refusal.Known l.step := by
  have next : ∀ {m : Except Refusal Lexing}, ErrsOnly Refusal.Known m →
      ErrsOnly Refusal.Known (do return some (← m)) := fun only => .bind only fun _ => .ok _
  have marked : ∀ (l : Lexing) (t : Token) (c : Cursor),
      ErrsOnly Refusal.Known (do return some ((← l.endBlocks).push t c)) :=
    fun l _ _ => .bind (endBlocks_errsOnly l) fun _ => .ok _
  have named : ∀ (l : Lexing) (make : String → Token), ErrsOnly Refusal.Known (l.wordToken fun c => do
      let found ← c.anchorName
      return (make found.1, found.2)) :=
    fun l _ => wordToken_errsOnly l fun c => .bind (Cursor.anchorName_errsOnly c) fun _ => .ok _
  unfold step
  refine .bind (expireKeys_errsOnly _) fun l => ?_
  simp only
  split
  · exact .ok _
  refine .ite ?_ ?_
  · exact .bind (endBlocks_errsOnly _) fun _ => .bind (Cursor.directive_errsOnly _) fun _ => .ok _
  refine .ite (marked _ _ _) (.ite (marked _ _ _) ?_)
  refine .ite (next (openBracket_errsOnly _ _)) (.ite (next (openBracket_errsOnly _ _)) ?_)
  refine .ite (next (closeBracket_errsOnly _ _)) (.ite (next (closeBracket_errsOnly _ _)) ?_)
  refine .ite (.bind (dropKey_errsOnly _) fun _ => .ok _) ?_
  refine .ite (next (blockMark_errsOnly _ _ _ _)) (.ite (next (blockMark_errsOnly _ _ _ _)) ?_)
  refine .ite (next (valueMark_errsOnly _)) ?_
  refine .ite (next (named _ .reference)) (.ite (next (named _ .anchor)) ?_)
  refine .ite (next (wordToken_errsOnly _ Cursor.tagToken_errsOnly)) ?_
  refine .ite (next (blockToken_errsOnly _ _)) (.ite (next (blockToken_errsOnly _ _)) ?_)
  refine .ite (next (wordToken_errsOnly _ (Cursor.quotedScalar_errsOnly false))) ?_
  refine .ite (next (wordToken_errsOnly _ (Cursor.quotedScalar_errsOnly true))) ?_
  exact .ite (next (plainToken_errsOnly _)) malformed_errsOnly

/-- The tokens of a text end because the text does, or because it is refused as documents are. -/
theorem run_ending (fuel : Nat) (l : Lexing) : (l.run fuel).2.Known := by
  induction fuel generalizing l with
  | zero => trivial
  | succ fuel ih =>
    unfold run
    split
    · rename_i cause fails
      exact step_errsOnly l cause fails
    · exact ih _
    · split
      · rename_i cause fails
        exact dropKey_errsOnly _ cause fails
      · trivial

end Lexing

theorem tokens_ending (cs : List Char) : (tokens cs).2.Known := by
  unfold tokens
  split
  · trivial
  · exact Lexing.run_ending _ _

namespace Compose

/-- Whether a step in which a document is composed refuses it only as documents are. -/
abbrev Regular {α : Type} (m : Compose α) : Prop :=
  Keeps (fun s : Composing => s.ending.Known) Refusal.Known m

theorem peek_regular : peek.Regular := by
  refine .get_bind fun s known => ?_
  split
  · exact .get_bind fun t ending => .throw ending
  · exact .pure _

theorem drop_regular : drop.Regular := .modify fun _ known => known

theorem dropIf_regular (t : Token) : (dropIf t).Regular :=
  .bind peek_regular fun _ => .ite (.bind drop_regular fun _ => .pure _) (.pure _)

theorem atAnchor_regular (name : String) : (atAnchor name).Regular := by
  refine .get_bind fun s known => ?_
  split
  · exact .pure _
  · exact .throw trivial

theorem add_regular (n : Node) : (add n).Regular :=
  .get_bind fun _ _ => .bind (.modify fun _ known => known) fun _ => .pure _

theorem tagName_regular (handle : Option String) (suffix : String) : (tagName handle suffix).Regular := by
  unfold tagName
  split
  · exact .pure _
  · refine .get_bind fun s known => ?_
    split
    · exact .pure _
    · exact .throw trivial

theorem anchor?_regular : anchor?.Regular := by
  refine .bind peek_regular fun t => ?_
  split
  · exact .bind drop_regular fun _ => .pure _
  · exact .pure _

theorem tag?_regular : tag?.Regular := by
  refine .bind peek_regular fun t => ?_
  split
  · exact .bind drop_regular fun _ => .pure _
  · exact .pure _

theorem properties_regular : properties.Regular := by
  have named : ∀ anchor : Option String, ∀ tag : Option (Option String × String), Regular (do
      return (anchor, ← tag.mapM fun found => tagName found.1 found.2)) := by
    intro anchor tag
    cases tag with
    | none => exact .bind (.pure _) fun _ => .pure _
    | some found => exact .bind (.bind (tagName_regular _ _) fun _ => .pure _) fun _ => .pure _
  refine .bind anchor?_regular fun first => .bind tag?_regular fun tag => .ite ?_ (named _ _)
  exact .bind anchor?_regular fun anchor => named _ _

theorem addAnchored_regular (anchor : Option String) (n : Node) : (addAnchored anchor n).Regular := by
  unfold addAnchored
  split
  · exact add_regular n
  · refine .get_bind fun s known => .ite (.throw trivial) (.bind (add_regular n) fun _ => ?_)
    exact .bind (.modify fun _ known => known) fun _ => .pure _

theorem inside_regular {content : Compose Content} (regular : content.Regular) : (inside content).Regular := by
  refine .get_bind fun s known => .ite (.throw trivial) ?_
  refine .bind (.modify fun _ known => known) fun _ => .bind regular fun _ => ?_
  exact .bind (.modify fun _ known => known) fun _ => .pure _

theorem collection_regular (anchor : Option String) (tag : Tag) {content : Compose Content}
    (regular : content.Regular) : (collection anchor tag content).Regular := by
  refine .bind (addAnchored_regular _ _) fun _ => .bind (inside_regular regular) fun _ => ?_
  exact .bind (.modify fun _ known => known) fun _ => .pure _

/-- Whether nodes and all that is in them are composed so within a number of steps. -/
structure RegularAt (fuel : Nat) : Prop where
  node : ∀ block flush, (node block flush fuel).Regular
  nodeUnless : ∀ stops block flush, (nodeUnless stops block flush fuel).Regular
  valueUnless : ∀ stops block, (valueUnless stops block fuel).Regular
  blockItems : ∀ read, (blockItems read fuel).Regular
  flushItems : ∀ read, (flushItems read fuel).Regular
  blockEntries : ∀ read, (blockEntries read fuel).Regular
  listItems : ∀ first read, (listItems first read fuel).Regular
  mapEntries : ∀ first read, (mapEntries first read fuel).Regular

namespace RegularAt

variable {fuel : Nat} (ih : RegularAt fuel)
include ih

/-- Composing a node with more fuel is regular if it is with less. -/
theorem node_succ (block flush : Bool) : (Compose.node block flush (fuel + 1)).Regular := by
  refine .bind peek_regular fun t => ?_
  split
  · exact .bind drop_regular fun _ => atAnchor_regular _
  refine .bind properties_regular fun ⟨anchor, tag⟩ => .bind peek_regular fun t => ?_
  split
  · exact .bind drop_regular fun _ => addAnchored_regular _ _
  · exact .bind drop_regular fun _ => collection_regular _ _ (.map _ (ih.listItems _ _))
  · exact .bind drop_regular fun _ => collection_regular _ _ (.map _ (ih.mapEntries _ _))
  · refine .ite (.bind drop_regular fun _ => collection_regular _ _ (.map _ (ih.blockItems _))) ?_
    refine .ite (.bind drop_regular fun _ => collection_regular _ _ (.map _ (ih.blockEntries _))) ?_
    refine .ite (collection_regular _ _ (.map _ (ih.flushItems _))) ?_
    exact .ite (addAnchored_regular _ _) (.throw trivial)

theorem blockItems_succ (read : List Nat) : (Compose.blockItems read (fuel + 1)).Regular := by
  refine .bind (dropIf_regular _) fun _ => .ite ?_ ?_
  · exact .bind (ih.nodeUnless _ _ _) fun _ => ih.blockItems _
  · exact .bind (dropIf_regular _) fun _ => .ite (.pure _) (.throw trivial)

theorem flushItems_succ (read : List Nat) : (Compose.flushItems read (fuel + 1)).Regular := by
  refine .bind (dropIf_regular _) fun _ => .ite ?_ (.pure _)
  exact .bind (ih.nodeUnless _ _ _) fun _ => ih.flushItems _

theorem blockEntries_succ (read : List (Nat × Nat)) : (Compose.blockEntries read (fuel + 1)).Regular := by
  refine .bind (dropIf_regular _) fun _ => .ite ?_ ?_
  · exact .bind (ih.nodeUnless _ _ _) fun _ => .bind (ih.valueUnless _ _) fun _ => ih.blockEntries _
  · exact .bind (dropIf_regular _) fun _ => .ite (.pure _) (.throw trivial)

/-- Composing the items of a list with more fuel is regular if it is with less. -/
theorem listItems_succ (first : Bool) (read : List Nat) :
    (Compose.listItems first read (fuel + 1)).Regular := by
  -- What is read after the comma, if there must be one.
  have item : Regular (do
      if ← dropIf .key then
        let key ← Compose.nodeUnless [.value, .comma, .listClose] false false fuel
        let value ← Compose.valueUnless [.comma, .listClose] false fuel
        let pair ← add ⟨.mapping, .mapping [(key, value)]⟩
        Compose.listItems false (pair :: read) fuel
      else if ← dropIf .listClose then return read.reverse
      else
        let node ← Compose.node false false fuel
        Compose.listItems false (node :: read) fuel) := by
    refine .bind (dropIf_regular _) fun _ => .ite ?_ ?_
    · refine .bind (ih.nodeUnless _ _ _) fun _ => .bind (ih.valueUnless _ _) fun _ => ?_
      exact .bind (add_regular _) fun _ => ih.listItems _ _
    · refine .bind (dropIf_regular _) fun _ => .ite (.pure _) ?_
      exact .bind (ih.node _ _) fun _ => ih.listItems _ _
  refine .bind (dropIf_regular _) fun _ => .ite (.pure _) (.ite ?_ item)
  exact .bind (dropIf_regular _) fun _ => .ite (.throw_bind trivial) item

/-- Composing the entries of a map with more fuel is regular if it is with less. -/
theorem mapEntries_succ (first : Bool) (read : List (Nat × Nat)) :
    (Compose.mapEntries first read (fuel + 1)).Regular := by
  have entry : Regular (do
      if ← dropIf .key then
        let key ← Compose.nodeUnless [.value, .comma, .mapClose] false false fuel
        let value ← Compose.valueUnless [.comma, .mapClose] false fuel
        Compose.mapEntries false ((key, value) :: read) fuel
      else if ← dropIf .mapClose then return read.reverse
      else
        let key ← Compose.node false false fuel
        Compose.mapEntries false ((key, ← addEmpty) :: read) fuel) := by
    refine .bind (dropIf_regular _) fun _ => .ite ?_ ?_
    · exact .bind (ih.nodeUnless _ _ _) fun _ => .bind (ih.valueUnless _ _) fun _ => ih.mapEntries _ _
    · refine .bind (dropIf_regular _) fun _ => .ite (.pure _) ?_
      exact .bind (ih.node _ _) fun _ => .bind (add_regular _) fun _ => ih.mapEntries _ _
  refine .bind (dropIf_regular _) fun _ => .ite (.pure _) (.ite ?_ entry)
  exact .bind (dropIf_regular _) fun _ => .ite (.throw_bind trivial) entry

end RegularAt

/-- Composing is regular with any fuel, by induction on it. -/
theorem regularAt (fuel : Nat) : RegularAt fuel := by
  induction fuel with
  | zero => constructor <;> intros <;> exact .throw trivial
  | succ fuel ih =>
    exact {
      node := ih.node_succ
      nodeUnless := fun _ _ _ => .bind peek_regular fun _ => .ite (add_regular _) (ih.node _ _)
      valueUnless := fun _ _ => .bind (dropIf_regular _) fun _ => .ite (ih.nodeUnless _ _ _) (add_regular _)
      blockItems := ih.blockItems_succ
      flushItems := ih.flushItems_succ
      blockEntries := ih.blockEntries_succ
      listItems := ih.listItems_succ
      mapEntries := ih.mapEntries_succ }

/-- Reading directives is regular. -/
theorem directives_regular (versioned : Bool) (handles : Entries String String) (fuel : Nat) :
    (directives versioned handles fuel).Regular := by
  induction fuel generalizing versioned handles with
  | zero => exact .throw trivial
  | succ fuel ih =>
    refine .bind peek_regular fun t => ?_
    split
    · exact .ite (.throw_bind trivial)
        (.bind drop_regular fun _ => ih _ _)
    · exact .ite (.throw_bind trivial)
        (.bind drop_regular fun _ => ih _ _)
    · exact .bind drop_regular fun _ => ih _ _
    · exact .pure _

theorem explicitDocument_regular (fuel : Nat) : (explicitDocument fuel).Regular := by
  have begun : ∀ handles : Entries String String, Regular (do
      modify fun s => { s with handles := Entries.putAll commonHandles handles }
      if isBoundary (← peek) then addEmpty else node true false fuel) := by
    refine fun handles => .bind (.modify fun _ known => known) fun _ => .bind peek_regular fun t => ?_
    exact .ite (add_regular _) ((regularAt fuel).node _ _)
  refine .bind (directives_regular _ _ _) fun handles => .bind (dropIf_regular _) fun _ => ?_
  exact .ite (.throw_bind trivial) (begun _)

theorem finish_regular (fuel : Nat) : (finish fuel).Regular := by
  induction fuel with
  | zero => exact .throw trivial
  | succ fuel ih =>
    refine .bind (dropIf_regular _) fun _ => .ite ih (.bind (dropIf_regular _) fun _ => .ite ?_ (.pure _))
    exact .bind (directives_regular _ _ _) fun _ => .throw trivial

theorem document_regular (fuel : Nat) : (document fuel).Regular := by
  have ended : ∀ place : Nat, Regular (do
      finish fuel
      return some place) := fun _ => .bind (finish_regular fuel) fun _ => .pure _
  refine .bind peek_regular fun t => ?_
  split
  · exact .pure _
  all_goals first
    | exact .bind (explicitDocument_regular fuel) fun _ => ended _
    | exact .bind ((regularAt fuel).node _ _) fun _ => ended _

end Compose

/-- A document is composed, or refused as documents are. -/
theorem Graph.ofTokens_errsOnly {ending : Refusal} (known : ending.Known) (tokens : List Token) :
    ErrsOnly Refusal.Known (Graph.ofTokens tokens ending) :=
  .bind (Compose.document_regular _ _ known).1 fun _ => .ok _

section Scalars

theorem fault_errsOnly {α : Type} {cause : Fault} (known : cause.InDocument) :
    ErrsOnly Fault.InDocument (.error cause : Except Fault α) := by
  rintro _ ⟨⟩
  exact known

theorem signed_errsOnly (cs : List Char) : ErrsOnly Fault.InDocument (signed cs) := by
  unfold signed
  split
  · exact .ite (fault_errsOnly trivial) (.ok _)
  · exact .ok _

theorem readBase_errsOnly (base : Nat) (digits : List Char) : ErrsOnly Fault.InDocument (readBase base digits) := by
  unfold readBase Value.integerOfText
  split
  · exact .ok _
  · exact fault_errsOnly trivial
  · exact fault_errsOnly trivial

theorem readInt_errsOnly (s : String) : ErrsOnly Fault.InDocument (readInt s) := by
  refine .bind (signed_errsOnly _) fun ⟨negative, body⟩ => ?_
  simp only
  split
  · exact fault_errsOnly trivial
  · exact .ok _
  · exact .bind (readBase_errsOnly _ _) fun _ => .ok _
  · exact .bind (readBase_errsOnly _ _) fun _ => .ok _
  · exact .bind (readBase_errsOnly _ _) fun _ => .ok _
  · refine .ite (.bind (.mapM (readBase_errsOnly 10) _) fun _ => .ok _) ?_
    exact .bind (readBase_errsOnly _ _) fun _ => .ok _

theorem floatOfInt_errsOnly (n : Int) : ErrsOnly Fault.InDocument (Value.floatOfInt n) := by
  unfold Value.floatOfInt
  split
  · exact .ok _
  · exact fault_errsOnly trivial

theorem addSixtieths_errsOnly (sum : Float) (base : Nat) (parts : List Float) :
    ErrsOnly Fault.InDocument (addSixtieths sum base parts) := by
  induction parts generalizing sum base with
  | nil => exact .ok _
  | cons x rest ih => exact .bind (floatOfInt_errsOnly _) fun _ => ih _ _

theorem readDigits_errsOnly (cs : List Char) : ErrsOnly Fault.InDocument (readDigits cs) := by
  have found : ErrsOnly Fault.InDocument (Value.floatOfText (Text.quoted (String.ofList cs)) cs) := by
    unfold Value.floatOfText
    split
    · exact .ok _
    · exact fault_errsOnly trivial
  refine .bind found fun v => ?_
  split
  · exact .ok _
  · exact .ok _

theorem readFloat_errsOnly (s : String) : ErrsOnly Fault.InDocument (readFloat s) := by
  refine .bind (signed_errsOnly _) fun ⟨negative, body⟩ => .ite (.ok _) (.ite (.ok _) (.ite ?_ ?_))
  · exact .bind (.mapM readDigits_errsOnly _) fun _ => .bind (addSixtieths_errsOnly _ _ _) fun _ => .ok _
  · exact .bind (readDigits_errsOnly _) fun _ => .ok _

theorem checkDate_errsOnly (d : Date) : ErrsOnly Fault.InDocument (checkDate d) :=
  .ite (fault_errsOnly trivial) (.ite (fault_errsOnly trivial) (.ite (fault_errsOnly trivial) (.ok _)))

theorem checkClock_errsOnly (hour minute second : Nat) :
    ErrsOnly Fault.InDocument (checkClock hour minute second) :=
  .ite (fault_errsOnly trivial) (.ite (fault_errsOnly trivial) (.ite (fault_errsOnly trivial) (.ok _)))

theorem checkOffset_errsOnly (negative : Bool) (hours minutes : Nat) :
    ErrsOnly Fault.InDocument (checkOffset negative hours minutes) := by
  unfold checkOffset
  simp only
  split
  · exact .ok _
  · exact fault_errsOnly trivial

/-- A timestamp is a value, or is not in the calendar. -/
theorem Timestamp.toValue_errsOnly (t : Timestamp) : ErrsOnly Fault.InDocument t.toValue := by
  have moment : ∀ date : Date, ∀ hour minute second : Nat, ∀ micros : Nat, ∀ offset : Option Int,
      ErrsOnly Fault.InDocument (do
        checkDate date
        checkClock hour minute second
        return Value.moment ⟨date, hour, minute, second, micros, offset⟩) := fun _ _ _ _ _ _ =>
    .bind (checkDate_errsOnly _) fun _ => .bind (checkClock_errsOnly _ _ _) fun _ => .ok _
  unfold toValue
  split
  · exact .bind (checkDate_errsOnly _) fun _ => .ok _
  · simp only
    split
    · exact moment _ _ _ _ _ _
    · exact moment _ _ _ _ _ _
    · exact .bind (.map _ (checkOffset_errsOnly _ _ _)) fun _ => moment _ _ _ _ _ _

theorem refusing_errsOnly {found : Except Fault Value} (only : ErrsOnly Fault.InDocument found) :
    ErrsOnly Refusal.Known (refusing found) := by
  cases found with
  | ok v => exact .ok _
  | error cause => exact refused_errsOnly (only cause rfl)

/-- A scalar is a value, or fails in a way that its tag can. -/
theorem scalarValue_errsOnly (tag : Tag) (content : String) : ErrsOnly Refusal.Known (scalarValue tag content) := by
  cases tag with
  | null | text => exact .ok _
  | bool => exact .ite (.ok _) (.ite (.ok _) (refused_errsOnly trivial))
  | int => exact refusing_errsOnly (readInt_errsOnly content)
  | float => exact refusing_errsOnly (readFloat_errsOnly content)
  | timestamp =>
    simp only [scalarValue]
    split
    · exact refusing_errsOnly (Timestamp.toValue_errsOnly _)
    · exact refused_errsOnly trivial
  | binary =>
    simp only [scalarValue]
    refine .ite malformed_errsOnly ?_
    split
    · exact .ok _
    · exact malformed_errsOnly
  | _ => exact malformed_errsOnly

end Scalars

namespace Make

/-- Whether a step in which values are made refuses their document only as documents are. -/
abbrev Regular {α : Type} (m : Make α) : Prop :=
  Keeps (fun _ : Making => True) Refusal.Known m

theorem modify_regular (f : Making → Making) : Regular (modify f) := .modify fun _ _ => trivial

theorem node_regular (place : Nat) : (node place).Regular := by
  refine .get_bind fun s _ => ?_
  split
  · exact .pure _
  · exact .throw trivial

theorem entries_regular (place : Nat) : (entries place).Regular := by
  refine .bind (node_regular place) fun n => ?_
  split
  · exact .pure _
  · exact .throw trivial

theorem tag_regular (place : Nat) : (tag place).Regular := .bind (node_regular place) fun _ => .pure _

theorem meaning?_regular (place : Nat) : (meaning? place).Regular := .get_bind fun _ _ => .pure _

theorem takeTagged?_regular (wanted : Tag) (es : List (Nat × Nat)) : (takeTagged? wanted es).Regular := by
  induction es with
  | nil => exact .pure _
  | cons e rest ih =>
    exact .bind (tag_regular _) fun _ => .ite (.pure _) (.bind ih fun _ => .pure _)

/-- Taking a node as a text is regular. -/
theorem text_regular (fuel place : Nat) : (text fuel place).Regular := by
  induction fuel generalizing place with
  | zero => exact .throw trivial
  | succ fuel ih =>
    refine .bind (node_regular place) fun n => ?_
    split
    · exact .pure _
    · exact .throw trivial
    · refine .bind (takeTagged?_regular _ _) fun found => ?_
      split
      · exact ih _
      · exact .throw trivial

/-- Merging maps into others is regular, however they hold each other. -/
theorem merges_regular (fuel : Nat) : (∀ place, (flatten fuel place).Regular) ∧
    (∀ place, (merge place fuel).Regular) ∧ ∀ places, (mergeParts places fuel).Regular := by
  induction fuel with
  | zero =>
    refine ⟨fun _ => .throw trivial, fun _ => .throw trivial, fun places => ?_⟩
    cases places <;> exact .throw trivial
  | succ fuel ih =>
    obtain ⟨flattens, merges, parts⟩ := ih
    refine ⟨fun place => ?_, fun place => ?_, fun places => ?_⟩
    · exact .bind (merges place) fun _ => .bind (entries_regular place) fun _ => modify_regular _
    · have onward : ∀ found : List (List (Nat × Nat)), Regular (do
          return found.reverse.flatten ++ (← merge place fuel)) := fun _ => .bind (merges place) fun _ => .pure _
      refine .bind (entries_regular place) fun es => .bind (takeTagged?_regular _ _) fun found => ?_
      split
      · exact .pure _
      · refine .bind (modify_regular _) fun _ => .bind (node_regular _) fun n => ?_
        split
        · exact .bind (parts _) fun _ => onward _
        · exact .bind (parts _) fun _ => onward _
        · exact .throw_bind trivial
    · cases places with
      | nil => exact .pure _
      | cons place rest =>
        refine .bind (entries_regular place) fun _ => .bind (flattens place) fun _ => ?_
        exact .bind (entries_regular place) fun _ => .bind (parts rest) fun _ => .pure _

theorem settleDefaults_regular (es : List (Nat × Nat)) : (settleDefaults es).Regular :=
  .forM (fun _ => .bind (tag_regular _) fun _ => .ite (modify_regular _) (.pure _)) es

theorem scalar_regular (place : Nat) : (scalar place).Regular := by
  refine .bind (node_regular place) fun n => .ite (.throw_bind trivial) ?_
  refine .get_bind fun s _ => .bind (text_regular _ _) fun content => ?_
  split
  · exact .throw trivial
  · exact .ite (.pure _) (.map _ (.lift (scalarValue_errsOnly _ _)))
  · exact .map _ (.lift (scalarValue_errsOnly _ _))

theorem begin_regular (place : Nat) : (begin place).Regular := by
  refine .bind (meaning?_regular place) fun _ => .ite (.pure _) (.bind (tag_regular place) fun _ => .ite ?_ ?_)
  · exact .bind (modify_regular _) fun _ => modify_regular _
  · exact .bind (scalar_regular place) fun _ => modify_regular _

theorem mapEntries_regular (place : Nat) : (mapEntries place).Regular := by
  refine .get_bind fun s _ => .bind ((merges_regular _).1 place) fun _ => ?_
  refine .bind (entries_regular place) fun es => .bind (settleDefaults_regular es) fun _ => ?_
  refine .bind (.mapM (fun e => ?_) es) fun _ => .pure _
  refine .bind (begin_regular _) fun _ => .bind (meaning?_regular _) fun m => ?_
  have held : ∀ m : Meaning, Regular (do
      begin e.2
      return ((⟨e.1, m⟩ : Key), e.2)) := fun m => .bind (begin_regular _) fun _ => .pure _
  split
  · exact .ite (.throw_bind trivial) (held _)
  · exact .throw trivial

theorem pair_regular (place : Nat) : (pair place).Regular := by
  refine .bind (entries_regular place) fun es => ?_
  split
  · exact .bind (begin_regular _) fun _ => .bind (begin_regular _) fun _ => .pure _
  · exact .throw trivial

theorem fill_regular (place : Nat) : (fill place).Regular := by
  refine .bind (node_regular place) fun n => ?_
  split
  · exact .bind (.forM begin_regular _) fun _ => modify_regular _
  · exact .bind (.map _ (.mapM pair_regular _)) fun _ => modify_regular _
  · exact .bind (.map _ (.mapM pair_regular _)) fun _ => modify_regular _
  · exact .bind (.map _ (mapEntries_regular place)) fun _ => modify_regular _
  · exact .bind (mapEntries_regular place) fun _ => modify_regular _
  · exact .throw_bind trivial

theorem rounds_regular (fuel : Nat) : (rounds fuel).Regular := by
  induction fuel with
  | zero => exact .pure _
  | succ fuel ih =>
    refine .get_bind fun s _ => .ite (.pure _) (.bind (modify_regular _) fun _ => ?_)
    exact .bind (.forM fill_regular _) fun _ => ih

end Make

theorem Graph.toValue_errsOnly (g : Graph) : ErrsOnly Refusal.Known g.toValue :=
  .bind ((Keeps.bind (Make.begin_regular _) fun _ => Make.rounds_regular _) _ trivial).1 fun _ => .ok _

/-- A text that is no document is malformed, or has a fault that documents can have. -/
theorem read_errsOnly (s : String) : ErrsOnly Refusal.Known (read s) := by
  unfold read
  refine .bind (Graph.ofTokens_errsOnly (tokens_ending _) _) fun found => ?_
  split
  · exact .ok _
  · exact Graph.toValue_errsOnly _

end Yaml

end Lineage
