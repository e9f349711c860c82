import Lineage.Yaml.Plain
import Lineage.Yaml.Token.Plain

namespace Lineage.Yaml

/-- What happens to the breaks at the end of a block scalar: one stays, none, or all. -/
inductive Chomping where
  | clip
  | strip
  | keep
  deriving DecidableEq, Repr

/-- The chomping that a sign stands for. -/
def Chomping.ofSign? : Option Char → Option Chomping
  | some '+' => some .keep
  | some '-' => some .strip
  | _ => none

/-- The indentation that a digit stands for. -/
def indentation? (c : Option Char) : Option Nat :=
  c.bind fun c => if c.isDigit then some (c.toNat - 0x30) else none

namespace Cursor

/-- Reads the marks after the sign of a block scalar: the chomping and the indentation, in any
order. -/
def blockMarks (c : Cursor) : Except Refusal (Chomping × Option Nat × Cursor) :=
  let (chomping, width, after) :=
    match Chomping.ofSign? c.head?, indentation? c.head? with
    | some chomping, _ =>
      match indentation? (c.get? 1) with
      | some n => (chomping, some n, skip 2 c)
      | none => (chomping, none, c.next)
    | none, some n =>
      match Chomping.ofSign? (c.get? 1) with
      | some chomping => (chomping, some n, skip 2 c)
      | none => (.clip, some n, c.next)
    | none, none => (.clip, none, c)
  if width == some 0 || !endsField after.head? then .error .malformed
  else .ok (chomping, width, after)

/-- Goes past spaces, a comment and the end of the line, before which there is nothing else. -/
def skipBlankLine (c : Cursor) : Except Refusal Cursor :=
  let c := c.skipSpaces.skipComment
  match c.lineBreak? with
  | some (_, after) => .ok after
  | none => if c.rest.isEmpty then .ok c else .error .malformed

/-- Goes past empty lines, and gives their breaks and the largest indentation after them. -/
def blockIndentation (most : Nat) (c : Cursor) : List Char × Nat × Cursor :=
  let inner := c.skipSpaces
  let most := if inner.index == c.index then most else Nat.max most inner.column
  match _found : c.skipSpaces.lineBreak? with
  | none => ([], most, inner)
  | some (x, after) =>
    let (breaks, most, final) := blockIndentation most after
    (x :: breaks, most, final)
termination_by c.rest.length
decreasing_by
  exact Nat.lt_of_lt_of_le (length_lineBreak?_lt _found) (length_rest_skip_le _ c)

/-- Goes past spaces, at most up to a column. -/
def skipIndent (indent : Nat) (c : Cursor) : Cursor :=
  skip (Nat.min (c.span (· == ' ')).length (indent - c.column)) c

/-- Goes past empty lines up to a line with the given indentation, and gives their breaks. -/
def blockBreaks (indent : Nat) (c : Cursor) : List Char × Cursor :=
  match _found : (c.skipIndent indent).lineBreak? with
  | none => ([], c.skipIndent indent)
  | some (x, after) =>
    let (breaks, final) := blockBreaks indent after
    (x :: breaks, final)
termination_by c.rest.length
decreasing_by
  exact Nat.lt_of_lt_of_le (length_lineBreak?_lt _found) (length_rest_skip_le _ c)

/-- Whether a line of a block scalar starts at a place. -/
def isBlockLine (indent : Nat) (c : Cursor) : Bool :=
  c.column == indent && !c.rest.isEmpty

/-- Whether a line starts with a space or a tab; such a line is not joined with its neighbours. -/
def startsWithGap (c : Cursor) : Bool :=
  c.head?.any isGap

/-- Reads the lines of a block scalar, and gives the break after the last line and those of the empty
lines after it. `read` is what was read in reverse. -/
def blockLines (folded : Bool) (indent : Nat) (read : List Char) :
    Nat → Cursor → List Char × List Char × List Char × Cursor
  | 0, c => (read.reverse, [], [], c)
  | fuel + 1, c =>
    let read := (c.span fun x => !isBreak x).reverseAux read
    match c.skipLine.lineBreak? with
    | none => (read.reverse, [], [], c.skipLine)
    | some (x, start) =>
      let (breaks, after) := start.blockBreaks indent
      if after.isBlockLine indent then
        let joined := folded && x == '\n' && !c.startsWithGap && !after.startsWithGap
        let between := if joined then if breaks.isEmpty then [' '] else [] else [x]
        blockLines folded indent (breaks.reverseAux (between.reverseAux read)) fuel after
      else (read.reverse, [x], breaks, after)

/-- Reads a block scalar, which is indented deeper than `indent`. -/
def blockScalar (folded : Bool) (indent : Int) (c : Cursor) : Except Refusal (Token × Cursor) := do
  let (chomping, width, after) ← c.next.blockMarks
  let start ← after.skipBlankLine
  let least := Nat.max (indent + 1).toNat 1
  let (indent, breaks, first) := match width with
    | some n => (least + n - 1, start.blockBreaks (least + n - 1))
    | none =>
      let (breaks, most, first) := start.blockIndentation 0
      (Nat.max least most, breaks, first)
  let (content, last, breaks, final) :=
    if first.isBlockLine indent then
      blockLines folded indent breaks.reverse first.rest.length first
    else ([], [], breaks, first)
  let ending := match chomping with
    | .clip => last
    | .strip => []
    | .keep => last ++ breaks
  return (.scalar false (String.ofList (content ++ ending)), final)

end Cursor

end Lineage.Yaml
