import Lineage.Text.Half
import Lineage.Text.Hex
import Lineage.Yaml.Plain
import Lineage.Yaml.Token.Plain

namespace Lineage.Yaml

/-- The character that a letter stands for after a backslash. -/
def escaped? : Char → Option Char
  | '0' => some '\x00'
  | 'a' => some '\x07'
  | 'b' => some '\x08'
  | 't' => some '\t'
  | '\t' => some '\t'
  | 'n' => some '\n'
  | 'v' => some '\x0b'
  | 'f' => some '\x0c'
  | 'r' => some '\r'
  | 'e' => some '\x1b'
  | ' ' => some ' '
  | '"' => some '"'
  | '\\' => some '\\'
  | '/' => some '/'
  | 'N' => some '\x85'
  | '_' => some '\xa0'
  | 'L' => some '\u2028'
  | 'P' => some '\u2029'
  | _ => none

/-- The number of hexadecimal digits after a letter that starts the code of a character. -/
def codeWidth? : Char → Option Nat
  | 'x' => some 2
  | 'u' => some 4
  | 'U' => some 8
  | _ => none

/-- The character with a code. -/
def ofCode (code : Nat) : Except Refusal Char :=
  if code < 0x110000 then .ok (Text.charOfCode code)
  else if code < 0x80000000 then .error (.fault .notCodePoint)
  else .error (.fault .codeTooLarge)

namespace Cursor

/-- Goes past the empty lines after a line of a quoted scalar, and gives their breaks. The scalar
cannot hold a mark of a document. -/
def quotedBreaks (c : Cursor) : Except Refusal (List Char × Cursor) :=
  if c.isDocumentMarker then .error .malformed
  else
    match _found : (c.skipWhile isGap).lineBreak? with
    | none => .ok ([], c.skipWhile isGap)
    | some (x, after) => do
      let (breaks, final) ← after.quotedBreaks
      return (x :: breaks, final)
termination_by c.rest.length
decreasing_by
  exact Nat.lt_of_lt_of_le (length_lineBreak?_lt _found) (length_rest_skip_le _ c)

/-- Reads the white space inside a quoted scalar: spaces stay, unless they are at the end of a
line. -/
def quotedGap (c : Cursor) : Except Refusal (List Char × Cursor) :=
  let after := c.skipWhile isGap
  match after.lineBreak? with
  | none => .ok (c.span isGap, after)
  | some (x, start) => do
    let (breaks, final) ← start.quotedBreaks
    return (foldBreaks x breaks, final)

/-- Reads what follows a backslash: a letter that stands for a character, the code of a character, or
the end of a line, which is left out. -/
def quotedEscape (c : Cursor) : Except Refusal (List Char × Cursor) :=
  match c.rest with
  | [] => .error .malformed
  | x :: rest =>
    match escaped? x, codeWidth? x with
    | some y, _ => .ok ([y], c.next)
    | none, some width =>
      let digits := rest.take width
      if digits.length < width then .error .malformed
      else
        match Text.ofHex? digits with
        | none => .error .malformed
        | some code => do return ([← ofCode code], skip (width + 1) c)
    | none, none =>
      match c.lineBreak? with
      | none => .error .malformed
      | some (_, start) => start.quotedBreaks

/-- Goes on with a quoted scalar, where `read` is what was read in reverse. -/
def quotedParts (double : Bool) (read : List Char) :
    Nat → Cursor → Except Refusal (List Char × Cursor)
  | 0, _ => .error .malformed
  | fuel + 1, c =>
    match c.rest with
    | [] => .error .malformed
    | x :: rest =>
      if x == (if double then '"' else '\x27') then
        if !double && rest.head? == some '\x27' then
          quotedParts double ('\x27' :: read) fuel (skip 2 c)
        else .ok (read.reverse, c.next)
      else if double && x == '\\' then do
        let (part, after) ← c.next.quotedEscape
        quotedParts double (part.reverseAux read) fuel after
      else if endsWord (some x) then do
        let (part, after) ← c.quotedGap
        quotedParts double (part.reverseAux read) fuel after
      else quotedParts double (x :: read) fuel c.next

/-- Reads a scalar in quotes. -/
def quotedScalar (double : Bool) (c : Cursor) : Except Refusal (Token × Cursor) := do
  let (content, after) ← c.next.quotedParts double [] c.rest.length
  return (.scalar false (String.ofList content), after)

end Cursor

end Lineage.Yaml
