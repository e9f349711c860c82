import Lineage.Yaml.Cursor
import Lineage.Yaml.Token

namespace Lineage.Yaml

/-- Brackets, braces and the comma, which divide a collection on a line. -/
def isDivider (c : Char) : Bool :=
  c == ',' || c == '[' || c == ']' || c == '{' || c == '}'

/-- Whether a colon before `following` ends a plain scalar. -/
def endsKey (flow : Bool) (following : Option Char) : Bool :=
  endsWord following || (flow && following.any isDivider)

/-- The number of characters up to where a plain scalar is interrupted. -/
def plainLength (flow : Bool) : List Char → Nat
  | [] => 0
  | c :: rest =>
    if endsWord (some c) || (c == ':' && endsKey flow rest.head?)
        || (flow && (c == '?' || isDivider c)) then 0
    else plainLength flow rest + 1

/-- A line break inside a scalar with the breaks of the empty lines after it: one line feed alone
becomes a space, and one before empty lines is dropped. -/
def foldBreaks (first : Char) (breaks : List Char) : List Char :=
  if first != '\n' then first :: breaks
  else if breaks.isEmpty then [' ']
  else breaks

namespace Cursor

/-- Goes past empty lines and the indentation after them, and gives the breaks of the lines; nothing
where a document ends. -/
def emptyLines (c : Cursor) : Option (List Char) × Cursor :=
  match _found : c.skipSpaces.lineBreak? with
  | none => (some [], c.skipSpaces)
  | some (x, after) =>
    if after.isDocumentMarker then (none, after)
    else
      let (breaks, final) := after.emptyLines
      (breaks.map (x :: ·), final)
termination_by c.rest.length
decreasing_by
  exact Nat.lt_of_lt_of_le (length_lineBreak?_lt _found) (length_rest_skip_le _ c)

/-- What stands between two parts of a plain scalar, where it ends, and whether it holds the end of
a line. A gap that is empty ends the scalar. -/
def plainGap (c : Cursor) : List Char × Cursor × Bool :=
  match c.skipSpaces.lineBreak? with
  | none => (c.span (· == ' '), c.skipSpaces, false)
  | some (x, after) =>
    if after.isDocumentMarker then ([], after, true)
    else
      match after.emptyLines with
      | (none, final) => ([], final, true)
      | (some breaks, final) => (foldBreaks x breaks, final, true)

/-- Goes on with a plain scalar after a gap, where `read` is what was read in reverse, `least` is the
least column of its lines, and `broken` tells whether the gap holds the end of a line. -/
def plainParts (flow : Bool) (least : Nat) (read gap : List Char) (broken : Bool) :
    Nat → Cursor → List Char × Cursor × Bool
  | 0, c => (read.reverse, c, broken)
  | fuel + 1, c =>
    let size := plainLength flow c.rest
    if c.isAt '#' || size = 0 then (read.reverse, c, broken)
    else
      let read := (c.rest.take size).reverseAux (gap.reverseAux read)
      match (skip size c).plainGap with
      | (gap, after, broken) =>
        if gap.isEmpty || (!flow && after.column < least) then (read.reverse, after, broken)
        else plainParts flow least read gap broken fuel after

/-- Reads a plain scalar, and tells whether the end of a line comes after it. -/
def plainScalar (flow : Bool) (least : Nat) (c : Cursor) : Token × Cursor × Bool :=
  let (content, after, broken) := c.plainParts flow least [] [] false c.rest.length
  (.scalar true (String.ofList content), after, broken)

end Cursor

end Lineage.Yaml
