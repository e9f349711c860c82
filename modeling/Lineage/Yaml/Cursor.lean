namespace Lineage.Yaml

/-- Whether a character ends a line. -/
def isBreak (c : Char) : Bool :=
  c == '\n' || c == '\r' || c == '\x85' || c == '\u2028' || c == '\u2029'

/-- Whether a character is missing, because the text is at its end, or ends a line. -/
def endsLine (c : Option Char) : Bool :=
  c.all isBreak

/-- Whether a character is missing, a space, or ends a line. -/
def endsField (c : Option Char) : Bool :=
  c.all fun c => c == ' ' || isBreak c

/-- Whether a character is missing, a space, a tab, or ends a line. -/
def endsWord (c : Option Char) : Bool :=
  c.all fun c => c == ' ' || c == '\t' || isBreak c

/-- A place in a text: what is still to be read, the number of characters before it, and the line and
the column, both counted from zero. -/
structure Cursor where
  rest : List Char
  index : Nat
  line : Nat
  column : Nat
  deriving DecidableEq, Repr

namespace Cursor

/-- The start of a text. -/
def start (cs : List Char) : Cursor :=
  ⟨cs, 0, 0, 0⟩

/-- The next character. -/
def head? (c : Cursor) : Option Char :=
  c.rest.head?

/-- The character after the next ones. -/
def get? (c : Cursor) (n : Nat) : Option Char :=
  c.rest[n]?

/-- Whether the next character is a given one. -/
def isAt (c : Cursor) (x : Char) : Bool :=
  c.rest.head? == some x

/-- Goes past one character. A byte order mark takes no column, and a carriage return before a line
feed does not end the line yet. -/
def next (c : Cursor) : Cursor :=
  match c.rest with
  | [] => c
  | x :: rest =>
    if isBreak x && !(x == '\r' && rest.head? == some '\n') then ⟨rest, c.index + 1, c.line + 1, 0⟩
    else ⟨rest, c.index + 1, c.line, if x == '\uFEFF' then c.column else c.column + 1⟩

/-- Goes past a number of characters. -/
def skip : Nat → Cursor → Cursor
  | 0, c => c
  | n + 1, c => skip n c.next

/-- The next characters with a property. -/
def span (p : Char → Bool) (c : Cursor) : List Char :=
  c.rest.takeWhile p

/-- Goes past the next characters with a property. -/
def skipWhile (p : Char → Bool) (c : Cursor) : Cursor :=
  skip (c.span p).length c

/-- Goes past spaces. -/
def skipSpaces (c : Cursor) : Cursor :=
  c.skipWhile (· == ' ')

/-- Goes past the rest of a line. -/
def skipLine (c : Cursor) : Cursor :=
  c.skipWhile fun x => !isBreak x

/-- Goes past a comment, if there is one. -/
def skipComment (c : Cursor) : Cursor :=
  if c.isAt '#' then c.skipLine else c

/-- The end of a line as it is kept, and what is after it. The separators of lines and paragraphs
stay; every other end becomes a line feed. -/
def lineBreak? (c : Cursor) : Option (Char × Cursor) :=
  match c.rest with
  | '\r' :: '\n' :: _ => some ('\n', skip 2 c)
  | x :: _ =>
    if x == '\u2028' || x == '\u2029' then some (x, c.next)
    else if isBreak x then some ('\n', c.next)
    else none
  | [] => none

/-- Whether three characters and then the end of a word are next. -/
def isMarker (marker : String) (c : Cursor) : Bool :=
  c.rest.take 3 == marker.toList && endsWord (c.get? 3)

/-- Whether the mark of the start or the end of a document is next. -/
def isDocumentMarker (c : Cursor) : Bool :=
  c.isMarker "---" || c.isMarker "..."

theorem length_rest_next (c : Cursor) : c.next.rest.length = c.rest.length - 1 := by
  unfold next
  split
  · simp [*]
  · split <;> simp [*]

theorem length_rest_skip (n : Nat) (c : Cursor) : (skip n c).rest.length = c.rest.length - n := by
  induction n generalizing c with
  | zero => rfl
  | succ n ih => simp only [skip, ih, length_rest_next]; omega

theorem length_rest_skip_le (n : Nat) (c : Cursor) : (skip n c).rest.length ≤ c.rest.length := by
  rw [length_rest_skip]; omega

/-- The end of a line that is found is consumed. -/
theorem length_lineBreak?_lt {c after : Cursor} {x : Char} (found : c.lineBreak? = some (x, after)) :
    after.rest.length < c.rest.length := by
  unfold lineBreak? at found
  split at found
  · rename_i tail shape
    cases found
    simp only [length_rest_skip, shape, List.length_cons]
    omega
  · rename_i head tail _ shape
    have shorter : c.next.rest.length < c.rest.length := by simp [length_rest_next, shape]
    split at found
    · cases found; exact shorter
    · split at found
      · cases found; exact shorter
      · exact nomatch found
  · exact nomatch found

end Cursor

end Lineage.Yaml
