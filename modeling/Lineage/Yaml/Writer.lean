import Lineage.Document
import Lineage.Text.Quoted
import Lineage.Yaml.Plain

namespace Lineage.Yaml

/-- Lines are folded at the first space beyond this column. -/
def bestWidth : Nat := 80

/-- Keys that are longer, with the mark of their kind, do not stand on one line with their values. -/
def keyLimit : Nat := 123

/-- Whether a character is in ASCII and printed, or a line feed. -/
def isBasic (c : Char) : Bool :=
  c == '\n' || (' ' ≤ c && c ≤ '~')

/-- Whether a character ends a line. -/
def endsWrittenLine (c : Char) : Bool :=
  c == '\n' || c.toNat == 0x85 || c.toNat == 0x2028 || c.toNat == 0x2029

/-- Whether a character separates words from indicators. -/
def separates (c : Char) : Bool :=
  endsWrittenLine c || c == '\x00' || c == ' ' || c == '\t' || c == '\r'

/-- Whether two characters, the first of one kind and the next of the other, follow each other. -/
def follows (p q : Char → Bool) : List Char → Bool
  | a :: b :: rest => (p a && q b) || follows p q (b :: rest)
  | _ => false

/-- Whether a scalar starts with an indicator. -/
def startsWithIndicator : List Char → Bool
  | c :: rest =>
    ("#,[]{}&*!|>\x27\"%@\x60".toList.contains c)
      || ((c == '?' || c == ':' || c == '-') && rest.head?.all separates)
  | [] => false

/-- Whether a colon before white space, or a hash sign after it, stands inside a scalar. -/
def holdsIndicator : List Char → Bool
  | a :: b :: rest =>
    (b == ':' && rest.head?.all separates) || (b == '#' && separates a) || holdsIndicator (b :: rest)
  | _ => false

/-- Whether a scalar may be written without quotes inside a block. -/
def isPlain (cs : List Char) : Bool :=
  cs.all (fun c => isBasic c && !endsWrittenLine c)
    && cs.head? != some ' ' && cs.getLast? != some ' '
    && !"---".toList.isPrefixOf cs && !"...".toList.isPrefixOf cs
    && !startsWithIndicator cs && !holdsIndicator cs

/-- Whether a scalar may be written in single quotes: no character needs an escape, and no space
stands next to the end of a line. -/
def isSingle (cs : List Char) : Bool :=
  cs.all isBasic && !follows (· == ' ') endsWrittenLine cs && !follows endsWrittenLine (· == ' ') cs

/-- The start of a new line with spaces before its first character. -/
def newLine (indent : Nat) : List Char :=
  '\n' :: List.replicate indent ' '

/-- The runs of a scalar: words, spaces and line feeds. -/
def runs (cs : List Char) : List (List Char) :=
  cs.splitBy fun a b => (a == ' ') == (b == ' ') && endsWrittenLine a == endsWrittenLine b

/-- Writes the runs of a plain scalar or of one in single quotes, in which quotes are doubled. A single
space beyond the width becomes a new line, and line feeds are doubled; `first` tells whether the text
begins. -/
def foldRuns (quoted fold : Bool) (indent column : Nat) (first : Bool) : List (List Char) → List Char
  | [] => []
  | run :: rest =>
    if run.head?.any endsWrittenLine then
      '\n' :: run ++ List.replicate indent ' ' ++ foldRuns quoted fold indent indent false rest
    else if run == [' '] && fold && bestWidth < column && !first && !rest.isEmpty then
      newLine indent ++ foldRuns quoted fold indent indent false rest
    else
      let written := run.flatMap fun c => if quoted && c == '\x27' then ['\x27', '\x27'] else [c]
      written ++ foldRuns quoted fold indent (column + written.length) false rest

/-- The letter that stands for a character after a backslash. -/
def escapeLetter? (c : Char) : Option Char :=
  match c.toNat with
  | 0x00 => some '0'
  | 0x07 => some 'a'
  | 0x08 => some 'b'
  | 0x09 => some 't'
  | 0x0A => some 'n'
  | 0x0B => some 'v'
  | 0x0C => some 'f'
  | 0x0D => some 'r'
  | 0x1B => some 'e'
  | 0x22 => some '"'
  | 0x5C => some '\\'
  | 0x85 => some 'N'
  | 0xA0 => some '_'
  | 0x2028 => some 'L'
  | 0x2029 => some 'P'
  | _ => none

/-- The escape of a character, in capital hexadecimal digits unless there is a letter for it. -/
def escape (c : Char) : List Char :=
  match escapeLetter? c with
  | some letter => ['\\', letter]
  | none => '\\' :: match Text.escapeCode (Text.codePoint c) with
    | _ :: width :: digits => width :: digits.map Char.toUpper
    | short => short

/-- Whether a character needs an escape in double quotes. -/
def needsEscape (c : Char) : Bool :=
  c == '"' || c == '\\' || !(' ' ≤ c && c ≤ '~')

/-- Writes a scalar in double quotes. `pending` are the reversed characters since the last escape or
fold, which do not count for `column` yet; a line beyond the width is folded at a space or next to
an escape, but neither before the first character nor after the last but one. -/
def doubleQuoted (fold : Bool) (indent : Nat) (column : Nat) (pending : List Char) (first : Bool) :
    List Char → List Char
  | [] => pending.reverse
  | c :: rest =>
    let inside := !first && 2 ≤ (c :: rest).length && fold
    if needsEscape c then
      let written := pending.reverse ++ escape c
      let column := column + written.length
      if inside && bestWidth + 1 < column then
        if rest.head? == some ' ' then
          written ++ '\\' :: newLine indent ++
            '\\' :: doubleQuoted fold indent (indent + 1) [] false rest
        else written ++ '\\' :: newLine indent ++ doubleQuoted fold indent indent [] false rest
      else written ++ doubleQuoted fold indent column [] false rest
    else if inside && (c == ' ' || pending.isEmpty) && bestWidth < column + pending.length then
      if c == ' ' then
        pending.reverse ++ '\\' :: newLine indent ++
          '\\' :: doubleQuoted fold indent (indent + 1) [c] false rest
      else pending.reverse ++ '\\' :: newLine indent ++ doubleQuoted fold indent indent [c] false rest
    else doubleQuoted fold indent column (c :: pending) false rest

/-- A scalar that stands at a column, folded or not: without quotes if it can be read back as text,
else in single quotes if they suffice. -/
def scalar (fold : Bool) (indent column : Nat) (s : String) : List Char :=
  let cs := s.toList
  if !cs.isEmpty && isPlain cs && form cs == .text then foldRuns false fold indent column true (runs cs)
  else if isSingle cs && (fold || cs.all (!endsWrittenLine ·)) then
    '\x27' :: foldRuns true fold indent (column + 1) true (runs cs) ++ ['\x27']
  else '"' :: doubleQuoted fold indent (column + 1) [] true cs ++ ['"']

/-- Whether a key stands on one line with its value. -/
def isSimpleKey (key : String) : Bool :=
  !key.isEmpty && key.length < keyLimit && !key.toList.any endsWrittenLine

/-- The text of a truth value. -/
def flagText (b : Bool) : List Char :=
  (if b then "true" else "false").toList

/-- The text of a document whose lines start at the indentation, the first of them without it. -/
def write (indent : Nat) : Document → List Char
  | .flag b => flagText b
  | .text s => scalar true indent indent s
  | .list [] => ['[', ']']
  | .list items => writeItems indent true items
  | .map [] => ['\x7b', '\x7d']
  | .map entries => writeEntries indent true entries
where
  /-- The items of a list, each after a hyphen. -/
  writeItems (indent : Nat) (first : Bool) : List Document → List Char
    | [] => []
    | d :: rest =>
      (if first then [] else newLine indent) ++ '-' :: ' ' :: write (indent + 2) d
        ++ writeItems indent false rest
  /-- The entries of a map. -/
  writeEntries (indent : Nat) (first : Bool) : List (String × Document) → List Char
    | [] => []
    | (k, d) :: rest =>
      (if first then [] else newLine indent) ++ (if isSimpleKey k then
          let key := scalar false (indent + 2) indent k
          key ++ ':' :: writeAfterKey indent (indent + key.length + 1) d
        else
          '?' :: ' ' :: scalar true (indent + 2) (indent + 2) k ++ newLine indent ++ ':' :: ' ' ::
            write (indent + 2) d)
        ++ writeEntries indent false rest
  /-- What stands after a key on the same line, whose end is at a column. -/
  writeAfterKey (indent column : Nat) : Document → List Char
    | .flag b => ' ' :: flagText b
    | .text s => ' ' :: scalar true (indent + 2) (column + 1) s
    | .list [] => [' ', '[', ']']
    | .list items => newLine indent ++ writeItems indent true items
    | .map [] => [' ', '\x7b', '\x7d']
    | .map entries => newLine (indent + 2) ++ writeEntries (indent + 2) true entries

/-- The text of a document in YAML, with a line feed at its end. -/
def toText (d : Document) : String :=
  String.ofList (write 0 d ++ ['\n'])

end Lineage.Yaml
