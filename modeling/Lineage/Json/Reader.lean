import Lineage.Number.Real
import Lineage.Room
import Lineage.Text.Half
import Lineage.Text.Hex
import Lineage.Value.Key

namespace Lineage.Json

/-- The kinds of values that hold others. -/
inductive Nest where
  | array
  | object
  deriving DecidableEq, Repr

/-- The name of a kind. -/
def Nest.name : Nest → String
  | .array => "array"
  | .object => "object"

/-- Why a text is not read: malformed at an offset, an integer with too many digits, or too many values
in each other, with the kind of the innermost one. -/
inductive Refusal where
  | malformed (offset : Nat)
  | tooLong (digits : Nat)
  | tooDeep (kind : Nest)
  deriving DecidableEq, Repr

/-- Refuses the text at the start of `rest`. While reading, a refusal counts the characters that are
left. -/
def refuse {α : Type} (rest : List Char) : Except Refusal α :=
  .error (.malformed rest.length)

/-- White space between tokens. -/
def isSpace (c : Char) : Bool :=
  c == ' ' || c == '\t' || c == '\n' || c == '\r'

/-- A text without the white space at its start. -/
def skipSpace (cs : List Char) : List Char :=
  cs.dropWhile isSpace

/-- The character that a letter stands for after a backslash. -/
def escaped? : Char → Option Char
  | '"' => some '"'
  | '\\' => some '\\'
  | '/' => some '/'
  | 'b' => some '\x08'
  | 'f' => some '\x0c'
  | 'n' => some '\n'
  | 'r' => some '\r'
  | 't' => some '\t'
  | _ => none

/-- The code point that two halves of a surrogate pair stand for. -/
def joinSurrogates (high low : Nat) : Nat :=
  0x10000 + (high - 0xD800) * 0x400 + (low - 0xDC00)

/-- Reads a text up to its closing quote; `opening` counts the characters from its opening quote on,
and `read` holds what was read in reverse. -/
def scanText (opening : Nat) (read : List Char) : List Char → Except Refusal (String × List Char)
  | [] => .error (.malformed opening)
  | '"' :: rest => .ok (String.ofList read.reverse, rest)
  | '\\' :: 'u' :: a :: b :: c :: d :: '\\' :: 'u' :: e :: f :: g :: h :: next :: rest =>
    match Text.ofHex? [a, b, c, d] with
    | none => .error (.malformed (rest.length + 12))
    | some high =>
      if 0xD800 ≤ high && high ≤ 0xDBFF then
        match Text.ofHex? [e, f, g, h] with
        | none => .error (.malformed (rest.length + 6))
        | some low =>
          if 0xDC00 ≤ low && low ≤ 0xDFFF then
            scanText opening (Text.charOfCode (joinSurrogates high low) :: read) (next :: rest)
          else
            scanText opening (Text.charOfCode high :: read)
              ('\\' :: 'u' :: e :: f :: g :: h :: next :: rest)
      else
        scanText opening (Text.charOfCode high :: read)
          ('\\' :: 'u' :: e :: f :: g :: h :: next :: rest)
  | '\\' :: 'u' :: a :: b :: c :: d :: next :: rest =>
    match Text.ofHex? [a, b, c, d] with
    | none => .error (.malformed (rest.length + 6))
    | some code => scanText opening (Text.charOfCode code :: read) (next :: rest)
  | '\\' :: 'u' :: rest => .error (.malformed (rest.length + 1))
  | ['\\'] => .error (.malformed opening)
  | '\\' :: c :: rest =>
    match escaped? c with
    | none => .error (.malformed (rest.length + 2))
    | some d => scanText opening (d :: read) rest
  | c :: rest =>
    if c.toNat < 0x20 then .error (.malformed (rest.length + 1)) else scanText opening (c :: read) rest

/-- Reads the digits at the start of a text. -/
def scanDigits (cs : List Char) : List Char × List Char :=
  (cs.takeWhile Char.isDigit, cs.dropWhile Char.isDigit)

/-- Reads a fraction, if the text starts with one. -/
def scanFraction (cs : List Char) : List Char × List Char :=
  match cs with
  | '.' :: rest =>
    match scanDigits rest with
    | ([], _) => ([], cs)
    | (digits, after) => ('.' :: digits, after)
  | _ => ([], cs)

/-- Reads an exponent, if the text starts with one. -/
def scanExponent (cs : List Char) : List Char × List Char :=
  match cs with
  | c :: rest =>
    if c == 'e' || c == 'E' then
      let (sign, body) := match rest with
        | '+' :: after => (['+'], after)
        | '-' :: after => (['-'], after)
        | _ => ([], rest)
      match scanDigits body with
      | ([], _) => ([], cs)
      | (digits, after) => (c :: sign ++ digits, after)
    else ([], cs)
  | [] => ([], cs)

/-- Reads a number. A zero at the start stands alone. -/
def scanNumber (cs : List Char) : Except Refusal (Value × List Char) :=
  let (sign, body) := match cs with
    | '-' :: rest => (['-'], rest)
    | _ => ([], cs)
  let (whole, rest) := match body with
    | '0' :: after => (['0'], after)
    | _ => scanDigits body
  if whole.isEmpty then refuse cs
  else
    let (fraction, rest) := scanFraction rest
    let (exponent, rest) := scanExponent rest
    if fraction.isEmpty && exponent.isEmpty then
      match Number.readInteger (sign ++ whole) with
      | .ok n => .ok (.int n, rest)
      | .error (.tooLong digits) => .error (.tooLong digits)
      | .error .malformed => refuse cs
    else
      match Number.readFloat? (sign ++ whole ++ fraction ++ exponent) with
      | some x => .ok (.float x, rest)
      | none => refuse cs

/-- Reads a value that is neither a list nor a map. -/
def scanScalar (cs : List Char) : Except Refusal (Value × List Char) :=
  match cs with
  | '"' :: rest => do
    let (s, after) ← scanText cs.length [] rest
    return (.text s, after)
  | 'n' :: 'u' :: 'l' :: 'l' :: rest => .ok (.null, rest)
  | 't' :: 'r' :: 'u' :: 'e' :: rest => .ok (.bool true, rest)
  | 'f' :: 'a' :: 'l' :: 's' :: 'e' :: rest => .ok (.bool false, rest)
  | 'N' :: 'a' :: 'N' :: rest => .ok (.float (0.0 / 0.0), rest)
  | 'I' :: 'n' :: 'f' :: 'i' :: 'n' :: 'i' :: 't' :: 'y' :: rest => .ok (.float (1.0 / 0.0), rest)
  | '-' :: 'I' :: 'n' :: 'f' :: 'i' :: 'n' :: 'i' :: 't' :: 'y' :: rest =>
    .ok (.float (-1.0 / 0.0), rest)
  | _ => scanNumber cs

mutual

/-- Reads a value. Its parts are at most `depth`, and `room` values can be open in each other. -/
def scanValue : (depth room : Nat) → List Char → Except Refusal (Value × List Char)
  | 0, _, cs => refuse cs
  | _ + 1, 0, '[' :: _ => .error (.tooDeep .array)
  | _ + 1, 0, '\x7b' :: _ => .error (.tooDeep .object)
  | depth + 1, room + 1, '[' :: rest =>
    match skipSpace rest with
    | ']' :: after => .ok (.list [], after)
    | items => scanItems depth room [] items
  | depth + 1, room + 1, '\x7b' :: rest =>
    match skipSpace rest with
    | '\x7d' :: after => .ok (.map [], after)
    | entries => scanEntries depth room [] entries
  | _ + 1, _, cs => scanScalar cs

/-- Reads the items of a list up to its end. -/
def scanItems : (depth room : Nat) → List Value → List Char → Except Refusal (Value × List Char)
  | 0, _, _, cs => refuse cs
  | depth + 1, room, read, cs => do
    let (v, rest) ← scanValue depth room cs
    match skipSpace rest with
    | ']' :: after => .ok (.list (v :: read).reverse, after)
    | ',' :: after => scanItems depth room (v :: read) (skipSpace after)
    | other => refuse other

/-- Reads the entries of a map up to its end. -/
def scanEntries : (depth room : Nat) → Entries Value Value → List Char →
    Except Refusal (Value × List Char)
  | 0, _, _, cs => refuse cs
  | depth + 1, room, read, cs =>
    match cs with
    | '"' :: body => do
      let (key, rest) ← scanText cs.length [] body
      match skipSpace rest with
      | ':' :: after =>
        let (v, rest) ← scanValue depth room (skipSpace after)
        let read := Entries.put read (.text key) v
        match skipSpace rest with
        | '\x7d' :: after => .ok (.map read, after)
        | ',' :: after => scanEntries depth room read (skipSpace after)
        | other => refuse other
      | other => refuse other
    | _ => refuse cs

end

/-- Reads a text that holds one value. A byte order mark is refused. -/
def read (s : String) : Except Refusal Value :=
  let cs := s.toList
  let total := cs.length
  let outcome : Except Refusal Value :=
    if cs.head?.any (·.toNat == 0xFEFF) then .error (.malformed total)
    else do
      let (v, rest) ← scanValue (2 * total + 2) Room.standard.json (skipSpace cs)
      match skipSpace rest with
      | [] => .ok v
      | other => .error (.malformed other.length)
  match outcome with
  | .error (.malformed left) => .error (.malformed (total - left))
  | other => other

end Lineage.Json
