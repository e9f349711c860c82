import Lineage.Text.Decoding

namespace Lineage.Text

/-- Whether a byte continues a character. -/
def isTail (b : Nat) : Bool :=
  0x80 ≤ b && b ≤ 0xBF

/-- The number of bytes of a character that starts with a byte, none if no character does. -/
def utf8Length (b : Nat) : Nat :=
  if b < 0x80 then 1
  else if b < 0xC2 then 0
  else if b < 0xE0 then 2
  else if b < 0xF0 then 3
  else if b < 0xF5 then 4
  else 0

/-- Whether a byte can stand second after a first one: neither longer than needed, nor half of a
surrogate pair, nor beyond the last code point. -/
def isSecond (a b : Nat) : Bool :=
  isTail b && !(a = 0xE0 && b < 0xA0) && !(a = 0xED && 0xA0 ≤ b) && !(a = 0xF0 && b < 0x90)
    && !(a = 0xF4 && 0x90 ≤ b)

/-- The code point that the low bits of bytes make up, after those of a first one. -/
def joinBits (first : Nat) (tail : List Nat) : Nat :=
  tail.foldl (fun n b => n * 64 + (b - 0x80)) first

/-- The number of bytes at the start of `tail` that can follow the first byte of a character. -/
def tailLength (a : Nat) : List Nat → Nat
  | [] => 0
  | b :: rest => if isSecond a b then (rest.takeWhile isTail).length + 1 else 0

/-- Reads a character in UTF-8. -/
def readUtf8 : CharReader
  | [] => .error (1, .ended)
  | a :: rest =>
    let size := utf8Length a
    if size = 0 then .error (1, .start)
    else if size = 1 then .ok (Char.ofNat a, 1)
    else
      let tail := rest.take (size - 1)
      let valid := tailLength a tail
      if valid = size - 1 then
        let mark := if size = 2 then 0xC0 else if size = 3 then 0xE0 else 0xF0
        .ok (Char.ofNat (joinBits (a - mark) tail), size)
      else if valid = tail.length then .error (valid + 1, .ended)
      else .error (valid + 1, .continuation)

/-- The code and the size of half of a surrogate pair that is written as if it were a character. -/
def utf8Half? : List Nat → Option (Nat × Nat)
  | a :: b :: c :: _ =>
    if a = 0xED && isTail b && isTail c then some (joinBits (a - 0xE0) [b, c], 3) else none
  | _ => none

/-- Decodes bytes as UTF-8. -/
def decodeUtf8 (data : List UInt8) : Except DecodingFault String :=
  (decodeFrom "utf-8" readUtf8 .none 0 (data.map UInt8.toNat)).map String.ofList

/-- The halves of surrogate pairs in a text that are not encoded: the code of the first, and their
positions, up to before `stop`. -/
structure HalfFault where
  code : Nat
  first : Nat
  stop : Nat
  deriving DecidableEq, Repr

/-- The text of a fault. -/
def HalfFault.message (f : HalfFault) : String :=
  if f.stop = f.first + 1 then
    let escape := String.ofList (escapeCode f.code)
    s!"'utf-8' codec can't encode character '{escape}' in position {f.first}: surrogates not allowed"
  else
    s!"'utf-8' codec can't encode characters in position {f.first}-{f.stop - 1}: surrogates not allowed"

/-- The first halves of surrogate pairs in characters that stand at a position, from the first one on
that is not passed over. -/
def halvesFrom? (isPassed : Nat → Bool) (position : Nat) : List Char → Option HalfFault
  | [] => none
  | c :: rest =>
    match half? c with
    | some code =>
      if isPassed code then halvesFrom? isPassed (position + 1) rest
      else
        let more := (rest.takeWhile fun d => (half? d).isSome).length
        some ⟨code, position, position + 1 + more⟩
    | none => halvesFrom? isPassed (position + 1) rest

/-- Encodes a text in UTF-8, which has no form for halves of surrogate pairs. -/
def encodeUtf8 (s : String) : Except HalfFault (List UInt8) :=
  match halvesFrom? (fun _ => false) 0 s.toList with
  | some fault => .error fault
  | none => .ok s.toUTF8.toList

/-- Whether a half of a surrogate pair keeps a byte that is no part of a character. -/
def isKeptByte (code : Nat) : Bool :=
  0xDC80 ≤ code && code ≤ 0xDCFF

/-- The bytes of a character in the name of a file. -/
def nameBytes (c : Char) : List UInt8 :=
  match half? c with
  | some code => [UInt8.ofNat (code - 0xDC00)]
  | none => (String.singleton c).toUTF8.toList

/-- Encodes the name of a file in UTF-8. Halves of surrogate pairs that keep bytes become these. -/
def encodeName (s : String) : Except HalfFault (List UInt8) :=
  match halvesFrom? isKeptByte 0 s.toList with
  | some fault => .error fault
  | none => .ok (s.toList.flatMap nameBytes)

/-- The name of a file by its bytes; those that are no part of a character are kept. -/
def decodeName (data : List UInt8) : String :=
  match decodeFrom "utf-8" readUtf8 .keepBytes 0 (data.map UInt8.toNat) with
  | .ok cs => String.ofList cs
  | .error _ => ""

/-- A text in which every end of a line is a line feed. -/
def unifyLines : List Char → List Char
  | [] => []
  | '\r' :: '\n' :: rest => '\n' :: unifyLines rest
  | c :: rest => (if c = '\r' then '\n' else c) :: unifyLines rest

example : (readUtf8 [0xC3, 0xA9, 0x41]).toOption = some ('é', 2) := by decide
example : (readUtf8 [0xED, 0xA0, 0x80]).toOption = none := by decide

end Lineage.Text
