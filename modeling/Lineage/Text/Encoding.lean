import Lineage.Text.LowerCase
import Lineage.Text.Utf8

namespace Lineage.Text

/-- The order of the bytes of a unit. -/
inductive ByteOrder where
  | little
  | big
  deriving DecidableEq, Repr

/-- The number that bytes in an order stand for. -/
def ByteOrder.join (order : ByteOrder) (bytes : List Nat) : Nat :=
  let inOrder := match order with
    | little => bytes.reverse
    | big => bytes
  inOrder.foldl (fun n b => 256 * n + b) 0

/-- The encodings of texts. Without an order the bytes show it at their start. A mark at the start of
marked UTF-8 is no part of the text. -/
inductive Encoding where
  | ascii
  | latin
  | utf8
  | markedUtf8
  | utf16 (order : Option ByteOrder)
  | utf32 (order : Option ByteOrder)
  deriving DecidableEq, Repr

/-- Reads a character in ASCII. -/
def readAscii : CharReader
  | [] => .error (1, .ended)
  | a :: _ => if a < 0x80 then .ok (Char.ofNat a, 1) else .error (1, .notAscii)

/-- Reads a character of the first 256. -/
def readLatin : CharReader
  | [] => .error (1, .ended)
  | a :: _ => .ok (Char.ofNat a, 1)

/-- The unit of 16 bits at the start of bytes. -/
def unit16? (order : ByteOrder) : List Nat → Option Nat
  | a :: b :: _ => some (order.join [a, b])
  | _ => none

/-- Reads a character in UTF-16. -/
def readUtf16 (order : ByteOrder) : CharReader := fun bytes =>
  match unit16? order bytes with
  | none => .error (bytes.length, .truncated)
  | some high =>
    if !isHalf high then .ok (Char.ofNat high, 2)
    else
      match unit16? order (bytes.drop 2) with
      | none => .error (bytes.length, .ended)
      | some low =>
        if 0xDC00 ≤ high then .error (2, .lone)
        else if isHalf low && 0xDC00 ≤ low then
          .ok (Char.ofNat (0x10000 + (high - 0xD800) * 0x400 + (low - 0xDC00)), 4)
        else .error (2, .unpaired)

/-- The unit of 32 bits at the start of bytes. -/
def unit32? (order : ByteOrder) : List Nat → Option Nat
  | a :: b :: c :: d :: _ => some (order.join [a, b, c, d])
  | _ => none

/-- Reads a character in UTF-32. -/
def readUtf32 (order : ByteOrder) : CharReader := fun bytes =>
  match unit32? order bytes with
  | none => .error (bytes.length, .truncated)
  | some code =>
    if isHalf code then .error (4, .halfPoint)
    else if code < 0x110000 then .ok (Char.ofNat code, 4)
    else .error (4, .beyond)

/-- The order that a mark at the start of bytes shows, given the mark in the order of big ends; the
mark is no part of the text. -/
def orderOf (mark : List Nat) (bytes : List Nat) : ByteOrder × Nat :=
  if mark.isPrefixOf bytes then (.big, mark.length)
  else if mark.reverse.isPrefixOf bytes then (.little, mark.length)
  else (.little, 0)

namespace Encoding

/-- Decodes bytes; `repair` is given a way to find halves of surrogate pairs in the encoding. -/
def decode (e : Encoding) (repair : (List Nat → Option (Nat × Nat)) → Repair) (data : List UInt8) :
    Except DecodingFault String :=
  let bytes := data.map UInt8.toNat
  let run := fun (name : String) (read : CharReader) (half? : List Nat → Option (Nat × Nat))
      (start : Nat) => decodeFrom name read (repair half?) start (bytes.drop start)
  let orderName : ByteOrder → String := fun
    | .little => "le"
    | .big => "be"
  let found := match e with
    | ascii => run "ascii" readAscii (fun _ => none) 0
    | latin => run "latin-1" readLatin (fun _ => none) 0
    | utf8 => run "utf-8" readUtf8 utf8Half? 0
    | markedUtf8 =>
      let unmarked := if [0xEF, 0xBB, 0xBF].isPrefixOf bytes then bytes.drop 3 else bytes
      decodeFrom "utf-8" readUtf8 (repair utf8Half?) 0 unmarked
    | utf16 order =>
      let (order, start) := (order.map fun o => (o, 0)).getD (orderOf [0xFE, 0xFF] bytes)
      run ("utf-16-" ++ orderName order) (readUtf16 order)
        (fun rest => (unit16? order rest).map fun code => (code, 2)) start
    | utf32 order =>
      let (order, start) := (order.map fun o => (o, 0)).getD (orderOf [0, 0, 0xFE, 0xFF] bytes)
      run ("utf-32-" ++ orderName order) (readUtf32 order)
        (fun rest => (unit32? order rest).map fun code => (code, 4)) start
  found.map String.ofList

/-- The names of the encodings, in small letters and with underscores between their parts. -/
def names : List (Encoding × List String) :=
  [(ascii, ["ascii", "646", "ansi_x3_4_1968", "ansi_x3_4_1986", "cp367", "csascii", "ibm367",
      "iso646_us", "iso_646_irv_1991", "iso_ir_6", "us", "us_ascii"]),
    (latin, ["latin_1", "8859", "cp819", "csisolatin1", "ibm819", "iso8859", "iso8859_1",
      "iso_8859_1", "iso_8859_1_1987", "iso_ir_100", "l1", "latin", "latin1"]),
    (utf8, ["utf_8", "cp65001", "u8", "utf", "utf8", "utf8_ucs2", "utf8_ucs4"]),
    (markedUtf8, ["utf_8_sig"]),
    (utf16 none, ["utf_16", "u16", "utf16"]),
    (utf16 (some .little), ["utf_16_le", "unicodelittleunmarked", "utf_16le"]),
    (utf16 (some .big), ["utf_16_be", "unicodebigunmarked", "utf_16be"]),
    (utf32 none, ["utf_32", "u32", "utf32"]),
    (utf32 (some .little), ["utf_32_le", "utf_32le"]),
    (utf32 (some .big), ["utf_32_be", "utf_32be"])]

/-- A name of an encoding with one underscore for all that stands between its parts. -/
def normalName (name : String) : String :=
  let parts := (lower name).toList.splitBy fun a b => a.isAlphanum && b.isAlphanum
  String.intercalate "_" ((parts.filter fun part => part.all Char.isAlphanum).map String.ofList)

/-- The names, in their normal form, of the encodings that are built in. -/
def builtIn : List String :=
  ["utf8", "utf_8", "utf16", "utf_16", "utf32", "utf_32", "ascii", "us_ascii", "latin1", "latin_1",
    "iso8859_1", "iso_8859_1"]

/-- The encoding of a name. -/
def ofName? (name : String) : Option Encoding :=
  (names.find? fun entry => entry.2.contains (normalName name)).map (·.1)

end Encoding

/-- The repairs by their names; those that cannot be used on bytes stand for nothing. -/
def repairs : List (String × Option ((List Nat → Option (Nat × Nat)) → Repair)) :=
  [("strict", some fun _ => .none), ("ignore", some fun _ => .leaveOut),
    ("replace", some fun _ => .replace), ("backslashreplace", some fun _ => .escape),
    ("surrogateescape", some fun _ => .keepBytes), ("surrogatepass", some .keepHalves),
    ("xmlcharrefreplace", none), ("namereplace", none)]

end Lineage.Text
