import Lineage.Text.Encoding

namespace Lineage.Text

/-- Whether a character is in ASCII. -/
def isAscii (c : Char) : Bool :=
  c.toNat < 0x80

/-- Whether a percent sign is followed by two hexadecimal digits. -/
def isEscape : List Char → Bool
  | '%' :: a :: b :: _ => (hexValue? a).isSome && (hexValue? b).isSome
  | _ => false

/-- The bytes of ASCII characters, in which a percent sign with two hexadecimal digits stands for one
byte. -/
def escapedBytes : List Char → List UInt8
  | [] => []
  | '%' :: a :: b :: rest =>
    match ofHex? [a, b] with
    | some byte => UInt8.ofNat byte :: escapedBytes rest
    | none => UInt8.ofNat '%'.toNat :: escapedBytes (a :: b :: rest)
  | c :: rest => UInt8.ofNat c.toNat :: escapedBytes rest

/-- A text with its percent escapes replaced by what they stand for; bytes that are no text are
replaced too. -/
def unescape (s : String) : String :=
  let runs := s.toList.splitBy fun a b => isAscii a == isAscii b
  let decoded := runs.map fun run =>
    if run.all isAscii then
      (Encoding.utf8.decode (fun _ => .replace) (escapedBytes run)).toOption.getD ""
    else String.ofList run
  String.join decoded

/-- The percent escape of a byte. -/
def percentEscape (byte : UInt8) : List Char :=
  '%' :: (hex 2 byte.toNat).map Char.toUpper

/-- A byte of a text that is escaped, unless it stands for a character that is safe. -/
def escapeByte (isSafe : Char → Bool) (byte : UInt8) : List Char :=
  let c := Char.ofNat byte.toNat
  if byte.toNat < 0x80 && isSafe c then [c] else percentEscape byte

/-- Whether a character needs no escape anywhere. -/
def isUnreserved (c : Char) : Bool :=
  c.isAlphanum || c == '_' || c == '.' || c == '-' || c == '~'

/-- A text in percent escapes, apart from safe characters. -/
def escape (isSafe : Char → Bool) (s : String) : String :=
  String.ofList (s.toUTF8.toList.flatMap (escapeByte isSafe))

/-- A text in which all is escaped that is not safe, while its percent escapes stay. -/
def completeEscapes (isSafe : Char → Bool) : List Char → List Char
  | [] => []
  | c :: rest =>
    (if isEscape (c :: rest) then [c] else (escape (fun d => isSafe d && d != '%') c.toString).toList)
      ++ completeEscapes isSafe rest

example : escapedBytes "%4a%".toList = [0x4A, 0x25] := by decide

end Lineage.Text
