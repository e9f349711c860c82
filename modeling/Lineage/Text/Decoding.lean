import Lineage.Text.Half
import Lineage.Text.Quoted

namespace Lineage.Text

/-- Why bytes are not decoded. -/
inductive DecodingReason where
  | start
  | continuation
  | ended
  | notAscii
  | truncated
  | unpaired
  | lone
  | halfPoint
  | beyond
  deriving DecidableEq, Repr

/-- The text of a reason. -/
def DecodingReason.text : DecodingReason → String
  | .start => "invalid start byte"
  | .continuation => "invalid continuation byte"
  | .ended => "unexpected end of data"
  | .notAscii => "ordinal not in range(128)"
  | .truncated => "truncated data"
  | .unpaired => "illegal UTF-16 surrogate"
  | .lone => "illegal encoding"
  | .halfPoint => "code point in surrogate code point range(0xd800, 0xe000)"
  | .beyond => "code point not in range(0x110000)"

/-- The bytes that are not decoded in an encoding: from the first position up to before the second. -/
structure DecodingFault where
  encoding : String
  byte : Nat
  first : Nat
  stop : Nat
  reason : DecodingReason
  deriving DecidableEq, Repr

/-- The text of a fault. -/
def DecodingFault.message (f : DecodingFault) : String :=
  let reason := f.reason.text
  if f.stop = f.first + 1 then
    let digits := String.ofList (hex 2 f.byte)
    s!"'{f.encoding}' codec can't decode byte 0x{digits} in position {f.first}: {reason}"
  else s!"'{f.encoding}' codec can't decode bytes in position {f.first}-{f.stop - 1}: {reason}"

/-- Reads a character at the start of bytes, with the number of bytes that it takes, or tells how many
bytes are at fault. -/
abbrev CharReader := List Nat → Except (Nat × DecodingReason) (Char × Nat)

/-- What takes the place of bytes that are not decoded, given how many they are and the bytes from there
on: characters, and the number of bytes that they stand for. -/
abbrev Repair := Nat → List Nat → Option (List Char × Nat)

namespace Repair

/-- No repair. -/
def none : Repair := fun _ _ => .none

/-- The bytes are left out. -/
def leaveOut : Repair := fun count _ => some ([], count)

/-- The replacement character takes the place of the bytes. -/
def replace : Repair := fun count _ => some (['\uFFFD'], count)

/-- The escapes of the bytes take their place. -/
def escape : Repair := fun count rest => some ((rest.take count).flatMap escapeCode, count)

/-- Each byte that is not in ASCII becomes half of a surrogate pair of its own. -/
def keepBytes : Repair := fun count rest =>
  let bytes := (rest.take (Nat.min count 4)).takeWhile (0x80 ≤ ·)
  if bytes.isEmpty then .none
  else some (bytes.map fun b => charOfCode (0xDC00 + b), bytes.length)

/-- Halves of surrogate pairs are decoded too, where `code?` finds the code and size of one. -/
def keepHalves (code? : List Nat → Option (Nat × Nat)) : Repair := fun _ rest =>
  match code? rest with
  | some (code, size) => if isHalf code then some ([charOfCode code], size) else .none
  | .none => .none

end Repair

/-- Decodes bytes that stand at a position. -/
def decodeFrom (encoding : String) (read : CharReader) (repair : Repair) (position : Nat) :
    List Nat → Except DecodingFault (List Char)
  | [] => .ok []
  | a :: rest =>
    match read (a :: rest) with
    | .ok (c, size) =>
      (decodeFrom encoding read repair (position + size) (rest.drop (size - 1))).map (c :: ·)
    | .error (count, reason) =>
      match repair count (a :: rest) with
      | some (cs, size) =>
        (decodeFrom encoding read repair (position + size) (rest.drop (size - 1))).map (cs ++ ·)
      | none => .error ⟨encoding, a, position, position + count, reason⟩
termination_by bytes => bytes.length

end Lineage.Text
