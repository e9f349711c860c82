import Lineage.Number.Integer
import Lineage.Text.Hex
import Lineage.Text.Utf8
import Lineage.Yaml.Token.Block

namespace Lineage.Yaml

/-- Whether a character can be part of the name of an anchor, a directive or a tag handle. -/
def isNameChar (c : Char) : Bool :=
  c.isAlphanum || c == '-' || c == '_'

/-- Whether a character can be part of a tag. -/
def isTagChar (c : Char) : Bool :=
  c.isAlphanum || "-;/?:@&=+$,_.!~*\x27()[]%".toList.contains c

/-- Reads bytes that are written as percent signs with two digits each, and gives what follows. -/
def percentBytes? : List Char → Option (List UInt8 × List Char)
  | '%' :: a :: b :: rest => do
    let byte ← Text.ofHex? [a, b]
    let (bytes, rest) ← percentBytes? rest
    return (UInt8.ofNat byte :: bytes, rest)
  | '%' :: _ => none
  | rest => some ([], rest)

/-- The text of a tag in which each run of written bytes stands for characters. -/
def unescapeTag (read : List Char) : Nat → List Char → Option (List Char)
  | 0, _ => none
  | _ + 1, [] => some read.reverse
  | fuel + 1, c :: rest =>
    if c == '%' then do
      let (bytes, rest) ← percentBytes? (c :: rest)
      let part ← (Text.decodeUtf8 bytes).toOption
      unescapeTag (part.toList.reverseAux read) fuel rest
    else unescapeTag (c :: read) fuel rest

namespace Cursor

/-- Reads a name, which cannot be empty. -/
def name (c : Cursor) : Except Refusal (String × Cursor) :=
  let chars := c.span isNameChar
  if chars.isEmpty then .error .malformed
  else .ok (String.ofList chars, c.skipWhile isNameChar)

/-- Reads the name of an anchor after its mark. -/
def anchorName (c : Cursor) : Except Refusal (String × Cursor) := do
  let (name, after) ← c.next.name
  if endsWord after.head? || after.head?.any ("?:,]\x7d%@\x60".toList.contains ·) then
    return (name, after)
  else throw .malformed

/-- Reads the address of a tag or the beginning of one. -/
def tagAddress (c : Cursor) : Except Refusal (String × Cursor) :=
  let chars := c.span isTagChar
  match unescapeTag [] (chars.length + 1) chars with
  | none => .error .malformed
  | some address =>
    if chars.isEmpty then .error .malformed
    else .ok (String.ofList address, c.skipWhile isTagChar)

/-- Reads the handle of a tag: an exclamation mark, or a name between two of them. -/
def tagHandle (c : Cursor) : Except Refusal (String × Cursor) :=
  if !c.isAt '!' then .error .malformed
  else
    let name := c.next.span isNameChar
    let after := c.next.skipWhile isNameChar
    if after.isAt '!' then .ok (String.ofList ('!' :: name ++ ['!']), after.next)
    else if name.isEmpty && after.isAt ' ' then .ok ("!", after)
    else .error .malformed

/-- Whether an exclamation mark stands in the word after the first one. -/
def hasHandle (c : Cursor) : Bool :=
  (c.span fun x => !endsField (some x)).contains '!'

/-- Reads a tag. -/
def tagToken (c : Cursor) : Except Refusal (Token × Cursor) := do
  let (token, after) ←
    if c.get? 1 == some '<' then do
      let (address, after) ← (skip 2 c).tagAddress
      if after.isAt '>' then pure (Token.tag none address, after.next) else throw .malformed
    else if endsWord (c.get? 1) then pure (Token.tag none "!", c.next)
    else if c.next.hasHandle then do
      let (handle, after) ← c.tagHandle
      let (suffix, after) ← after.tagAddress
      pure (Token.tag (some handle) suffix, after)
    else do
      let (suffix, after) ← c.next.tagAddress
      pure (Token.tag (some "!") suffix, after)
  if endsField after.head? then return (token, after) else throw .malformed

/-- Reads a number of the version of a document. -/
def versionNumber (c : Cursor) : Except Refusal (Int × Cursor) :=
  match Number.readInteger (c.span Char.isDigit) with
  | .ok n => .ok (n, c.skipWhile Char.isDigit)
  | .error .malformed => .error .malformed
  | .error (.tooLong digits) => .error (.fault (.digitsRead digits))

/-- Reads a directive: the version of the document, a handle that shortens tags, or one that is
reserved and ignored. -/
def directive (c : Cursor) : Except Refusal (Token × Cursor) := do
  let (name, after) ← c.next.name
  if !endsField after.head? then throw .malformed
  let (token, after) ←
    if name == "YAML" then do
      let (major, after) ← after.skipSpaces.versionNumber
      if !after.isAt '.' then throw .malformed
      let (_, after) ← after.next.versionNumber
      if !endsField after.head? then throw .malformed
      pure (Token.version major, after)
    else if name == "TAG" then do
      let (handle, after) ← after.skipSpaces.tagHandle
      if !after.isAt ' ' then throw .malformed
      let (address, after) ← after.skipSpaces.tagAddress
      if !endsField after.head? then throw .malformed
      pure (Token.shorthand handle address, after)
    else pure (Token.reserved, after.skipLine)
  return (token, ← after.skipBlankLine)

end Cursor

end Lineage.Yaml
