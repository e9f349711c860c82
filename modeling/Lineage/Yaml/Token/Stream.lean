import Lineage.Entries
import Lineage.Yaml.Token.Name
import Lineage.Yaml.Token.Quoted

namespace Lineage.Yaml

/-- A place where a key may start that is known as a key only by the colon after it: the number of
tokens before it, whether it must be a key, and where it stands. -/
structure PendingKey where
  position : Nat
  required : Bool
  index : Nat
  line : Nat
  column : Nat
  deriving DecidableEq, Repr

/-- A text that is divided into tokens: what is still to be read, the number of open brackets, the
indentation of the block and of those around it, whether a key may start, the keys that are pending
by the number of brackets around them, and the tokens. -/
structure Lexing where
  cursor : Cursor
  depth : Nat
  indent : Int
  outer : List Int
  keyAllowed : Bool
  pending : Entries Nat PendingKey
  tokens : Array Token

namespace Lexing

/-- The beginning of a text. -/
def start (cs : List Char) : Lexing :=
  ⟨Cursor.start cs, 0, -1, [], true, [], #[]⟩

/-- A key on one line, within this many characters, needs no mark of its own. -/
def keyReach : Nat := 1024

/-- Adds a token and goes on at a place. -/
def push (l : Lexing) (t : Token) (c : Cursor) : Lexing :=
  { l with tokens := l.tokens.push t, cursor := c }

/-- Gives up the pending keys that are on another line or too far away. One that must be a key cannot
be given up. -/
def expireKeys (l : Lexing) : Except Refusal Lexing :=
  let (stale, fresh) := l.pending.partition fun (_, key) =>
    key.line != l.cursor.line || l.cursor.index - key.index > keyReach
  if stale.any (·.2.required) then .error .malformed
  else .ok { l with pending := fresh }

/-- Gives up the key that is pending between the same brackets. -/
def dropKey (l : Lexing) : Except Refusal Lexing :=
  match Entries.get? l.pending l.depth with
  | none => .ok l
  | some key =>
    if key.required then .error .malformed
    else .ok { l with pending := Entries.erase l.pending l.depth }

/-- Notes that a key may start here. -/
def noteKey (l : Lexing) : Except Refusal Lexing :=
  if !l.keyAllowed then .ok l
  else do
    let l ← l.dropKey
    let c := l.cursor
    let required := l.depth == 0 && l.indent == c.column
    let key : PendingKey := ⟨l.tokens.size, required, c.index, c.line, c.column⟩
    return { l with pending := Entries.put l.pending l.depth key }

/-- Ends the blocks that are indented deeper than a column. -/
def closeBlocks (column indent : Int) (tokens : Array Token) :
    List Int → Int × List Int × Array Token
  | [] => (indent, [], tokens)
  | i :: outer =>
    if column < indent then closeBlocks column i (tokens.push .blockEnd) outer
    else (indent, i :: outer, tokens)

/-- Ends the blocks that are indented deeper than a column, unless a bracket is open. -/
def unwind (l : Lexing) (column : Int) : Lexing :=
  if l.depth != 0 then l
  else
    let (indent, outer, tokens) := closeBlocks column l.indent l.tokens l.outer
    { l with indent, outer, tokens }

/-- Begins a block at a column with a token at a position, if the column is deeper than the block
around it. -/
def openBlock (l : Lexing) (column position : Nat) (t : Token) : Lexing :=
  if l.indent < column then
    { l with
      outer := l.indent :: l.outer, indent := column
      tokens := l.tokens.insertIdxIfInBounds position t }
  else l

/-- Goes past spaces, comments and ends of lines. After the end of a line outside of brackets a key
may start. -/
def skipSpace : Nat → Lexing → Lexing
  | 0, l => l
  | fuel + 1, l =>
    let c := l.cursor.skipSpaces.skipComment
    match c.lineBreak? with
    | none => { l with cursor := c }
    | some (_, after) =>
      skipSpace fuel { l with cursor := after, keyAllowed := l.keyAllowed || l.depth == 0 }

/-- A directive, or the mark of the start or the end of a document, ends all blocks. -/
def endBlocks (l : Lexing) : Except Refusal Lexing := do
  let l ← (l.unwind (-1)).dropKey
  return { l with keyAllowed := false }

/-- An opening bracket. -/
def openBracket (l : Lexing) (t : Token) : Except Refusal Lexing := do
  let l ← l.noteKey
  return { l.push t l.cursor.next with depth := l.depth + 1, keyAllowed := true }

/-- A closing bracket. -/
def closeBracket (l : Lexing) (t : Token) : Except Refusal Lexing := do
  let l ← l.dropKey
  if l.depth = 0 then throw .malformed
  return { l.push t l.cursor.next with depth := l.depth - 1, keyAllowed := false }

/-- The mark of an item of a block sequence, or of a key. -/
def blockMark (l : Lexing) (block t : Token) (keyAfter : Bool) : Except Refusal Lexing := do
  if l.depth == 0 && !l.keyAllowed then throw .malformed
  let l := if l.depth == 0 then l.openBlock l.cursor.column l.tokens.size block else l
  let l ← { l with keyAllowed := keyAfter }.dropKey
  return l.push t l.cursor.next

/-- The colon before a value: what came before it is a key after all, or the key is empty. -/
def valueMark (l : Lexing) : Except Refusal Lexing := do
  match Entries.get? l.pending l.depth with
  | some key =>
    let l := { l with
      pending := Entries.erase l.pending l.depth
      tokens := l.tokens.insertIdxIfInBounds key.position .key
      keyAllowed := false }
    let l := if l.depth == 0 then l.openBlock key.column key.position .mappingStart else l
    return l.push .value l.cursor.next
  | none => l.blockMark .mappingStart .value (l.depth == 0)

/-- A token that may start a key. -/
def wordToken (l : Lexing) (read : Cursor → Except Refusal (Token × Cursor)) :
    Except Refusal Lexing := do
  let l ← l.noteKey
  let (t, after) ← read l.cursor
  return { l.push t after with keyAllowed := false }

/-- A plain scalar. -/
def plainToken (l : Lexing) : Except Refusal Lexing := do
  let l ← l.noteKey
  let (t, after, broken) := l.cursor.plainScalar (l.depth != 0) (l.indent + 1).toNat
  return { l.push t after with keyAllowed := broken }

/-- A block scalar. -/
def blockToken (l : Lexing) (folded : Bool) : Except Refusal Lexing := do
  let l ← { l with keyAllowed := true }.dropKey
  let (t, after) ← l.cursor.blockScalar folded l.indent
  return l.push t after

/-- Whether a character may be the first of a plain scalar. -/
def startsPlain (flow : Bool) (c : Char) (following : Option Char) : Bool :=
  !(endsWord (some c) || "-?:,[]\x7b\x7d#&*!|>\x27\"%@\x60".toList.contains c)
    || (!endsWord following && (c == '-' || (!flow && (c == '?' || c == ':'))))

/-- Reads the next token, if the text is not at its end. -/
def step (l : Lexing) : Except Refusal (Option Lexing) := do
  let l ← (l.skipSpace (l.cursor.rest.length + 1)).expireKeys
  let l := l.unwind l.cursor.column
  let c := l.cursor
  let flow := l.depth != 0
  match c.rest with
  | [] => return none
  | x :: rest =>
    let marked := flow || endsWord rest.head?
    if x == '%' && c.column == 0 then do
      let l ← l.endBlocks
      let (t, after) ← c.directive
      return l.push t after
    else if c.column == 0 && c.isMarker "---" then
      return (← l.endBlocks).push .documentStart (Cursor.skip 3 c)
    else if c.column == 0 && c.isMarker "..." then
      return (← l.endBlocks).push .documentEnd (Cursor.skip 3 c)
    else if x == '[' then return ← l.openBracket .listOpen
    else if x == '{' then return ← l.openBracket .mapOpen
    else if x == ']' then return ← l.closeBracket .listClose
    else if x == '}' then return ← l.closeBracket .mapClose
    else if x == ',' then
      let l ← { l with keyAllowed := true }.dropKey
      return l.push .comma c.next
    else if x == '-' && endsWord rest.head? then return ← l.blockMark .sequenceStart .item true
    else if x == '?' && marked then return ← l.blockMark .mappingStart .key (!flow)
    else if x == ':' && marked then return ← l.valueMark
    else if x == '*' then
      return ← l.wordToken fun c => do
        let (name, after) ← c.anchorName
        return (.reference name, after)
    else if x == '&' then
      return ← l.wordToken fun c => do
        let (name, after) ← c.anchorName
        return (.anchor name, after)
    else if x == '!' then return ← l.wordToken Cursor.tagToken
    else if x == '|' && !flow then return ← l.blockToken false
    else if x == '>' && !flow then return ← l.blockToken true
    else if x == '\x27' then return ← l.wordToken (Cursor.quotedScalar false)
    else if x == '"' then return ← l.wordToken (Cursor.quotedScalar true)
    else if startsPlain flow x rest.head? then return ← l.plainToken
    else throw .malformed

/-- The number of tokens before which none will be inserted: those before the first pending key. -/
def settled (l : Lexing) : Nat :=
  match l.expireKeys with
  | .ok l => l.pending.foldl (fun n (_, key) => Nat.min n key.position) l.tokens.size
  | .error _ => l.tokens.size

/-- Reads all tokens, up to the end of the text or to where it is refused. Before a refusal only the
settled tokens count. -/
def run : Nat → Lexing → List Token × Refusal
  | 0, l => (l.tokens.toList, .malformed)
  | fuel + 1, l =>
    match l.step with
    | .error cause => (l.tokens.toList.take l.settled, cause)
    | .ok (some next) => run fuel next
    | .ok none =>
      match (l.unwind (-1)).dropKey with
      | .error cause => (l.tokens.toList, cause)
      | .ok l => (l.tokens.toList ++ [.streamEnd], .malformed)

end Lexing

/-- Whether a character may stand in a document. -/
def isAdmitted (c : Char) : Bool :=
  let code := Text.codePoint c
  c == '\t' || c == '\n' || c == '\r' || (0x20 ≤ code && code ≤ 0x7E) || code == 0x85
    || (0xA0 ≤ code && code ≤ 0xD7FF) || (0xE000 ≤ code && code ≤ 0xFFFD) || 0x10000 ≤ code

/-- The tokens of a text, and why nothing comes after them. A byte order mark at the start is no part
of a document. -/
def tokens (cs : List Char) : List Token × Refusal :=
  if !cs.all isAdmitted then ([], .malformed)
  else
    let l := Lexing.start cs
    let l := if cs.head? == some '\uFEFF' then { l with cursor := l.cursor.next } else l
    l.run (2 * cs.length + 1)

end Lineage.Yaml
