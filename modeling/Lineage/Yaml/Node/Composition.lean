import Lineage.Entries
import Lineage.Room
import Lineage.Yaml.Node
import Lineage.Yaml.Token

namespace Lineage.Yaml

/-- A document that is being composed: its tokens, why nothing comes after them, the addresses of tag
handles, the nodes, the places of those with anchors, and how many more collections can be open in each
other. -/
structure Composing where
  tokens : List Token
  ending : Refusal
  handles : Entries String String
  nodes : Array Node
  anchors : Entries String Nat
  room : Nat

/-- A step of the composition of a document. -/
abbrev Compose := StateT Composing (Except Refusal)

namespace Compose

/-- The next token. -/
def peek : Compose Token := do
  match (← get).tokens with
  | [] => throw (← get).ending
  | t :: _ => return t

/-- Goes past the next token. -/
def drop : Compose Unit :=
  modify fun s => { s with tokens := s.tokens.drop 1 }

/-- Goes past the next token if it is the given one. -/
def dropIf (t : Token) : Compose Bool := do
  if (← peek) == t then
    drop
    return true
  else return false

/-- The node at an anchor. -/
def atAnchor (name : String) : Compose Nat := do
  match Entries.get? (← get).anchors name with
  | some place => return place
  | none => throw .malformed

/-- Adds a node. -/
def add (n : Node) : Compose Nat := do
  let place := (← get).nodes.size
  modify fun s => { s with nodes := s.nodes.push n }
  return place

/-- Adds a scalar that is not written. -/
def addEmpty : Compose Nat :=
  add .empty

/-- The name of a tag with its handle resolved. -/
def tagName (handle : Option String) (suffix : String) : Compose String := do
  match handle with
  | none => return suffix
  | some handle =>
    match Entries.get? (← get).handles handle with
    | some address => return address ++ suffix
    | none => throw .malformed

/-- The anchor before a node, if it has one. -/
def anchor? : Compose (Option String) := do
  match ← peek with
  | .anchor name => drop; return some name
  | _ => return none

/-- The tag before a node as it is written, if it has one. -/
def tag? : Compose (Option (Option String × String)) := do
  match ← peek with
  | .tag handle suffix => drop; return some (handle, suffix)
  | _ => return none

/-- The anchor and the name of the tag before a node, in any order. -/
def properties : Compose (Option String × Option String) := do
  let first ← anchor?
  let tag ← tag?
  let anchor ← if first.isNone && tag.isSome then anchor? else pure first
  return (anchor, ← tag.mapM fun (handle, suffix) => tagName handle suffix)

/-- The tag of a scalar. One that is plain, or marked as such, stands for what its form says. -/
def scalarTag (name : Option String) (plain : Bool) (content : String) : Tag :=
  match name with
  | none => if plain then (form content.toList).tag else .text
  | some name => if name == "!" then (form content.toList).tag else Tag.ofName name

/-- The tag of a collection. -/
def collectionTag (name : Option String) (common : Tag) : Tag :=
  match name with
  | none => common
  | some name => if name == "!" then common else Tag.ofName name

/-- Adds a node with an anchor, which no other node has. -/
def addAnchored (anchor : Option String) (n : Node) : Compose Nat := do
  match anchor with
  | none => add n
  | some name =>
    if Entries.has (← get).anchors name then throw .malformed
    let place ← add n
    modify fun s => { s with anchors := Entries.put s.anchors name place }
    return place

/-- Composes what is in a collection. -/
def inside (content : Compose Content) : Compose Content := do
  if (← get).room = 0 then throw (.fault (.tooDeep ""))
  modify fun s => { s with room := s.room - 1 }
  let content ← content
  modify fun s => { s with room := s.room + 1 }
  return content

/-- Composes a collection. What is in it can refer to it. -/
def collection (anchor : Option String) (tag : Tag) (content : Compose Content) : Compose Nat := do
  let place ← addAnchored anchor ⟨tag, .sequence []⟩
  let content ← inside content
  modify fun s => { s with nodes := s.nodes.setIfInBounds place ⟨tag, content⟩ }
  return place

mutual

/-- Composes a node. In a block there can be collections without brackets, and the items of a list
that is the value of a key need no deeper indentation. -/
def node (block flush : Bool) : Nat → Compose Nat
  | 0 => throw .malformed
  | fuel + 1 => do
    match ← peek with
    | .reference name =>
      drop
      atAnchor name
    | _ =>
      let (anchor, tag) ← properties
      match ← peek with
      | .scalar plain content =>
        drop
        addAnchored anchor ⟨scalarTag tag plain content, .scalar content⟩
      | .listOpen =>
        drop
        collection anchor (collectionTag tag .sequence) (.sequence <$> listItems true [] fuel)
      | .mapOpen =>
        drop
        collection anchor (collectionTag tag .mapping) (.mapping <$> mapEntries true [] fuel)
      | t =>
        if block && t == .sequenceStart then
          drop
          collection anchor (collectionTag tag .sequence) (.sequence <$> blockItems [] fuel)
        else if block && t == .mappingStart then
          drop
          collection anchor (collectionTag tag .mapping) (.mapping <$> blockEntries [] fuel)
        else if flush && t == .item then
          collection anchor (collectionTag tag .sequence) (.sequence <$> flushItems [] fuel)
        else if anchor.isSome || tag.isSome then
          addAnchored anchor ⟨scalarTag tag true "", .scalar ""⟩
        else throw .malformed

/-- Composes a node, unless one of the given tokens comes next; then the node is empty. -/
def nodeUnless (stops : List Token) (block flush : Bool) : Nat → Compose Nat
  | 0 => throw .malformed
  | fuel + 1 => do
    if stops.contains (← peek) then addEmpty else node block flush fuel

/-- The value after a key, empty if there is no colon before it. -/
def valueUnless (stops : List Token) (block : Bool) : Nat → Compose Nat
  | 0 => throw .malformed
  | fuel + 1 => do
    if ← dropIf .value then nodeUnless stops block block fuel else addEmpty

/-- The items of a block sequence, where `read` holds those before in reverse. -/
def blockItems (read : List Nat) : Nat → Compose (List Nat)
  | 0 => throw .malformed
  | fuel + 1 => do
    if ← dropIf .item then
      let node ← nodeUnless [.item, .blockEnd] true false fuel
      blockItems (node :: read) fuel
    else if ← dropIf .blockEnd then return read.reverse
    else throw .malformed

/-- The items of a sequence that is not indented deeper than its key. -/
def flushItems (read : List Nat) : Nat → Compose (List Nat)
  | 0 => throw .malformed
  | fuel + 1 => do
    if ← dropIf .item then
      let node ← nodeUnless [.item, .key, .value, .blockEnd] true false fuel
      flushItems (node :: read) fuel
    else return read.reverse

/-- The entries of a block mapping. -/
def blockEntries (read : List (Nat × Nat)) : Nat → Compose (List (Nat × Nat))
  | 0 => throw .malformed
  | fuel + 1 => do
    if ← dropIf .key then
      let key ← nodeUnless [.key, .value, .blockEnd] true true fuel
      let value ← valueUnless [.key, .value, .blockEnd] true fuel
      blockEntries ((key, value) :: read) fuel
    else if ← dropIf .blockEnd then return read.reverse
    else throw .malformed

/-- The items of a list in brackets. A single entry needs no braces. -/
def listItems (first : Bool) (read : List Nat) : Nat → Compose (List Nat)
  | 0 => throw .malformed
  | fuel + 1 => do
    if ← dropIf .listClose then return read.reverse
    if !first then
      if !(← dropIf .comma) then throw .malformed
    if ← dropIf .key then
      let key ← nodeUnless [.value, .comma, .listClose] false false fuel
      let value ← valueUnless [.comma, .listClose] false fuel
      let pair ← add ⟨.mapping, .mapping [(key, value)]⟩
      listItems false (pair :: read) fuel
    else if ← dropIf .listClose then return read.reverse
    else
      let node ← node false false fuel
      listItems false (node :: read) fuel

/-- The entries of a mapping in braces. -/
def mapEntries (first : Bool) (read : List (Nat × Nat)) : Nat → Compose (List (Nat × Nat))
  | 0 => throw .malformed
  | fuel + 1 => do
    if ← dropIf .mapClose then return read.reverse
    if !first then
      if !(← dropIf .comma) then throw .malformed
    if ← dropIf .key then
      let key ← nodeUnless [.value, .comma, .mapClose] false false fuel
      let value ← valueUnless [.comma, .mapClose] false fuel
      mapEntries false ((key, value) :: read) fuel
    else if ← dropIf .mapClose then return read.reverse
    else
      let key ← node false false fuel
      mapEntries false ((key, ← addEmpty) :: read) fuel

end

/-- The handles that every document has. -/
def commonHandles : Entries String String :=
  [("!", "!"), ("!!", commonAddress)]

/-- Reads the directives before a document: at most one version, which must be of the first series,
and handles, each of them once. -/
def directives (versioned : Bool) (handles : Entries String String) :
    Nat → Compose (Entries String String)
  | 0 => throw .malformed
  | fuel + 1 => do
    match ← peek with
    | .version major =>
      if versioned || major != 1 then throw .malformed
      drop
      directives true handles fuel
    | .shorthand handle address =>
      if Entries.has handles handle then throw .malformed
      drop
      directives versioned (Entries.put handles handle address) fuel
    | .reserved =>
      drop
      directives versioned handles fuel
    | _ => return handles

/-- Whether a token ends a document or comes before one. -/
def isBoundary : Token → Bool
  | .version _ | .shorthand _ _ | .reserved | .documentStart | .documentEnd | .streamEnd => true
  | _ => false

/-- The document after its directives and its start. -/
def explicitDocument (fuel : Nat) : Compose Nat := do
  let handles ← directives false [] fuel
  if !(← dropIf .documentStart) then throw .malformed
  modify fun s => { s with handles := Entries.putAll commonHandles handles }
  if isBoundary (← peek) then addEmpty else node true false fuel

/-- Goes past the marks of the end of the document, after which there is no other document. One that
comes is refused after its directives. -/
def finish : Nat → Compose Unit
  | 0 => throw .malformed
  | fuel + 1 => do
    if ← dropIf .documentEnd then finish fuel
    else if !(← dropIf .streamEnd) then
      let _ ← directives false [] fuel
      throw .malformed

/-- The only document of a text, if there is one. -/
def document (fuel : Nat) : Compose (Option Nat) := do
  let node ← match ← peek with
    | .streamEnd => return none
    | .version _ | .shorthand _ _ | .reserved | .documentStart => explicitDocument fuel
    | _ => node true false fuel
  finish fuel
  return some node

end Compose

/-- The graph of the only document in tokens, and nothing if there is no document; `ending` tells why
nothing comes after the tokens. -/
def Graph.ofTokens (tokens : List Token) (ending : Refusal) : Except Refusal (Option Graph) := do
  let start : Composing := ⟨tokens, ending, Compose.commonHandles, #[], [], Room.standard.yaml⟩
  let (root, final) ← (Compose.document (3 * tokens.length + 3)).run start
  return root.map fun root => ⟨final.nodes, root⟩

end Lineage.Yaml
