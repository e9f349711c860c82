import Lineage.Description.Writer
import Lineage.Failure
import Lineage.Number.FloatText
import Lineage.Number.Integer
import Lineage.Service.Payload
import Lineage.Text.Quoted

namespace Lineage.Service

open Description (Issue IssueKind Place)

/-- Keys that begin like this are private, and are left out of answers. -/
def privateMark : String := "_sa"

/-- Whether a key is private. -/
def isPrivate : Value → Bool
  | .text name => privateMark.toList.isPrefixOf name.toList
  | _ => false

/-- The text that a key becomes; some values cannot become one. -/
def plainKey? : Value → Option String
  | .text s => some s
  | .bytes data => (Text.decodeUtf8 data).toOption
  | .null => some "null"
  | .bool b => some (if b then "true" else "false")
  | .int n => Number.integerText? n
  | .float x => if x.isNaN || x.isInf then none else some (Number.floatText x)
  | _ => none

/-- A value as plain JSON: keys and byte strings become texts, tuples and sets become lists, and private
keys are left out. Bytes that are no text have no such form. -/
def plain? : Value → Option Value
  | .bytes data => (Text.decodeUtf8 data).toOption.map .text
  | .list items | .tuple items | .set items => (plainItems? items).map .list
  | .map entries =>
    (plainEntries? entries).map fun es =>
      .object (Entries.ofList es)
  | v => some v
where
  /-- The plain forms of items. -/
  plainItems? : List Value → Option (List Value)
    | [] => some []
    | v :: rest => do return (← plain? v) :: (← plainItems? rest)
  /-- The plain forms of entries. -/
  plainEntries? : List (Value × Value) → Option (List (String × Value))
    | [] => some []
    | (k, v) :: rest => do
      if isPrivate k then plainEntries? rest
      else return (← plainKey? k, ← plain? v) :: (← plainEntries? rest)

/-- Whether a text can be encoded. -/
def isEncodable (s : String) : Bool :=
  s.toList.all fun c => (Text.half? c).isNone

/-- Whether a plain value can be written: all its floats are finite, its integers are not too long,
and its texts can be encoded. -/
def isWritable : Value → Bool
  | .text s => isEncodable s
  | .float x => !(x.isNaN || x.isInf)
  | .int n => (Number.integerText? n).isSome
  | .list items => areWritable items
  | .map entries => areEntriesWritable entries
  | _ => true
where
  /-- Whether all items can be written. -/
  areWritable : List Value → Bool
    | [] => true
    | v :: rest => isWritable v && areWritable rest
  /-- Whether all entries can be written. -/
  areEntriesWritable : List (Value × Value) → Bool
    | [] => true
    | (k, v) :: rest => isWritable k && isWritable v && areEntriesWritable rest

/-- An answer before it gets its headers. -/
structure Reply where
  status : Nat
  content : Content
  mediaType : Option String
  location : Option String
  allow : Option String
  deriving Repr

/-- An answer that ends a request early, or a failure that escapes. -/
inductive Ending where
  | reply (r : Reply)
  | escape (f : Failure)

namespace Reply

/-- An answer in JSON. -/
def json (status : Nat) (v : Value) : Reply :=
  ⟨status, .json v, some "application/json", none, none⟩

/-- An answer that a request failed. -/
def detail (status : Nat) (v : Value) : Reply :=
  json status (.object [("detail", v)])

/-- An answer that there is nothing at a path. -/
def notFound : Reply :=
  detail 404 (.text "Not Found")

/-- An answer that a path has other methods. -/
def notAllowed (methods : List String) : Reply :=
  { detail 405 (.text "Method Not Allowed") with allow := some (String.intercalate ", " methods) }

/-- An answer that leads to another place. -/
def redirect (location : String) : Reply :=
  ⟨307, .empty, none, some location, none⟩

/-- An answer with a page whose content is not modelled. -/
def page (mediaType : String) : Reply :=
  ⟨200, .empty, some mediaType, none, none⟩

/-- Whether the content of an answer can be written. -/
def isSendable (reply : Reply) : Bool :=
  match reply.content with
  | .json v => isWritable v
  | _ => true

/-- An answer with the samples of all counts. -/
def exposition (counts : Entries String Nat) : Reply :=
  ⟨200, .samples counts, some "text/plain", none, none⟩

end Reply

/-- The code of an issue of a request, in which records may stand for other things than maps. -/
def issueCode : IssueKind → String
  | .record => "model_attributes_type"
  | kind => kind.code

/-- An issue of the body of a request as data. -/
def issueForm (code : String) (place : List Place) : Value :=
  .object [("type", .text code), ("loc", .list (.text "body" :: place.map Description.placeValue))]

/-- The value at a place, as far as the place leads into values. -/
def inputAt : Value → List Place → Value
  | v, [] => v
  | v, .name name :: rest =>
    match v.get? name with
    | some w => inputAt w rest
    | none => v
  | .list items, .index n :: rest =>
    match items[n.toNat]? with
    | some w => inputAt w rest
    | none => .list items
  | v, .index _ :: _ => v

/-- The answer to a request whose body has issues. It cannot be given where a value that is at fault
cannot be written. -/
def issuesEnding (body : Value) (issues : List Issue) : Ending :=
  let inputs := issues.map fun i => (plain? (inputAt body i.place)).any isWritable
  if inputs.all id then
    .reply (.detail 422 (.list (issues.map fun i => issueForm (issueCode i.kind) i.place)))
  else .escape (.fault (.raised "Out of range float values are not JSON compliant"))

/-- The answer to a request whose body is not read. -/
def bodyReply : BodyFault → Reply
  | .missing => .detail 422 (.list [issueForm "missing" []])
  | .malformed offset => .detail 422 (.list [issueForm "json_invalid" [.index offset]])
  | .unreadable => .detail 400 (.text "There was an error parsing the body")

end Lineage.Service
