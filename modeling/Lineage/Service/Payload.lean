import Lineage.Description.Reader
import Lineage.Json.Reader
import Lineage.Service.Message
import Lineage.Text.Encoding

namespace Lineage.Service

open Description (Checked Issue Place)

/-- Why the body of a request is not read. -/
inductive BodyFault where
  | missing
  | malformed (offset : Nat)
  | unreadable
  deriving DecidableEq, Repr

/-- The encoding of JSON, which shows in the mark or the zeros at its start. -/
def jsonEncoding : List UInt8 → Text.Encoding
  | 0xEF :: 0xBB :: 0xBF :: _ => .markedUtf8
  | 0xFF :: 0xFE :: 0 :: 0 :: _ => .utf32 none
  | 0 :: 0 :: 0xFE :: 0xFF :: _ => .utf32 none
  | 0xFF :: 0xFE :: _ => .utf16 none
  | 0xFE :: 0xFF :: _ => .utf16 none
  | 0 :: b :: _ :: _ :: _ => if b = 0 then .utf32 (some .big) else .utf16 (some .big)
  | _ :: 0 :: c :: d :: _ => if c = 0 && d = 0 then .utf32 (some .little) else .utf16 (some .little)
  | [0, _] => .utf16 (some .big)
  | [_, 0] => .utf16 (some .little)
  | _ => .utf8

/-- The value in the body of a request. A body that is not JSON is a byte string. -/
def Request.value (r : Request) : Except BodyFault Value :=
  if r.body.isEmpty then .error .missing
  else if !r.hasJson then .ok (.bytes r.body)
  else
    match (jsonEncoding r.body).decode .keepHalves r.body with
    | .error _ => .error .unreadable
    | .ok s =>
      match Json.read s with
      | .ok v => .ok v
      | .error (.malformed offset) => .error (.malformed offset)
      | .error (.tooLong _) | .error (.tooDeep _) => .error .unreadable

/-- A question for the path between two versions of a container, or for all paths. -/
structure PathQuestion where
  container : Container
  current : Option String
  desired : Option String
  deriving Repr

/-- A review to be answered for a container and those nested in its values. -/
structure ReviewQuestion where
  container : Container
  review : Value
  nested : List Container
  deriving Repr

/-- A question for the definition of the custom resource of a container. -/
structure ResourceQuestion where
  container : Container
  storageVersion : Option String
  webhook : Option String
  deriving Repr

namespace Payload

/-- Reads a map of any form. -/
def anyMap : Value → Checked Value
  | .map entries => .good (.map entries)
  | _ => .issue .mapping

/-- Reads a record that may have other fields too. -/
def openRecord {α : Type} (read : Description.Fields → Checked α) : Value → Checked α
  | .map fields => read fields
  | _ => .issue .record

/-- Reads a question for paths. -/
def paths : Value → Checked PathQuestion :=
  openRecord fun fields =>
    PathQuestion.mk <$> Description.required fields "container" Description.container
      <*> Description.optionalText fields "current"
      <*> Description.optionalText fields "desired"

/-- Reads a review with its container. -/
def review : Value → Checked ReviewQuestion :=
  openRecord fun fields =>
    ReviewQuestion.mk <$> Description.required fields "container" Description.container
      <*> Description.required fields "review" anyMap
      <*> Description.optional fields "nested" [] (Description.list Description.container)

/-- Reads a question for a custom resource. -/
def resource : Value → Checked ResourceQuestion :=
  openRecord fun fields =>
    ResourceQuestion.mk <$> Description.required fields "container" Description.container
      <*> Description.optionalText fields "storage_version"
      <*> Description.optionalText fields "webhook_url"

end Payload

end Lineage.Service
