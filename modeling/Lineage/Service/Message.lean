import Lineage.Service.Target
import Lineage.Text.Blank
import Lineage.Value

namespace Lineage.Service

/-- A request to the service. -/
structure Request where
  method : String
  target : Target
  headers : Entries String String
  body : List UInt8
  deriving Repr

/-- What an answer holds. -/
inductive Content where
  | empty
  | json (v : Value)
  | samples (counts : Entries String Nat)
  deriving Repr

/-- An answer of the service, with the headers that it may have. -/
structure Response where
  status : Nat
  content : Content
  mediaType : Option String
  requestId : Option String
  location : Option String
  allow : Option String
  deriving Repr

namespace Request

/-- The header of a name, however it is capitalised, if there is something in it. -/
def header? (r : Request) (name : String) : Option String :=
  ((r.headers.find? fun (key, _) => Text.lower key == name).map (·.2)).filter (!·.isEmpty)

/-- A parameter of the query, if there is something in it. Of several values the last counts. -/
def parameter? (r : Request) (name : String) : Option String :=
  (Entries.get? r.target.parameters.reverse name).filter (!·.isEmpty)

/-- Whether the body is said to be JSON, as it is if nothing is said. -/
def hasJson (r : Request) : Bool :=
  match r.header? "content-type" with
  | none => true
  | some s =>
    let named := ((Text.cutFirst ';' s.toList).map (·.1)).getD s.toList
    match Text.pieces '/' (Text.trim (Text.lower (String.ofList named)).toList) with
    | [kind, form] =>
      String.ofList kind == "application"
        && (String.ofList form == "json" || "+json".toList.isSuffixOf form)
    | _ => false

end Request

end Lineage.Service
