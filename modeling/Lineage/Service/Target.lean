import Lineage.Entries
import Lineage.Text.Cut
import Lineage.Text.Percent

namespace Lineage.Service

/-- What a request asks for: a path, in which no escapes are left, and a query as it is written. -/
structure Target where
  path : String
  query : String
  deriving DecidableEq, Repr

namespace Target

/-- An address without the name of a host at its start. -/
def withoutHost : List Char → List Char
  | '/' :: '/' :: rest => rest.dropWhile (· != '/')
  | cs => cs

/-- The parts of a path without those that stand for the same folder, or that lead back to the one
above, which is left out then. -/
def resolve (above : List (List Char)) : List (List Char) → List (List Char)
  | [] => above.reverse
  | part :: rest =>
    if part == ['.'] then resolve above rest
    else if part == ['.', '.'] then
      resolve (if above == [[]] then above else above.drop 1) rest
    else resolve (part :: above) rest

/-- The path of an address, with one slash at its start. -/
def pathOf (address : List Char) : List Char :=
  let path := '/' :: (withoutHost address).dropWhile (· == '/')
  match List.intercalate ['/'] (resolve [] (Text.pieces '/' path)) with
  | [] => ['/']
  | resolved => resolved

/-- The characters that stand in a query without escapes. -/
def isQueryChar (c : Char) : Bool :=
  Text.isUnreserved c || "!$&\x27()*+,;=:/?[]@".toList.contains c

/-- Reads a target: a path, a query after a question mark, and after a hash sign what does not count.
Escapes are resolved twice, on the way to the service and in it. -/
def ofText (s : String) : Target :=
  let cs := s.toList.takeWhile (· != '#')
  let (address, query) := (Text.cutFirst '?' cs).getD (cs, [])
  ⟨Text.unescape (Text.unescape (String.ofList (pathOf address))),
    String.ofList (Text.completeEscapes isQueryChar query)⟩

/-- A part of a query with its escapes resolved. -/
def unescapePart (cs : List Char) : String :=
  Text.unescape (String.ofList (cs.map fun c => if c == '+' then ' ' else c))

/-- The parameters in a query, in which a name may stand more than once. -/
def parameters (t : Target) : List (String × String) :=
  ((Text.pieces '&' t.query.toList).filter (!·.isEmpty)).map fun part =>
    let (name, value) := (Text.cutFirst '=' part).getD (part, [])
    (unescapePart name, unescapePart value)

/-- A part of a query, in which a space becomes a plus sign. -/
def queryPart (s : String) : String :=
  String.ofList ((Text.escape (fun c => Text.isUnreserved c || c == ' ') s).toList.map fun c =>
    if c == ' ' then '+' else c)

/-- A target with more parameters, which replace those of the same names. -/
def withParameters (t : Target) (more : List (String × List String)) : Target :=
  let given := t.parameters.foldl (fun acc (name, value) =>
    Entries.put acc name (((Entries.get? acc name).getD []) ++ [value]))
    ([] : Entries String (List String))
  let parts := (Entries.putAll given more).flatMap fun (name, values) =>
    values.map fun value => s!"{queryPart name}={queryPart value}"
  { t with query := String.intercalate "&" parts }

/-- The path as it is counted: a mark of a query or a fragment in it is escaped, and ends of lines and
tabs are left out. -/
def countedPath (t : Target) : String :=
  String.ofList (t.path.toList.flatMap fun c =>
    if c == '?' then "%3F".toList
    else if c == '#' then "%23".toList
    else if c == '\t' || c == '\n' || c == '\r' then []
    else [c])

/-- The characters that stand in a location without escapes. -/
def isLocationChar (c : Char) : Bool :=
  Text.isUnreserved c || ":/%#?=@[]!$&\x27()*+,;".toList.contains c

/-- The location of a path at a host, with the query behind it. -/
def location (t : Target) (host path : String) : String :=
  let query := if t.query.isEmpty then "" else "?" ++ t.query
  Text.escape isLocationChar s!"http://{host}{path}{query}"

end Target

end Lineage.Service
