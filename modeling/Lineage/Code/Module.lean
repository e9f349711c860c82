import Lineage.Code.Expression
import Lineage.Generation
import Lineage.Json.Writer

namespace Lineage.Code

/-- A text that may be missing or empty, as lines. -/
def linesOf (s : Option String) (lines : String → List String) : List String :=
  ((filled? s).map lines).getD []

/-- The beginning of a module: what it was made from. -/
def headLines (g : Generation) : List String :=
  let versions := String.intercalate ", " g.timeline.names
  ["\"\"\"", "SCHEMAEVO-GENERATED MODULE", s!"container: {g.name}", s!"versions: {versions}"]
    ++ linesOf g.validated.container.doc (fun doc => ["", doc])
    ++ ["\"\"\"", "", "from __future__ import annotations", "",
      match g.kind with
      | .enum => "from enum import Enum"
      | .struct => "from dataclasses import dataclass",
      "from typing import Any, Callable, Dict, List, Optional, Tuple"]

/-- The table of the converters of types and the function that uses it. -/
def converterLines : List String :=
  ["", "", "TYPE_CONVERTERS: Dict[Tuple[str, str], Callable[[Any], Any]] = \x7b\x7d", "", "",
    "def _convert(value: Any, from_type: str, to_type: str) -> Any:", "    try:",
    "        fn = TYPE_CONVERTERS[(from_type, to_type)]", "    except KeyError:",
    "        raise TypeError(f\"no converter registered from \x7bfrom_type\x7d to \x7bto_type\x7d\") "
      ++ "from None",
    "    return fn(value)"]

/-- The type of a field as it is written. -/
def fieldType (m : Member) : String :=
  let type := (filled? m.type).getD "Any"
  match m.hint with
  | some .list => s!"List[{type}]"
  | some .option => s!"Optional[{type}]"
  | none => type

/-- The comment on a member that is deprecated. -/
def deprecationComment (m : Member) : String :=
  if m.deprecated then
    match filled? m.note with
    | some note => s!"  # deprecated: {note}"
    | none => "  # deprecated"
  else ""

/-- The literal of a text in which no character has a meaning in a markup language. -/
def markupSafe (s : String) : String :=
  String.join ((Json.textLiteral s).toList.map fun c =>
    if c == '<' || c == '>' || c == '&' || c == '\x27' then
      String.ofList ('\\' :: 'u' :: Text.hex 4 c.toNat)
    else c.toString)

/-- The line of a member in its class. -/
def memberLine (kind : Kind) (m : Member) : String :=
  match kind with
  | .enum =>
    let payload := ((filled? m.type).map fun type => s!"  # payload: {type}").getD ""
    s!"    {m.name} = {markupSafe m.name}{payload}{deprecationComment m}"
  | .struct => s!"    {m.name}: {fieldType m}{deprecationComment m}"

/-- The class of a definition. -/
def classLines (d : Definition) : List String :=
  let head := match d.kind with
    | .enum => [s!"class {d.className}(Enum):"]
    | .struct => ["@dataclass", s!"class {d.className}:"]
  ["", ""] ++ head ++ [s!"    \"\"\"{d.container} {d.release.name}."]
    ++ d.release.docs.flatMap (fun line => ["", "    " ++ line])
    ++ linesOf d.release.note (fun note => ["", s!"    .. deprecated:: {note}"])
    ++ ["    \"\"\""] ++ (if d.members.isEmpty then [] else [""])
    ++ d.members.map (memberLine d.kind)

/-- The word for a direction at the start of a sentence. -/
def directionWord : Direction → String
  | .upgrade => "Upgrade"
  | .downgrade => "Downgrade"

/-- The documentation of the function of an edge. -/
def functionDoc (e : Edge) : String :=
  s!"    \"\"\"{directionWord e.direction} {e.container} from {e.source.name} to {e.target.name}.\"\"\""

/-- The lines of a branch. -/
def branchLines (b : Branch) : List String :=
  s!"    if {b.test}:" :: (if b.comment.isEmpty then [] else ["        # " ++ b.comment])
    ++ ["        return " ++ b.result]

/-- The function of an edge. -/
def functionLines (g : Generation) (e : Edge) : StateT Imports (Except Failure) (List String) := do
  let source ← g.definition e.source.name
  let target ← g.definition e.target.name
  let name := e.functionName
  match e.steps with
  | .fields steps dropped =>
    let assignments ← steps.mapM fun s => do
      let value ← lift (fieldText name s)
      return s!"        {s.target}={value},"
    return ["", "", s!"def {name}(value: {source.className}) -> {target.className}:", functionDoc e]
      ++ dropped.map (fun d => "    # not carried: " ++ d.source)
      ++ [s!"    return {target.className}("] ++ assignments ++ ["    )"]
  | .variants steps =>
    let branches ← steps.mapM fun s => lift (branch name source target s)
    return ["", "", s!"def {name}(value: Any) -> Any:", functionDoc e,
      "    variant, payload = value if isinstance(value, tuple) else (value, None)"]
      ++ branches.flatMap branchLines
      ++ [s!"    raise ValueError(f\"unknown {source.className} variant: \x7bvariant!r\x7d\")"]
where
  /-- A text of code as part of a larger operation. -/
  lift {α : Type} (act : Coding α) : StateT Imports (Except Failure) α :=
    fun imports => (act imports).mapError .fault

/-- The edges between the versions that follow each other, upgrade before downgrade. -/
def orderedEdges (g : Generation) : List Edge :=
  g.timeline.adjacentPairs.flatMap fun (older, newer) =>
    (g.edge? older.name newer.name).toList ++ (g.edge? newer.name older.name).toList

/-- The text of the module of a container: a class for each version and a function for each edge. -/
def moduleText (g : Generation) : Except Failure String := do
  let (functions, imports) ← (orderedEdges g).mapM (functionLines g) Imports.none
  let lines := headLines g ++ imports.lines ++ (if imports.usesConvert then converterLines else [])
    ++ g.definitions.flatMap classLines ++ functions.flatten
  return String.join (lines.map (· ++ "\n"))

end Lineage.Code
