import Lineage.Entries
import Lineage.Text.Cut
import Lineage.Text.Snake

namespace Lineage.Code

/-- What the text of a module imports: functions by their dotted names and modules of nested
containers, each under an alias, and whether it calls the converters of types. -/
structure Imports where
  functions : Entries String String
  nested : Entries String String
  lines : List String
  usesConvert : Bool
  deriving DecidableEq, Repr

namespace Imports

/-- No imports. -/
def none : Imports :=
  ⟨[], [], [], false⟩

/-- The module and the name of a function by its dotted name, in which a colon may stand between
them; without a module the function is one of the module's own. -/
def divide (dotted : String) : String × String :=
  let cs := dotted.toList
  match Text.cutFirst ':' cs with
  | some (module, name) => (String.ofList module, String.ofList name)
  | Option.none =>
    match Text.cutLast '.' cs with
    | some (module, name) => (String.ofList module, String.ofList name)
    | Option.none => ("", dotted)

/-- The alias for a function that is not imported yet; one that is taken gets a number. -/
def freshAlias (imports : Imports) (name : String) : String :=
  let short := "_" ++ name
  if imports.functions.any fun e => e.2 == short then s!"_{name}_{imports.functions.length}" else short

/-- Imports a function, if need be, and gives its alias. -/
def function (dotted : String) (imports : Imports) : String × Imports :=
  match imports.functions.get? dotted with
  | some short => (short, imports)
  | Option.none =>
    let (module, name) := divide dotted
    if module.isEmpty then (name, { imports with functions := imports.functions.put dotted name })
    else
      let short := imports.freshAlias name
      (short, { imports with
        functions := imports.functions.put dotted short
        lines := imports.lines ++ [s!"from {module} import {name} as {short}"] })

/-- Imports the module of a nested container, if need be, and gives its alias. -/
def container (typeName : String) (imports : Imports) : String × Imports :=
  let module := Text.snakeCase typeName
  match imports.nested.get? module with
  | some short => (short, imports)
  | Option.none =>
    let short := "_nested_" ++ module
    (short, { imports with
      nested := imports.nested.put module short
      lines := imports.lines ++ [s!"from . import {module} as {short}"] })

/-- Takes note that the converters of types are called. -/
def converting (imports : Imports) : Imports :=
  { imports with usesConvert := true }

end Imports

end Lineage.Code
