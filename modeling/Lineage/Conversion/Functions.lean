import Lineage.Conversion.Library
import Lineage.Text.Blank
import Lineage.Text.Cut

namespace Lineage

/-- The functions that conversions may call: those that were registered under their names, the
converters from one type to another, and those of modules, which may be limited to a list. -/
structure Functions where
  registered : Entries String Function
  converters : Entries (String × String) Function
  allowed : Option (List String)
  library : Library

namespace Functions

/-- No function is registered, and any may be imported from a module. -/
def standard : Functions :=
  ⟨[], [], none, .standard⟩

/-- Only functions of the listed modules may be imported; blank names are passed over. -/
def allowing (modules : List String) : Option (List String) :=
  some ((modules.map Text.strip).filter fun name => !name.isEmpty)

/-- Registers a function under a name. -/
def register (fs : Functions) (name : String) (f : Function) : Functions :=
  { fs with registered := fs.registered.put name f }

/-- Registers a converter from one type to another. -/
def registerConverter (fs : Functions) (source target : String) (f : Function) : Functions :=
  { fs with converters := fs.converters.put (source, target) f }

/-- The converter from one type to another. -/
def converter? (fs : Functions) (source target : Option String) : Option Function :=
  match source, target with
  | some a, some b => fs.converters.get? (a, b)
  | _, _ => none

/-- Whether functions of a module may be imported: a listed module, or one inside of it. -/
def isImportable (fs : Functions) (module : String) : Bool :=
  match fs.allowed with
  | none => true
  | some names => names.any fun name => module == name || (name ++ ".").toList.isPrefixOf module.toList

/-- The module and the name of a function by its dotted name, in which a colon may stand between
them. -/
def divide? (dotted : String) : Option (String × String) :=
  let cs := dotted.toList
  match Text.cutFirst ':' cs <|> Text.cutLast '.' cs with
  | some (module, name) =>
    if module.isEmpty || name.isEmpty then none else some (String.ofList module, String.ofList name)
  | none => none

/-- The function of a name: a registered one, or else one of a module. -/
def resolve (fs : Functions) (name : String) : Except Failure Function :=
  match fs.registered.get? name with
  | some f => .ok f
  | none =>
    let refuse := fun fault => Except.error (Failure.conversion fault)
    match divide? name with
    | none => refuse (.unregistered name)
    | some (module, member) =>
      if !fs.isImportable module then refuse (.forbidden name)
      else if module.startsWith "." then .error (.fault (.relativeModule (Text.quoted module)))
      else match fs.library module member with
        | .function f => .ok f
        | .other => refuse (.notCallable name)
        | .missing cause => refuse (.unresolved name cause)
        | .raised cause => .error (.fault cause)

/-- Calls the function of a name. -/
def call (fs : Functions) (name : String) (args : List Value) : Except Failure Value := do
  match (← fs.resolve name) args with
  | .ok v => return v
  | .error (.refused message status) => .error (.conversion (.refused message status))
  | .error (.fault cause) => .error (.conversion (.failed name cause))

/-- The faults of functions that cannot be resolved. -/
def unresolved (fs : Functions) : List String → Except Failure (List String)
  | [] => .ok []
  | name :: rest =>
    match fs.resolve name with
    | .ok _ => fs.unresolved rest
    | .error (.conversion cause) => return cause.message :: (← fs.unresolved rest)
    | .error failure => .error failure

end Functions

end Lineage
