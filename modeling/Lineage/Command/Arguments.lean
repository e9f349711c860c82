import Lineage.Rendering

namespace Lineage.Command

/-- Where the output goes: it is printed, or written into a folder, to which its name may be missing. -/
inductive Output where
  | printed
  | folder (path : String)
  | unnamed
  deriving DecidableEq, Repr

/-- What the arguments of the command ask for: a file, a format and where the output goes. -/
structure Arguments where
  file : String
  format : String
  output : Output
  deriving DecidableEq, Repr

/-- Why the command ends before it begins: help is asked for, or the arguments are wrong. -/
inductive Usage where
  | help
  | wrong
  deriving DecidableEq, Repr

/-- The options of the command. -/
inductive Flag where
  | short
  | help
  | format
  | out
  deriving DecidableEq, Repr

/-- The names of the options. -/
def flags : List (String × Flag) :=
  [("-h", .short), ("--help", .help), ("--format", .format), ("--out", .out)]

/-- What an argument is by its form: the mark after which there are no options, an option with the
value that is attached to it, an option that is not known, or a plain argument. -/
inductive Piece where
  | divider
  | flag (name : Flag) (attached : Option String)
  | unknown
  | plain (s : String)
  deriving DecidableEq, Repr

/-- Whether an argument is a negative number, after which a line may end. -/
def isNegativeNumber (s : String) : Bool :=
  let cs := s.toList
  match if cs.getLast? = some '\n' then cs.dropLast else cs with
  | '-' :: body =>
    let whole := body.takeWhile Text.isDigit
    match body.dropWhile Text.isDigit with
    | [] => !whole.isEmpty
    | '.' :: fraction => !fraction.isEmpty && fraction.all Text.isDigit
    | _ => false
  | _ => false

/-- The option with a name. -/
def named? (name : List Char) : Option Flag :=
  (flags.find? fun flag => flag.1.toList == name).map (·.2)

/-- The options whose names start with what is written. -/
def abbreviated (written : List Char) : List Flag :=
  (flags.filter fun (name, _) => written.isPrefixOf name.toList).map (·.2)

/-- The options that an argument may stand for, if it is not the name of one. -/
def candidates (cs : List Char) : List (Flag × Option String) :=
  match cs with
  | '-' :: '-' :: _ =>
    match Text.cutFirst '=' cs with
    | some (written, attached) =>
      (abbreviated written).map fun flag => (flag, some (String.ofList attached))
    | none => (abbreviated cs).map fun flag => (flag, none)
  | '-' :: 'h' :: attached => [(.short, some (String.ofList attached))]
  | _ => []

/-- What an argument is; one that may stand for two options is wrong. -/
def classify (s : String) : Except Usage Piece :=
  let cs := s.toList
  if cs.head? != some '-' || cs.length = 1 then .ok (.plain s)
  else
    match named? cs, Text.cutFirst '=' cs with
    | some flag, _ => .ok (.flag flag none)
    | none, cut =>
      match cut.bind fun (name, attached) => (named? name).map fun flag => (flag, attached) with
      | some (flag, attached) => .ok (.flag flag (some (String.ofList attached)))
      | none =>
        match candidates cs with
        | [(flag, attached)] => .ok (.flag flag attached)
        | _ :: _ :: _ => .error .wrong
        | [] => .ok (if isNegativeNumber s || cs.contains ' ' then .plain s else .unknown)

/-- What the arguments are. After the first divider there are no options. -/
def classifyAll : List String → Except Usage (List Piece)
  | [] => .ok []
  | "--" :: rest => .ok (.divider :: rest.map .plain)
  | s :: rest => do
    let piece ← classify s
    return piece :: (← classifyAll rest)

/-- What was taken from the arguments so far, and whether there were any that say nothing. -/
structure Taken where
  file : Option String
  format : String
  output : Output
  surplus : Bool
  deriving DecidableEq, Repr

/-- The letters after the short name of an option can only ask for help again. -/
def helpOr (attached : Option String) : Usage :=
  match attached with
  | none => .help
  | some letters => if letters != "" && letters.toList.all (· == 'h') then .help else .wrong

/-- What is taken with the value of an option. A divider that is attached to an option is no value, and
leaves the format without a name. -/
def takeValue (flag : Flag) (value : String) (t : Taken) : Except Usage Taken :=
  match flag with
  | .format =>
    if value == "--" then .ok { t with format := "" }
    else if (Format.all.map Format.name).contains value then .ok { t with format := value }
    else .error .wrong
  | .out => .ok { t with output := if value == "--" then .unnamed else .folder value }
  | .help => .error .wrong
  | .short => .error (helpOr (some value))

/-- Takes the arguments one after the other. The first plain one is the file, and it may have a
divider on either side. -/
def takeAll (t : Taken) : List Piece → Except Usage Taken
  | [] => .ok t
  | .flag flag (some value) :: rest => do takeAll (← takeValue flag value t) rest
  | .flag .short none :: _ => .error .help
  | .flag .help none :: _ => .error .help
  | .flag flag none :: .plain value :: rest => do takeAll (← takeValue flag value t) rest
  | .flag _ none :: _ => .error .wrong
  | .unknown :: rest => takeAll { t with surplus := true } rest
  | .divider :: .plain s :: rest =>
    if t.file.isNone then takeAll { t with file := some s } rest
    else takeAll { t with surplus := true } rest
  | .plain s :: .divider :: rest =>
    if t.file.isNone then takeAll { t with file := some s } rest
    else takeAll { t with surplus := true } rest
  | .plain s :: rest =>
    if t.file.isNone then takeAll { t with file := some s } rest
    else takeAll { t with surplus := true } rest
  | .divider :: rest => takeAll { t with surplus := true } rest

/-- Reads the arguments of the command; `format` is the format if they name none. -/
def Arguments.read (format : String) (arguments : List String) : Except Usage Arguments := do
  let t ← takeAll ⟨none, format, .printed, false⟩ (← classifyAll arguments)
  match t.file with
  | some file => if t.surplus then throw .wrong else return ⟨file, t.format, t.output⟩
  | none => throw .wrong

end Lineage.Command
