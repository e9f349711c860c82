import Lineage.Entries
import Lineage.Fault
import Lineage.Number.Integer
import Lineage.Text.Blank
import Lineage.Text.Cut
import Lineage.Text.LowerCase
import Lineage.Text.UpperCase

namespace Lineage

/-- What can be set from outside: the address of the service, how much it logs, the format of
rendered files, whether conversions are tracked, and the modules whose functions can be used. -/
structure Settings where
  host : String
  port : Int
  logLevel : String
  renderFormat : String
  trackConversions : Bool
  functionModules : List String
  deriving DecidableEq, Repr

namespace Settings

/-- A setting with something in it, or else another text, in either case without the blanks around
it. -/
def filledOr (environment : Entries String String) (name standard : String) : String :=
  match Entries.get? environment name with
  | some s => Text.strip (if s.isEmpty then standard else s)
  | none => Text.strip standard

/-- The port, which is the standard one where no integer is set. -/
def portOf (s : String) : Int :=
  match Number.readInteger s.toList with
  | .ok port => port
  | .error _ => 8001

/-- Settings from the variables of an environment. -/
def ofEnvironment (environment : Entries String String) : Settings where
  host := (Entries.get? environment "SCHEMAEVO_HOST").getD "0.0.0.0"
  port := portOf (filledOr environment "SCHEMAEVO_PORT" "")
  logLevel := Text.upper (filledOr environment "SCHEMAEVO_LOG_LEVEL" "INFO")
  renderFormat := Text.lower (filledOr environment "SCHEMAEVO_RENDER_FORMAT" "python")
  trackConversions :=
    let word := Text.lower (filledOr environment "SCHEMAEVO_TRACK_CONVERSIONS" "0")
    ["1", "true", "yes", "on"].contains word
  functionModules :=
    let parts := Text.pieces ',' (filledOr environment "SCHEMAEVO_FUNCTION_MODULES" "").toList
    (parts.map fun part => String.ofList (Text.trim part)).filter (· != "")

/-- The names in capitals that are taken by the layout of messages, and so are no levels: one of a text
and one of a table. -/
def layoutNames : List (String × Fault) :=
  let basic := "%(levelname)s:%(name)s:%(message)s"
  let braces := "\x7blevelname\x7d:\x7bname\x7d:\x7bmessage\x7d"
  let dollars := "$\x7blevelname\x7d:$\x7bname\x7d:$\x7bmessage\x7d"
  [("BASIC_FORMAT", .unknownChoice s!"Unknown level: '{basic}'"),
    ("_STYLES", .noLevel (s!"\x7b'%': (<class 'logging.PercentStyle'>, '{basic}'), "
      ++ s!"'\x7b': (<class 'logging.StrFormatStyle'>, '{braces}'), "
      ++ s!"'$': (<class 'logging.StringTemplateStyle'>, '{dollars}')\x7d"))]

/-- Checks how much is to be logged. A name that is not known is passed over. -/
def checkLogLevel (s : Settings) : Except Fault Unit :=
  match layoutNames.lookup s.logLevel with
  | some fault => .error fault
  | none => .ok ()

end Settings

end Lineage
