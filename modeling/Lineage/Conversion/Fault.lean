import Lineage.Fault
import Lineage.Text.Quoted

namespace Lineage

/-- Why a dotted name does not lead to a function of a module. -/
inductive ImportFault where
  | noModule (name : String)
  | notPackage (name parent : String)
  | noMember (module member : String)
  | other (message : String)
  deriving DecidableEq, Repr

/-- The text of a fault. -/
def ImportFault.message : ImportFault → String
  | .noModule name => s!"No module named {Text.quoted name}"
  | .notPackage name parent =>
    s!"No module named {Text.quoted name}; {Text.quoted parent} is not a package"
  | .noMember module member => s!"module '{module}' has no attribute '{member}'"
  | .other message => message

/-- Why a value is not converted. -/
inductive ConversionFault where
  | noMapping (container version kind : String)
  | noVariant (container version : String)
  | unknownVariant (literal container source target : String)
  | missingEdge (source target : String)
  | unregistered (function : String)
  | forbidden (function : String)
  | unresolved (function : String) (cause : ImportFault)
  | notCallable (function : String)
  | failed (function : String) (cause : Fault)
  | converterFailed (source target place : String) (cause : Fault)
  | uncoercible (place source target : String) (cause : Fault)
  | unconvertible (fromType toType : Option String) (container source target : String)
  | refused (message : String) (status : Int)
  | several (messages : List String)
  | versionNotText (field : String)
  | versionUnknown (field literal kind : String)
  | objectNotMap
  | objectWithoutVersion
  | reviewNotMap
  | reviewWithoutRequest
  | requestWithoutId
  | requestWithoutVersion
  | requestWithoutObjects
  deriving DecidableEq, Repr

namespace ConversionFault

/-- The text of a type that may be missing. -/
def typeText (type : Option String) : String :=
  type.getD "None"

/-- The text of a fault. -/
def message : ConversionFault → String
  | noMapping container version kind =>
    s!"{container} {version} instance must be a mapping, got {kind}"
  | noVariant container version =>
    s!"{container} {version} instance must be a variant name or a single-key mapping"
  | unknownVariant literal container source target =>
    s!"variant {literal} of {container} has no conversion from {source} to {target}"
  | missingEdge source target => s!"no conversion was generated from {source} to {target}"
  | unregistered function => s!"function {Text.quoted function} is not registered"
  | forbidden function =>
    s!"function {Text.quoted function} is not registered and its module is not allowed"
  | unresolved function cause =>
    s!"cannot resolve function {Text.quoted function}: {cause.message}"
  | notCallable function => s!"{Text.quoted function} is not callable"
  | failed function cause => s!"function {Text.quoted function} failed: {cause.message}"
  | converterFailed source target place cause =>
    s!"type converter from {source} to {target} failed at {place}: {cause.message}"
  | uncoercible place source target cause =>
    s!"cannot convert {place} from {source} to {target}: {cause.message}"
  | unconvertible fromType toType container source target =>
    s!"no conversion registered from {typeText fromType} to {typeText toType} "
      ++ s!"({container} {source} -> {target})"
  | refused message _ => message
  | several messages => String.intercalate "; " messages
  | versionNotText field => s!"{field} must be a string"
  | versionUnknown field literal kind => s!"unknown {field} {literal} for {kind}"
  | objectNotMap => "every object must be a JSON object"
  | objectWithoutVersion => "object is missing the field apiVersion"
  | reviewNotMap => "the ConversionReview must be a JSON object"
  | reviewWithoutRequest => "the ConversionReview has no request"
  | requestWithoutId => "the ConversionReview request has no uid"
  | requestWithoutVersion => "the ConversionReview request has no desiredAPIVersion"
  | requestWithoutObjects => "the ConversionReview request has no objects"

/-- The HTTP status of a fault: what the description or its functions cause is a server error. -/
def status : ConversionFault → Int
  | missingEdge _ _ => 422
  | unregistered _ | unresolved _ _ | notCallable _ | failed _ _ | converterFailed _ _ _ _
  | unconvertible _ _ _ _ _ => 500
  | refused _ status => status
  | _ => 400

end ConversionFault

end Lineage
