namespace Lineage

/-- Why a file is not read or written. -/
inductive FileReason where
  | missing
  | existing
  | notFolder
  | folder
  | nameTooLong
  deriving DecidableEq, Repr

/-- The text of a reason with its number. -/
def FileReason.text : FileReason → String
  | missing => "[Errno 2] No such file or directory"
  | existing => "[Errno 17] File exists"
  | notFolder => "[Errno 20] Not a directory"
  | folder => "[Errno 21] Is a directory"
  | nameTooLong => "[Errno 36] File name too long"

/-- The families of faults. -/
inductive FaultFamily where
  | value
  | kind
  | range
  | index
  | key
  | state
  | encoding
  | text
  | member
  | lookup
  | depth
  | file (reason : FileReason)
  deriving DecidableEq, Repr

/-- What goes wrong with a value or an argument. -/
inductive Fault where
  | notInteger (base : Nat) (literal : String)
  | notFloat (literal : String)
  | digitsRead (count : Nat)
  | digitsWritten
  | nanToInteger
  | infinityToInteger
  | tooLargeForFloat
  | noInteger (kind : String)
  | noFloat (kind : String)
  | noLength (kind : String)
  | noSum (left right : String)
  | noConcatenation (left right : String)
  | noBytes (kind : String)
  | noIndex (kind : String)
  | badBase
  | baseWithoutText
  | noTextArgument (function argument kind : String)
  | nullInText (part : String)
  | noEncoding (name : String)
  | noRepair (name : String)
  | repairUnfit
  | unrepaired (encoding kind reason : String)
  | textDecoded
  | notDecoded (kind : String)
  | notIterable (kind : String)
  | notContainer (kind : String)
  | notByte
  | textIndex (kind : String)
  | itemIndex (container kind : String)
  | indexTooLarge
  | noMembers (kind : String)
  | noPair (index : Nat)
  | notPair (index length : Nat)
  | unhashable (kind : String)
  | unordered (left right : String)
  | relativeModule (literal : String)
  | argumentMissing
  | argumentSurplus
  | argumentCount (function : String) (given : Nat)
  | notWritable (kind : String)
  | keyNotWritable (kind : String)
  | missingKey (literal : String)
  | beyondEnd
  | beyondText
  | beyondTuple
  | beyondBytes
  | notCodePoint
  | codeTooLarge
  | badCalendar (reason : String)
  | noTimestamp
  | noTimestampText
  | noAttribute (kind name : String)
  | noPath (kind : String)
  | noLevel (literal : String)
  | tooDeep (ending : String)
  | badEncoding (reason : String)
  | badText (reason : String)
  | file (reason : FileReason) (literal : String)
  | unfilled
  | uncovered (version : String)
  | noStatuses (literal : String)
  | noEarlier (literal status : String)
  | notAdjacent (older newer : String)
  | noGroup (container : String)
  | unknownChoice (reason : String)
  | raised (message : String)
  deriving DecidableEq, Repr

namespace Fault

/-- The family of a fault. -/
def family : Fault → FaultFamily
  | .infinityToInteger | .tooLargeForFloat | .codeTooLarge => .range
  | .noBytes _ | .noIndex _ | .baseWithoutText | .noTextArgument _ _ _ | .repairUnfit | .textDecoded
  | .notDecoded _ | .noInteger _ | .noFloat _ | .noLength _ | .noSum _ _ | .noConcatenation _ _
  | .notIterable _ | .notContainer _ | .notByte | .textIndex _ | .itemIndex _ _ | .noMembers _ | .noPair _
  | .unhashable _
  | .noTimestampText | .noPath _ | .noLevel _ | .unordered _ _ | .relativeModule _
  | .argumentCount _ _ | .notWritable _ | .keyNotWritable _ =>
    .kind
  | .noTimestamp | .noAttribute _ _ => .member
  | .noEncoding _ | .noRepair _ => .lookup
  | .badText _ => .text
  | .tooDeep _ => .depth
  | .missingKey _ => .key
  | .beyondEnd | .beyondText | .beyondTuple | .beyondBytes | .indexTooLarge => .index
  | .badEncoding _ => .encoding
  | .file reason _ => .file reason
  | .unfilled | .uncovered _ | .noStatuses _ | .noEarlier _ _ => .state
  | _ => .value

/-- The text of a fault. -/
def message : Fault → String
  | .notInteger base literal => s!"invalid literal for int() with base {base}: {literal}"
  | .notFloat literal => s!"could not convert string to float: {literal}"
  | .digitsRead count =>
    s!"Exceeds the limit (4300 digits) for integer string conversion: value has {count} digits; "
      ++ "use sys.set_int_max_str_digits() to increase the limit"
  | .digitsWritten => "Exceeds the limit (4300 digits) for integer string conversion"
  | .nanToInteger => "cannot convert float NaN to integer"
  | .infinityToInteger => "cannot convert float infinity to integer"
  | .tooLargeForFloat => "int too large to convert to float"
  | .noInteger kind =>
    s!"int() argument must be a string, a bytes-like object or a real number, not '{kind}'"
  | .noFloat kind => s!"float() argument must be a string or a real number, not '{kind}'"
  | .noLength kind => s!"object of type '{kind}' has no len()"
  | .noSum left right => s!"unsupported operand type(s) for +: '{left}' and '{right}'"
  | .noConcatenation left right =>
    s!"can only concatenate {left} (not \"{right}\") to {left}"
  | .noBytes kind => s!"can't concat {kind} to bytes"
  | .noIndex kind => s!"'{kind}' object cannot be interpreted as an integer"
  | .badBase => "int() base must be >= 2 and <= 36, or 0"
  | .baseWithoutText => "int() can't convert non-string with explicit base"
  | .noTextArgument function argument kind =>
    s!"{function}() argument '{argument}' must be str, not {kind}"
  | .nullInText part => s!"embedded null {part}"
  | .noEncoding name => s!"unknown encoding: {name}"
  | .noRepair name => s!"unknown error handler name '{name}'"
  | .unrepaired encoding kind reason =>
    s!"decoding with '{encoding}' codec failed ({kind}: {reason})"
  | .repairUnfit => "don't know how to handle UnicodeDecodeError in error callback"
  | .textDecoded => "decoding str is not supported"
  | .notDecoded kind => s!"decoding to str: need a bytes-like object, {kind} found"
  | .notIterable kind => s!"'{kind}' object is not iterable"
  | .notContainer kind => s!"argument of type '{kind}' is not iterable"
  | .notByte => "a bytes-like object is required, not 'str'"
  | .textIndex kind => s!"string indices must be integers, not '{kind}'"
  | .itemIndex container kind => s!"{container} indices must be integers or slices, not {kind}"
  | .indexTooLarge => "cannot fit 'int' into an index-sized integer"
  | .noMembers kind => s!"'{kind}' object is not subscriptable"
  | .noPair index => s!"cannot convert dictionary update sequence element #{index} to a sequence"
  | .notPair index length =>
    s!"dictionary update sequence element #{index} has length {length}; 2 is required"
  | .unhashable kind => s!"unhashable type: '{kind}'"
  | .unordered left right => s!"'<' not supported between instances of '{left}' and '{right}'"
  | .relativeModule literal =>
    s!"the 'package' argument is required to perform a relative import for {literal}"
  | .argumentMissing => "not enough values to unpack (expected 1, got 0)"
  | .argumentSurplus => "too many values to unpack (expected 1)"
  | .argumentCount function given =>
    if function == "len" then s!"len() takes exactly one argument ({given} given)"
    else if function == "int" then s!"int() takes at most 2 arguments ({given} given)"
    else if function == "str" then s!"str() takes at most 3 arguments ({given} given)"
    else if function == "dumps" then
      if given == 0 then "dumps() missing 1 required positional argument: 'obj'"
      else s!"dumps() takes 1 positional argument but {given} were given"
    else s!"{function} expected at most 1 argument, got {given}"
  | .notWritable kind => s!"Object of type {kind} is not JSON serializable"
  | .keyNotWritable kind => s!"keys must be str, int, float, bool or None, not {kind}"
  | .missingKey literal => literal
  | .beyondEnd => "list index out of range"
  | .beyondText => "string index out of range"
  | .beyondTuple => "tuple index out of range"
  | .beyondBytes => "index out of range"
  | .notCodePoint => "chr() arg not in range(0x110000)"
  | .codeTooLarge => "Python int too large to convert to C int"
  | .noTimestamp => "'NoneType' object has no attribute 'groupdict'"
  | .noAttribute kind name => s!"'{kind}' object has no attribute '{name}'"
  | .noTimestampText => "expected string or bytes-like object, got 'list'"
  | .noPath kind => s!"expected str, bytes or os.PathLike object, not {kind}"
  | .noLevel literal => s!"Level not an integer or a valid string: {literal}"
  | .tooDeep ending => "maximum recursion depth exceeded" ++ ending
  | .badCalendar reason | .badEncoding reason | .badText reason | .unknownChoice reason => reason
  | .file reason literal => s!"{reason.text}: {literal}"
  | .unfilled => "internal error: chain has not been filled with container versions"
  | .uncovered version => s!"internal error: chain must contain version {version}"
  | .noStatuses literal => s!"internal error: chain for {literal} has no statuses"
  | .noEarlier literal status =>
    s!"internal error: {literal} cannot propagate backwards from {status}"
  | .notAdjacent older newer => s!"{older} and {newer} are not adjacent versions"
  | .noGroup container => s!"no API group configured for {container}"
  | .raised message => message

end Fault

end Lineage
