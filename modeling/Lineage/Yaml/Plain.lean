namespace Lineage.Yaml

/-- What a plain scalar stands for by its form. -/
inductive Form where
  | text
  | null
  | truth
  | integer
  | float
  | timestamp
  | merge
  | default
  | reserved
  deriving DecidableEq, Repr

/-- The words that stand for truth values. -/
def truthWords : List String :=
  ["yes", "Yes", "YES", "no", "No", "NO", "true", "True", "TRUE", "false", "False", "FALSE",
    "on", "On", "ON", "off", "Off", "OFF"]

/-- The words that stand for null. -/
def nullWords : List String :=
  ["~", "null", "Null", "NULL", ""]

/-- A scalar without a sign at its start. -/
def unsigned : List Char → List Char
  | '-' :: rest => rest
  | '+' :: rest => rest
  | cs => cs

/-- Whether a character is a digit or an underscore between digits. -/
def isDigitPart (c : Char) : Bool :=
  c.isDigit || c == '_'

/-- Whether a scalar is not empty and all its characters have a property. -/
def allOf (p : Char → Bool) (cs : List Char) : Bool :=
  !cs.isEmpty && cs.all p

/-- Whether a scalar is a digit and then digits and underscores. -/
def isDigits : List Char → Bool
  | c :: rest => c.isDigit && rest.all isDigitPart
  | [] => false

/-- Whether the groups after colons are numbers below sixty. -/
def areSexagesimal : List (List Char) → Bool
  | [] => true
  | [a] :: rest => a.isDigit && areSexagesimal rest
  | [a, b] :: rest => '0' ≤ a && a ≤ '5' && b.isDigit && areSexagesimal rest
  | _ :: _ => false

/-- A scalar divided at its colons: what is before the first, and the groups after each. -/
def colonGroups : List Char → List Char × List (List Char)
  | [] => ([], [])
  | c :: rest =>
    let (first, groups) := colonGroups rest
    if c == ':' then ([], first :: groups) else (c :: first, groups)

/-- Whether an unsigned scalar is an integer: binary, octal, decimal, hexadecimal or in base sixty. -/
def isUnsignedInteger (cs : List Char) : Bool :=
  match cs with
  | '0' :: 'b' :: digits => allOf (fun c => c == '0' || c == '1' || c == '_') digits
  | '0' :: 'x' :: digits =>
    allOf (fun c => isDigitPart c || ('a' ≤ c && c ≤ 'f') || ('A' ≤ c && c ≤ 'F')) digits
  | ['0'] => true
  | '0' :: digits => allOf (fun c => ('0' ≤ c && c ≤ '7') || c == '_') digits
  | cs =>
    let (first, groups) := colonGroups cs
    isDigits first && areSexagesimal groups

/-- Whether what follows the digits of a float is nothing or an exponent with a sign. -/
def isExponent : List Char → Bool
  | [] => true
  | e :: sign :: digits =>
    (e == 'e' || e == 'E') && (sign == '-' || sign == '+') && allOf Char.isDigit digits
  | _ => false

/-- Whether a scalar is a float: decimal with a point, in base sixty with a point, an infinity or not
a number. -/
def isFloat (cs : List Char) : Bool :=
  let body := unsigned cs
  let before := body.takeWhile (· != '.')
  match body.dropWhile (· != '.') with
  | '.' :: after =>
    let fraction := after.takeWhile isDigitPart
    let rest := after.dropWhile isDigitPart
    let (first, groups) := colonGroups before
    let name := String.ofList after
    (isDigits before && isExponent rest)
      || (body == cs && before.isEmpty && isDigits fraction && isExponent rest)
      || (isDigits first && !groups.isEmpty && areSexagesimal groups && rest.isEmpty)
      || (before.isEmpty && ["inf", "Inf", "INF"].contains name)
      || (body == cs && before.isEmpty && ["nan", "NaN", "NAN"].contains name)
  | _ => false

/-- Between `least` and `most` digits at the start of a scalar, as many as there are, and the rest. -/
def takeDigits? (least most : Nat) (cs : List Char) : Option (List Char × List Char) :=
  let digits := (cs.take most).takeWhile Char.isDigit
  if digits.length < least then none else some (digits, cs.drop digits.length)

/-- The rest of a scalar after a character that must be there. -/
def after? (c : Char) : List Char → Option (List Char)
  | d :: rest => if d == c then some rest else none
  | [] => none

/-- Whether a character is a space or a tab. -/
def isGap (c : Char) : Bool :=
  c == ' ' || c == '\t'

/-- The parts of a timestamp as they are written. -/
structure Timestamp where
  year : List Char
  month : List Char
  day : List Char
  clock : Option (List Char × List Char × List Char)
  fraction : List Char
  zone : Option (Option (Bool × List Char × List Char))
  deriving DecidableEq, Repr

/-- The zone at the end of a timestamp: none, universal time, or a sign, hours and minutes. -/
def zone? (cs : List Char) : Option (Option (Option (Bool × List Char × List Char))) :=
  match cs.dropWhile isGap with
  | [] => if cs.isEmpty then some none else none
  | ['Z'] => some (some none)
  | sign :: rest =>
    if sign == '-' || sign == '+' then
      match takeDigits? 1 2 rest with
      | some (hours, []) => some (some (some (sign == '-', hours, [])))
      | some (hours, ':' :: more) =>
        match takeDigits? 2 2 more with
        | some (minutes, []) => some (some (some (sign == '-', hours, minutes)))
        | _ => none
      | _ => none
    else none

/-- Reads a day with a clock time after it. -/
def clockTime? (cs : List Char) : Option Timestamp := do
  let (year, rest) ← takeDigits? 4 4 cs
  let (month, rest) ← takeDigits? 1 2 (← after? '-' rest)
  let (day, rest) ← takeDigits? 1 2 (← after? '-' rest)
  let rest ← match rest with
    | 'T' :: more => some more
    | 't' :: more => some more
    | c :: more => if isGap c then some (more.dropWhile isGap) else none
    | [] => none
  let (hour, rest) ← takeDigits? 1 2 rest
  let (minute, rest) ← takeDigits? 2 2 (← after? ':' rest)
  let (second, rest) ← takeDigits? 2 2 (← after? ':' rest)
  let (fraction, rest) := match rest with
    | '.' :: more => (more.takeWhile Char.isDigit, more.dropWhile Char.isDigit)
    | _ => ([], rest)
  return ⟨year, month, day, some (hour, minute, second), fraction, ← zone? rest⟩

/-- Reads a day alone, whose month and day have at least the given number of digits. -/
def bareDay? (least : Nat) (cs : List Char) : Option Timestamp := do
  let (year, rest) ← takeDigits? 4 4 cs
  let (month, rest) ← takeDigits? least 2 (← after? '-' rest)
  let (day, rest) ← takeDigits? least 2 (← after? '-' rest)
  if rest.isEmpty then some ⟨year, month, day, none, [], none⟩ else none

/-- Reads a timestamp: a day alone, or with a clock time after it. -/
def timestamp? (least : Nat) (cs : List Char) : Option Timestamp :=
  bareDay? least cs <|> clockTime? cs

/-- A scalar without the line feed at its end, if there is something else in it. -/
def withoutBreak (cs : List Char) : List Char :=
  if 1 < cs.length && cs.getLast? == some '\n' then cs.dropLast else cs

/-- What a plain scalar stands for. A line feed at its end does not matter. -/
def form (cs : List Char) : Form :=
  let cs := withoutBreak cs
  let s := String.ofList cs
  if truthWords.contains s then .truth
  else if nullWords.contains s then .null
  else if isFloat cs then .float
  else if isUnsignedInteger (unsigned cs) then .integer
  else if (timestamp? 2 cs).isSome then .timestamp
  else if s == "<<" then .merge
  else if s == "=" then .default
  else if s == "!" || s == "&" || s == "*" then .reserved
  else .text

end Lineage.Yaml
