import Lineage.Value

namespace Lineage

/-- The last `width` decimal digits of a number. -/
def padded : (width : Nat) → Nat → String
  | 0, _ => ""
  | width + 1, n => padded width (n / 10) ++ toString (n % 10)

/-- The number of days of a month, none where there is no such month. -/
def daysOfMonth (year month : Nat) : Nat :=
  let leap := (year % 4 == 0 && year % 100 != 0) || year % 400 == 0
  if month == 2 then if leap then 29 else 28
  else if month == 4 || month == 6 || month == 9 || month == 11 then 30
  else if 1 ≤ month && month ≤ 12 then 31 else 0

/-- The number of a day, counted from the first day of the year one. -/
def Date.ordinal (d : Date) : Nat :=
  let years := d.year - 1
  let months := (List.range (d.month - 1)).map fun i => daysOfMonth d.year (i + 1)
  365 * years + years / 4 - years / 100 + years / 400 + months.foldl (· + ·) 0 + d.day

/-- A time in microseconds from the year one on; of universal time, if the distance of its clock from
that is known. -/
def Moment.microseconds (t : Moment) : Int :=
  let clock : Int := 86400 * t.date.ordinal + 3600 * t.hour + 60 * t.minute + t.second
  (clock - t.offset.getD 0) * 1000000 + t.microsecond

/-- Whether two times are the same, whatever their clocks. A time whose distance from universal time
is not known is the same as no other. -/
def Moment.isSame (a b : Moment) : Bool :=
  a.offset.isSome == b.offset.isSome && a.microseconds == b.microseconds

/-- A day as year, month and day with hyphens between them. -/
def Date.text (d : Date) : String :=
  s!"{padded 4 d.year}-{padded 2 d.month}-{padded 2 d.day}"

/-- The distance of a clock from universal time: sign, hours, minutes and, if there are any,
seconds. -/
def offsetText (seconds : Int) : String :=
  let n := seconds.natAbs
  let sign := if seconds < 0 then "-" else "+"
  let tail := if n % 60 == 0 then "" else ":" ++ padded 2 (n % 60)
  s!"{sign}{padded 2 (n / 3600)}:{padded 2 (n / 60 % 60)}{tail}"

/-- A time as day and clock with a separator between them. -/
def Moment.text (separator : String) (t : Moment) : String :=
  let fraction := if t.microsecond == 0 then "" else "." ++ padded 6 t.microsecond
  let zone := (t.offset.map offsetText).getD ""
  let clock := s!"{padded 2 t.hour}:{padded 2 t.minute}:{padded 2 t.second}"
  s!"{t.date.text}{separator}{clock}{fraction}{zone}"

/-- The literal of a day. -/
def Date.literal (d : Date) : String :=
  s!"datetime.date({d.year}, {d.month}, {d.day})"

/-- The literal of a duration, as whole days and the seconds after them. -/
def durationLiteral (seconds : Int) : String :=
  let days := Int.fdiv seconds 86400
  let rest := Int.fmod seconds 86400
  let fields := (if days == 0 then [] else [s!"days={days}"])
    ++ (if rest == 0 then [] else [s!"seconds={rest}"])
  let inner := String.intercalate ", " fields
  s!"datetime.timedelta({inner})"

/-- The literal of the distance of a clock from universal time. -/
def offsetLiteral (seconds : Int) : String :=
  if seconds == 0 then "datetime.timezone.utc"
  else s!"datetime.timezone({durationLiteral seconds})"

/-- The literal of a time; seconds and microseconds are left out while they are zero. -/
def Moment.literal (t : Moment) : String :=
  let seconds := if t.second == 0 && t.microsecond == 0 then [] else [toString t.second]
  let micros := if t.microsecond == 0 then [] else [toString t.microsecond]
  let zone := match t.offset with
    | none => []
    | some offset => ["tzinfo=" ++ offsetLiteral offset]
  let fields := [t.date.year, t.date.month, t.date.day, t.hour, t.minute].map toString
  let inner := String.intercalate ", " (fields ++ seconds ++ micros ++ zone)
  s!"datetime.datetime({inner})"

end Lineage
