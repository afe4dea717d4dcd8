import MdxPages.Text.Scan
import MdxPages.Value.Basic

/-!
# Value/Moment — dates and times among the values of configuration files and documents

A moment has the parts that it was written with.  Its text is that of the date and the time with a
blank between; inside a list a moment is shown by its parts.
-/

namespace MdxPages

/-- A day of the calendar. -/
structure Date where
  year : Nat
  month : Nat
  day : Nat
deriving DecidableEq, Repr, Inhabited

/-- A time of the day, to the microsecond. -/
structure TimeOfDay where
  hour : Nat
  minute : Nat
  second : Nat
  micro : Nat
deriving DecidableEq, Repr, Inhabited

/-- A number with at least the given count of digits. -/
def padded (width n : Nat) : String :=
  let digits := Nat.toDigits 10 n
  String.ofList (List.replicate (width - digits.length) '0' ++ digits)

namespace Date

/-- Whether a year has a 29th of February. -/
def isLeap (year : Nat) : Bool :=
  (year % 4 == 0 && year % 100 != 0) || year % 400 == 0

/-- The number of days of a month. -/
def daysOfMonth (year month : Nat) : Nat :=
  if month = 2 then (if isLeap year then 29 else 28)
  else if month = 4 ∨ month = 6 ∨ month = 9 ∨ month = 11 then 30
  else 31

/-- Whether a date stands in the calendar of the years 1 to 9999. -/
def isValid (d : Date) : Bool :=
  0 < d.year && d.year ≤ 9999 && 0 < d.month && d.month ≤ 12 && 0 < d.day &&
    d.day ≤ daysOfMonth d.year d.month

/-- The text of a date. -/
def text (d : Date) : String :=
  padded 4 d.year ++ "-" ++ padded 2 d.month ++ "-" ++ padded 2 d.day

/-- The year, month and day that are a number of days after the first of January 1970.  Years are
counted from March, so that the day that comes and goes is the last one of a year, in eras of
400 years. -/
def ofDays (days : Int) : Int × Nat × Nat :=
  let shifted := days + 719468
  let era := shifted.fdiv 146097
  let dayOfEra := (shifted - era * 146097).toNat
  let yearOfEra := (dayOfEra - dayOfEra / 1460 + dayOfEra / 36524 - dayOfEra / 146096) / 365
  let dayOfYear := dayOfEra - (365 * yearOfEra + yearOfEra / 4 - yearOfEra / 100)
  let monthFromMarch := (5 * dayOfYear + 2) / 153
  let day := dayOfYear - (153 * monthFromMarch + 2) / 5 + 1
  let month := if monthFromMarch < 10 then monthFromMarch + 3 else monthFromMarch - 9
  let year : Int := yearOfEra + era * 400
  (if month ≤ 2 then year + 1 else year, month, day)

end Date

namespace TimeOfDay

/-- Whether a time stands on the clock. -/
def isValid (t : TimeOfDay) : Bool :=
  t.hour < 24 && t.minute < 60 && t.second < 60

/-- The microseconds of the digits of a fraction; digits beyond the sixth are left out. -/
def microOf (ds : List Char) : Nat :=
  Text.numberInBase 10 ((ds ++ List.replicate 6 '0').take 6)

/-- The text of a time; a whole second has no fraction. -/
def text (t : TimeOfDay) : String :=
  padded 2 t.hour ++ ":" ++ padded 2 t.minute ++ ":" ++ padded 2 t.second ++
    if t.micro = 0 then "" else "." ++ padded 6 t.micro

/-- The parts of a time by which it is shown. -/
def parts (t : TimeOfDay) : List Nat :=
  [t.hour, t.minute] ++
    (if t.micro ≠ 0 then [t.second, t.micro] else if t.second ≠ 0 then [t.second] else [])

end TimeOfDay

namespace Value

/-- Parts with commas between them. -/
def partsText (parts : List Nat) : String :=
  ", ".intercalate (parts.map toString)

/-- A date as a value. -/
def ofDate (d : Date) : Value :=
  .foreign (.other "date" d.text ("datetime.date(" ++ partsText [d.year, d.month, d.day] ++ ")"))

/-- A time as a value. -/
def ofTime (t : TimeOfDay) : Value :=
  .foreign (.other "time" t.text ("datetime.time(" ++ partsText t.parts ++ ")"))

/-- The text of a distance from universal time in minutes. -/
def offsetText (minutes : Int) : String :=
  (if minutes < 0 then "-" else "+") ++ padded 2 (minutes.natAbs / 60) ++ ":" ++
    padded 2 (minutes.natAbs % 60)

/-- A distance from universal time as it is shown. -/
def zoneText (minutes : Int) : String :=
  if minutes = 0 then "datetime.timezone.utc"
  else
    let seconds := minutes * 60
    "datetime.timezone(datetime.timedelta(" ++
      (if seconds < 0 then "days=-1, seconds=" ++ toString (86400 + seconds)
        else "seconds=" ++ toString seconds) ++ "))"

/-- A date with a time, and its distance from universal time in minutes if it is known. -/
def ofDateTime (d : Date) (t : TimeOfDay) (offset : Option Int) : Value :=
  .foreign (.other "datetime" (d.text ++ " " ++ t.text ++ offset.elim "" offsetText)
    ("datetime.datetime(" ++ partsText ([d.year, d.month, d.day] ++ t.parts) ++
      offset.elim "" (fun minutes => ", tzinfo=" ++ zoneText minutes) ++ ")"))

end Value

end MdxPages
