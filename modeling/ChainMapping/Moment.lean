import ChainMapping.Text.Blank
import ChainMapping.Text.Search

/-!
# Moments

A moment in universal time, written as `2024-01-02T03:04:05.250Z`.  The reader is lenient about
blanks and leading zeros and takes any offset that is less than a day; the writer is canonical.

Offsets are whole minutes, so a moment is a minute of the calendar with a second and a fraction in
it.  That keeps a leap second, which is second 60 of its minute.
-/

namespace ChainMapping

structure Moment where
  /-- minutes since 1970 began -/
  minute : Int
  /-- up to 60, which is a leap second -/
  second : Nat
  nanosecond : Nat
  deriving DecidableEq, Repr

namespace Moment

/-- The moment a number of nanoseconds after 1970 began. -/
def ofNanoseconds (n : Int) : Moment :=
  let seconds := n.fdiv 1000000000
  ⟨seconds.fdiv 60, (seconds.fmod 60).toNat, (n.fmod 1000000000).toNat⟩

/-- Days from the beginning of 1970 to a day of the calendar.  The year is taken to begin in March,
so that a leap day is the last day of its year. -/
def dayNumber (year : Int) (month day : Nat) : Int :=
  let y := if month ≤ 2 then year - 1 else year
  let era := y.fdiv 400
  let yearOfEra := y - era * 400
  let monthFromMarch : Int := (month + 9) % 12
  let dayOfYear := (153 * monthFromMarch + 2) / 5 + day - 1
  let dayOfEra := yearOfEra * 365 + yearOfEra / 4 - yearOfEra / 100 + dayOfYear
  era * 146097 + dayOfEra - 719468

/-- The day of the calendar with a number. -/
def calendarDay (number : Int) : Int × Nat × Nat :=
  let z := number + 719468
  let era := z.fdiv 146097
  let dayOfEra := z - era * 146097
  let yearOfEra := (dayOfEra - dayOfEra / 1460 + dayOfEra / 36524 - dayOfEra / 146096) / 365
  let dayOfYear := dayOfEra - (365 * yearOfEra + yearOfEra / 4 - yearOfEra / 100)
  let monthFromMarch := (5 * dayOfYear + 2) / 153
  let day := dayOfYear - (153 * monthFromMarch + 2) / 5 + 1
  let month := if monthFromMarch < 10 then monthFromMarch + 3 else monthFromMarch - 9
  let year := yearOfEra + era * 400 + (if month ≤ 2 then 1 else 0)
  (year, month.toNat, day.toNat)

def isLeapYear (year : Int) : Bool :=
  year % 4 = 0 && (year % 100 ≠ 0 || year % 400 = 0)

def daysInMonth (year : Int) (month : Nat) : Nat :=
  if month = 2 then (if isLeapYear year then 29 else 28)
  else if [4, 6, 9, 11].contains month then 30
  else 31

/-- The first year of the calendar. -/
def firstYear : Int := -262143

/-- The last year of the calendar. -/
def lastYear : Int := 262142

/-- A minute of universal time lies in a year of the calendar. -/
def inCalendar (minute : Int) : Bool :=
  dayNumber firstYear 1 1 * 1440 ≤ minute && minute < dayNumber (lastYear + 1) 1 1 * 1440

/-- At least one and at most `most` digits. -/
def readDigits (most : Nat) (cs : List Char) : Option (List Char × List Char) :=
  let digits := (cs.take most).takeWhile Text.isDigit
  if digits.isEmpty then none else some (digits, cs.drop digits.length)

/-- A number within bounds, blanks before it passed over. -/
def readNumber (width low high : Nat) (cs : List Char) : Option (Nat × List Char) := do
  let (digits, rest) ← readDigits width (Text.trimLeft cs)
  let value := Text.digitsValue digits
  if low ≤ value && value ≤ high then some (value, rest) else none

/-- A year: four digits at most, or a sign and any number of them. -/
def readYear (cs : List Char) : Option (Int × List Char) := do
  let cs := Text.trimLeft cs
  let (year, rest) ← match cs with
    | '-' :: rest => (readDigits rest.length rest).map fun (ds, rest) =>
        (-(Text.digitsValue ds : Int), rest)
    | '+' :: rest => (readDigits rest.length rest).map fun (ds, rest) =>
        ((Text.digitsValue ds : Int), rest)
    | cs => (readDigits 4 cs).map fun (ds, rest) => ((Text.digitsValue ds : Int), rest)
  if firstYear ≤ year && year ≤ lastYear then some (year, rest) else none

/-- A mark, blanks before it passed over. -/
def readMark (mark : Char) (cs : List Char) : Option (List Char) :=
  match Text.trimLeft cs with
  | c :: rest => if c = mark then some rest else none
  | [] => none

/-- A fraction of a second in nanoseconds; digits after the ninth do not count. -/
def readFraction (cs : List Char) : Option (Nat × List Char) :=
  match cs with
  | '.' :: rest => do
    let (digits, rest) ← readDigits 9 rest
    let nanoseconds := Text.digitsValue digits * Nat.pow 10 (9 - digits.length)
    return (nanoseconds, rest.dropWhile Text.isDigit)
  | cs => some (0, cs)

/-- Exactly two digits. -/
def readPair (cs : List Char) : Option (Nat × List Char) := do
  let (digits, rest) ← readDigits 2 cs
  if digits.length = 2 then some (Text.digitsValue digits, rest) else none

/-- Whether a sign of an offset is negative; the minus sign of typography is one too. -/
def readSign (sign : Char) : Option Bool :=
  if sign = '+' then some false
  else if sign = '-' || sign = '\u2212' then some true
  else none

/-- An offset in minutes: `UTC` or `Z` in letters of either case, or a sign with hours and
minutes. -/
def readOffset (cs : List Char) : Option (Int × List Char) :=
  let cs := Text.trimLeft cs
  if (cs.take 3).map Char.toUpper = ['U', 'T', 'C'] then some (0, cs.drop 3)
  else
    match cs with
    | [] => none
    | sign :: rest =>
      if sign.toUpper = 'Z' then some (0, rest)
      else do
        let negative ← readSign sign
        let (hours, rest) ← readPair rest
        let (minutes, rest) ← readPair (rest.dropWhile fun c => c = ':' || Text.isBlank c)
        if minutes < 60 && hours < 24 then
          let offset : Int := hours * 60 + minutes
          some (if negative then -offset else offset, rest)
        else none

/-- Reads a moment.  Both the date that is written and its date in universal time must lie in the
calendar. -/
def parse (text : String) : Option Moment := do
  let (year, rest) ← readYear text.toList
  let (month, rest) ← readNumber 2 1 12 (← readMark '-' rest)
  let (day, rest) ← readNumber 2 1 (daysInMonth year month) (← readMark '-' rest)
  let rest ← match rest with
    | c :: rest => if c = 'T' || c = 't' || c = ' ' then some rest else none
    | [] => none
  let (hour, rest) ← readNumber 2 0 23 rest
  let (minute, rest) ← readNumber 2 0 59 (← readMark ':' rest)
  let (second, rest) ← readNumber 2 0 60 (← readMark ':' rest)
  let (nanosecond, rest) ← readFraction rest
  let (offset, rest) ← readOffset rest
  let minute := dayNumber year month day * 1440 + hour * 60 + minute - offset
  if Text.isAllBlank rest && inCalendar minute then some ⟨minute, second, nanosecond⟩ else none

/-- A number in decimal, padded with zeros to a width. -/
def padded (width n : Nat) : String :=
  let digits := Nat.toDigits 10 n
  String.ofList (List.replicate (width - digits.length) '0' ++ digits)

/-- A year; one outside the four-digit range has a sign. -/
def yearText (year : Int) : String :=
  if 0 ≤ year && year ≤ 9999 then padded 4 year.toNat
  else (if year < 0 then "-" else "+") ++ padded 4 year.natAbs

/-- A fraction of a second in three, six or nine digits, as few as are exact. -/
def fractionText (nanosecond : Nat) : String :=
  if nanosecond = 0 then ""
  else if nanosecond % 1000000 = 0 then "." ++ padded 3 (nanosecond / 1000000)
  else if nanosecond % 1000 = 0 then "." ++ padded 6 (nanosecond / 1000)
  else "." ++ padded 9 nanosecond

/-- A moment down to its second. -/
def wholeText (m : Moment) : String :=
  let (year, month, day) := calendarDay (m.minute.fdiv 1440)
  let ofDay := (m.minute.fmod 1440).toNat
  s!"{yearText year}-{padded 2 month}-{padded 2 day}T"
    ++ s!"{padded 2 (ofDay / 60)}:{padded 2 (ofDay % 60)}:{padded 2 m.second}"

/-- Writes a moment. -/
def render (m : Moment) : String := m.wholeText ++ fractionText m.nanosecond ++ "Z"

/-- Writes a moment down to its millisecond. -/
def renderMillis (m : Moment) : String :=
  m.wholeText ++ "." ++ padded 3 (m.nanosecond / 1000000) ++ "Z"

end Moment
end ChainMapping
