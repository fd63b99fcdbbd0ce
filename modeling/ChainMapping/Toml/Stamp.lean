import ChainMapping.Moment

/-!
# TOML dates and times

A stamp is a date, a time of day, or both, and then perhaps with a distance from universal time.
It need not say which moment it is, so it is kept apart from `Moment` and only shares the calendar
with it.

A stamp has several spellings: a small `t` or a blank between the date and the time, trailing zeros
in a fraction, an offset of minus nothing.  `Stamp.render` gives one spelling to all of them.
-/

namespace ChainMapping
namespace Toml

/-- A day of the calendar. -/
structure Date where
  year : Nat
  month : Nat
  day : Nat
  deriving DecidableEq, Repr

/-- A time of day. -/
structure TimeOfDay where
  hour : Nat
  minute : Nat
  /-- up to 60, which is a leap second -/
  second : Nat
  nanosecond : Nat
  deriving DecidableEq, Repr

/-- The distance from universal time. -/
inductive Offset where
  | universal
  | ahead (minutes : Int)
  deriving DecidableEq, Repr

inductive Stamp where
  | date (date : Date)
  | time (time : TimeOfDay)
  | both (date : Date) (time : TimeOfDay) (offset : Option Offset)
  deriving DecidableEq, Repr

/-- What follows a character that must stand here. -/
def expect? (c : Char) : List Char → Option (List Char)
  | d :: rest => if c = d then some rest else none
  | [] => none

/-- A date and what follows it. -/
def Date.read? (cs : List Char) : Option (Date × List Char) := do
  let (century, rest) ← Moment.readPair cs
  let (years, rest) ← Moment.readPair rest
  let (month, rest) ← Moment.readPair (← expect? '-' rest)
  let (day, rest) ← Moment.readPair (← expect? '-' rest)
  let year := 100 * century + years
  if 1 ≤ month && month ≤ 12 && 1 ≤ day && day ≤ Moment.daysInMonth year month then
    some (⟨year, month, day⟩, rest)
  else none

/-- A time of day and what follows it. -/
def TimeOfDay.read? (cs : List Char) : Option (TimeOfDay × List Char) := do
  let (hour, rest) ← Moment.readPair cs
  let (minute, rest) ← Moment.readPair (← expect? ':' rest)
  let (second, rest) ← Moment.readPair (← expect? ':' rest)
  let (nanosecond, rest) ← Moment.readFraction rest
  if hour ≤ 23 && minute ≤ 59 && second ≤ 60 then some (⟨hour, minute, second, nanosecond⟩, rest)
  else none

/-- An offset and what follows it. -/
def Offset.read? : List Char → Option (Offset × List Char)
  | [] => none
  | c :: rest =>
    if c = 'Z' || c = 'z' then some (universal, rest)
    else if c = '+' || c = '-' then do
      let (hours, rest) ← Moment.readPair rest
      let (minutes, rest) ← Moment.readPair (← expect? ':' rest)
      let distance : Int := hours * 60 + minutes
      if hours ≤ 23 && minutes ≤ 59 then
        some (ahead (if c = '-' then -distance else distance), rest)
      else none
    else none

namespace Stamp

/-- A stamp that takes up a whole run of characters. -/
def parse? (cs : List Char) : Option Stamp :=
  match Date.read? cs with
  | some (d, []) => some (date d)
  | some (d, c :: rest) =>
    if c = 'T' || c = 't' || c = ' ' then
      match TimeOfDay.read? rest with
      | some (t, []) => some (both d t none)
      | some (t, rest) =>
        match Offset.read? rest with
        | some (offset, []) => some (both d t (some offset))
        | _ => none
      | none => none
    else none
  | none =>
    match TimeOfDay.read? cs with
    | some (t, []) => some (time t)
    | _ => none

end Stamp

def Date.render (d : Date) : String :=
  s!"{Moment.padded 4 d.year}-{Moment.padded 2 d.month}-{Moment.padded 2 d.day}"

/-- A fraction of a second in as few digits as are exact, none for a whole second. -/
def fractionText (nanosecond : Nat) : String :=
  if nanosecond = 0 then ""
  else
    let digits := (Moment.padded 9 nanosecond).toList
    String.ofList ('.' :: (digits.reverse.dropWhile (· == '0')).reverse)

def TimeOfDay.render (t : TimeOfDay) : String :=
  s!"{Moment.padded 2 t.hour}:{Moment.padded 2 t.minute}:{Moment.padded 2 t.second}"
    ++ fractionText t.nanosecond

/-- An offset in hours and minutes; one of no minutes is not negative. -/
def Offset.render : Offset → String
  | universal => "Z"
  | ahead minutes =>
    (if minutes < 0 then "-" else "+")
      ++ s!"{Moment.padded 2 (minutes.natAbs / 60)}:{Moment.padded 2 (minutes.natAbs % 60)}"

/-- The one spelling of a stamp. -/
def Stamp.render : Stamp → String
  | date d => d.render
  | time t => t.render
  | both d t offset => s!"{d.render}T{t.render}" ++ (offset.map Offset.render).getD ""

end Toml
end ChainMapping
