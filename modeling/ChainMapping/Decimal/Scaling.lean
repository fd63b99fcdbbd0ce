import ChainMapping.Decimal.Reading
import ChainMapping.Word

/-!
# Quick reading of decimals

A decimal literal is read by gathering its digits into a 64-bit significand and scaling that by a
power of ten in floating point.  Digits that no longer fit are dropped.  The result can miss the
nearest double by a unit in the last place, which `Decimal.toFloat` never does; both agree on
literals of up to fifteen digits with a moderate exponent.
-/

namespace ChainMapping
namespace Decimal

/-- The largest significand. -/
def maxSignificand : Nat := Word.max

/-- Takes digits into a significand for as long as it fits, and says how many are left over. -/
def gather (significand : Nat) : List Char → Nat × Nat
  | [] => (significand, 0)
  | c :: rest =>
    let next := 10 * significand + (c.toNat - '0'.toNat)
    if next ≤ maxSignificand then gather next rest else (significand, rest.length + 1)

/-- The double nearest to a power of ten. -/
def power (n : Nat) : Float := Float.ofScientific 1 false n

/-- The largest exponent of a power of ten that is a finite double. -/
def maxPower : Nat := 308

/-- Divides by a power of ten, in steps when it is too large to be a double itself. -/
def scaleDown (x : Float) (n : Nat) : Float :=
  if n ≤ maxPower then x / power n
  else if x == 0.0 then x
  else scaleDown (x / power maxPower) (n - maxPower)
termination_by n
decreasing_by simp only [maxPower] at *; omega

/-- A significand scaled by a power of ten, infinite beyond the range of doubles. -/
def scale (significand : Nat) (exponent : Int) : Float :=
  let x := toFloat false significand 0
  if exponent < 0 then scaleDown x exponent.natAbs
  else if significand = 0 then 0.0
  else if exponent ≤ maxPower then x * power exponent.toNat
  else 1.0 / 0.0

/-- The value of a literal from the digits before and after its point and its exponent. -/
def quick (negative : Bool) (whole fraction : List Char) (exponent : Int) : Float :=
  let (significand, skipped) := gather 0 whole
  let (significand, dropped) := gather significand fraction
  let taken := fraction.length - dropped
  let x := scale significand (exponent + skipped - taken)
  if negative then -x else x

end Decimal
end ChainMapping
