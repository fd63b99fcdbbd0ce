/-!
# Decimal numbers read as floats

A decimal `digits · 10 ^ exponent` is read as the nearest double, ties to even.  Numbers far outside
the range of doubles are settled by their magnitude alone, so an absurd exponent costs nothing.
-/

namespace ChainMapping
namespace Decimal

/-- Number of decimal digits of a positive number. -/
def digitCount (n : Nat) : Nat := (Nat.toDigits 10 n).length

/-- The double nearest to `digits · 10 ^ exponent`, infinite beyond the range of doubles. -/
def toFloat (negative : Bool) (digits : Nat) (exponent : Int) : Float :=
  let magnitude : Int := digitCount digits + exponent
  let x : Float :=
    if digits = 0 || magnitude < -330 then 0.0
    else if 310 < magnitude then 1.0 / 0.0
    else if exponent < 0 then Float.ofScientific digits true (-exponent).toNat
    else Float.ofScientific digits false exponent.toNat
  if negative then -x else x

end Decimal
end ChainMapping
