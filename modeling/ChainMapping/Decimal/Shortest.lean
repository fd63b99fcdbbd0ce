/-!
# Shortest decimals

The decimal with the fewest digits that still reads back as the same double, and among those the
one nearest to it, with an even last digit if two are equally near.  A double is `m · 2 ^ q`; the
reals that round to it form an interval around it, closed exactly when `m` is even.  For one, two, …
digits the two neighbours of the double on that decimal grid are tried against the interval in
exact arithmetic.
-/

namespace ChainMapping
namespace Decimal

/-- A positive double with the interval of reals that round to it, all scaled by one power of two:
the numbers are `low / scale`, `value / scale` and `high / scale`. -/
structure Rounding where
  low : Nat
  value : Nat
  high : Nat
  scale : Nat
  closed : Bool

/-- The interval of the double with biased exponent `e` and fraction bits `f`. -/
def roundingOf (e f : Nat) : Rounding :=
  let m := if e = 0 then f else f + Nat.pow 2 52
  let q : Int := if e = 0 then -1074 else e - 1075
  let below := if f = 0 && 1 < e then 4 * m - 1 else 4 * m - 2
  let up := Nat.pow 2 (q - 2).toNat
  let down := Nat.pow 2 (2 - q).toNat
  ⟨below * up, 4 * m * up, (4 * m + 2) * up, down, m % 2 == 0⟩

/-- The number `c · 10 ^ s` lies in the interval. -/
def Rounding.contains (r : Rounding) (c : Nat) (s : Int) : Bool :=
  let point := c * Nat.pow 10 s.toNat * r.scale
  let unit := Nat.pow 10 (-s).toNat
  if r.closed then r.low * unit ≤ point && point ≤ r.high * unit
  else r.low * unit < point && point < r.high * unit

/-- The number of digits before the decimal point, zero or negative for small numbers: the least
`e` with the number below `10 ^ e`. -/
def Rounding.magnitude (r : Rounding) : Int :=
  if r.scale ≤ r.value then ((Nat.toDigits 10 (r.value / r.scale)).length : Int)
  else go 400 0
where
  /-- counts the zeros after the decimal point -/
  go : Nat → Nat → Int
    | 0, zeros => -(zeros : Int)
    | tries + 1, zeros =>
      if r.scale ≤ r.value * Nat.pow 10 (zeros + 1) then -(zeros : Int) else go tries (zeros + 1)

/-- The better of the two neighbours on the grid of `count` digits that lies in the interval. -/
def Rounding.onGrid (r : Rounding) (magnitude : Int) (count : Nat) : Option (Nat × Int) :=
  let s : Int := magnitude - count
  let top := r.value * Nat.pow 10 (-s).toNat
  let unit := r.scale * Nat.pow 10 s.toNat
  let c := top / unit
  let remainder := 2 * (top % unit)
  let nearer := remainder < unit || (remainder == unit && c % 2 == 0)
  match r.contains c s && c != 0, r.contains (c + 1) s with
  | true, true => some (if nearer then c else c + 1, s)
  | true, false => some (c, s)
  | false, true => some (c + 1, s)
  | false, false => none

/-- Trailing zeros moved into the exponent. -/
def stripZeros : Nat → Nat → Int → Nat × Int
  | 0, c, s => (c, s)
  | tries + 1, c, s => if c != 0 && c % 10 == 0 then stripZeros tries (c / 10) (s + 1) else (c, s)

/-- The shortest digits `c` and the exponent `s` of a positive finite double, which is then
`c · 10 ^ s` up to rounding. -/
def shortest (x : Float) : Nat × Int :=
  let bits := x.toBits.toNat
  let r := roundingOf (bits / Nat.pow 2 52 % Nat.pow 2 11) (bits % Nat.pow 2 52)
  let magnitude := r.magnitude
  match (List.range 17).findSome? fun k => r.onGrid magnitude (k + 1) with
  | some (c, s) => stripZeros 20 c s
  | none => (0, 0)

end Decimal
end ChainMapping
