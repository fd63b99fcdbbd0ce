/-!
# Elapsed time

How long something took, as the caller measured it, and the texts in which that is reported.
-/

namespace ChainMapping

structure Elapsed where
  milliseconds : Nat := 0
  deriving DecidableEq, Repr

namespace Elapsed

/-- A number of hundredths with its two decimals. -/
def hundredthsText (n : Nat) : String :=
  let rest := n % 100
  s!"{n / 100}." ++ (if rest < 10 then "0" else "") ++ toString rest

/-- Milliseconds with two decimals. -/
def millisecondsText (e : Elapsed) : String := hundredthsText (e.milliseconds * 100)

/-- Seconds with two decimals. -/
def secondsText (e : Elapsed) : String := hundredthsText ((e.milliseconds + 5) / 10)

end Elapsed
end ChainMapping
