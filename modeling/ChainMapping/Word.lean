/-!
# Sixty-four bits

Documents hold integers of sixty-four bits, signed or not, and numbers that a chain or an argument
writes are bounded in the same way.
-/

namespace ChainMapping
namespace Word

/-- How many numbers sixty-four bits tell apart. -/
def count : Nat := 18446744073709551616

/-- How many of them are negative when the first bit is a sign. -/
def half : Nat := 9223372036854775808

/-- The largest number without a sign. -/
def max : Nat := 18446744073709551615

end Word
end ChainMapping
