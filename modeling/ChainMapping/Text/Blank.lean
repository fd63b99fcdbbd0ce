/-!
# Blanks

A blank is a character with the Unicode property White_Space.  Chains, type expressions and
settings are trimmed of them, and a text of nothing but blanks counts as empty.
-/

namespace ChainMapping
namespace Text

/-- The characters with the Unicode property White_Space. -/
def isBlank (c : Char) : Bool :=
  let n := c.toNat
  (0x09 ≤ n && n ≤ 0x0d) || n == 0x20 || n == 0x85 || n == 0xa0 || n == 0x1680 ||
    (0x2000 ≤ n && n ≤ 0x200a) || n == 0x2028 || n == 0x2029 || n == 0x202f || n == 0x205f ||
    n == 0x3000

def trimLeft (cs : List Char) : List Char :=
  cs.dropWhile isBlank

def trimRight (cs : List Char) : List Char :=
  (cs.reverse.dropWhile isBlank).reverse

/-- A text without the blanks at its ends. -/
def trim (cs : List Char) : List Char :=
  trimRight (trimLeft cs)

/-- Nothing but blanks, perhaps nothing at all. -/
def isAllBlank (cs : List Char) : Bool :=
  cs.all isBlank

def trimString (s : String) : String :=
  String.ofList (trim s.toList)

end Text
end ChainMapping
