/-!
# The normal form of a chain as a text

Names are registered under a form of the chain that does not need it to be read: a bracket with one
comma becomes `[*,*]`, any other bracket without brackets or commas inside becomes `[*]`, and
anchor signs are dropped.  One pass over the characters is enough, because a bracket that fails to
match ends where the next one begins.
-/

namespace ChainMapping
namespace Chain

/-- A square bracket being read: its characters so far, latest first, and whether a comma was
among them. -/
structure OpenBracket where
  body : List Char
  comma : Bool

/-- The characters of an unfinished bracket, as they were written. -/
def OpenBracket.written (b : OpenBracket) : List Char := '[' :: b.body.reverse

/-- Replaces the brackets of a text. -/
def starBrackets : Option OpenBracket → List Char → List Char
  | none, [] => []
  | some b, [] => b.written
  | none, c :: rest =>
    if c = '[' then starBrackets (some ⟨[], false⟩) rest else c :: starBrackets none rest
  | some b, c :: rest =>
    if c = '[' then b.written ++ starBrackets (some ⟨[], false⟩) rest
    else if c = ']' then
      (if b.comma then "[*,*]".toList else "[*]".toList) ++ starBrackets none rest
    else if c = ',' then
      if b.comma then b.written ++ c :: starBrackets none rest
      else starBrackets (some ⟨c :: b.body, true⟩) rest
    else starBrackets (some { b with body := c :: b.body }) rest

/-- A text with its brackets replaced and its anchor signs dropped. -/
def sanitizeChars (cs : List Char) : List Char :=
  (starBrackets none cs).filter (· ≠ '^')

/-- The form under which a chain is registered. -/
def sanitize (text : String) : String :=
  String.ofList (sanitizeChars text.toList)

end Chain
end ChainMapping
