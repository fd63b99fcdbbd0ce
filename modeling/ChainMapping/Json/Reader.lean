import ChainMapping.Document.Basic
import ChainMapping.Decimal.Scaling
import ChainMapping.Text.Search
import ChainMapping.Word

/-!
# Reading JSON

A JSON text as a document.  Integers that fit 64 bits stay integers; every other number becomes a
float, `-0` included, since no integer has that sign.  A string in which a `\u` escape leaves half a
surrogate pair has no value, but it is no fault of the text either: whatever holds it is unreadable
and can still be passed over.  The readers take the remaining characters and give back what is left;
`fuel` bounds the number of steps and is computed from the length of the text.
-/

namespace ChainMapping
namespace Json

/-- A value that was read and the characters after it. -/
abbrev Remaining (α : Type) := α × List Char

def malformed {α : Type} (reason : String) : Except ReadError α := .error ⟨reason⟩

def isSpace (c : Char) : Bool := c == ' ' || c == '\n' || c == '\t' || c == '\r'

def skipSpaces (cs : List Char) : List Char := cs.dropWhile isSpace

def hexDigit? (c : Char) : Option Nat :=
  if '0' ≤ c && c ≤ '9' then some (c.toNat - '0'.toNat)
  else if 'a' ≤ c && c ≤ 'f' then some (c.toNat - 'a'.toNat + 10)
  else if 'A' ≤ c && c ≤ 'F' then some (c.toNat - 'A'.toNat + 10)
  else none

/-- Four hexadecimal digits. -/
def hexFour? : List Char → Option (Nat × List Char)
  | a :: b :: c :: d :: rest => do
    let a ← hexDigit? a
    let b ← hexDigit? b
    let c ← hexDigit? c
    let d ← hexDigit? d
    return (((a * 16 + b) * 16 + c) * 16 + d, rest)
  | _ => none

def isHighSurrogate (n : Nat) : Bool := 0xd800 ≤ n && n < 0xdc00

def isLowSurrogate (n : Nat) : Bool := 0xdc00 ≤ n && n < 0xe000

/-- The second half of a surrogate pair, if one stands here. -/
def lowSurrogate? : List Char → Option (Remaining Nat)
  | '\\' :: 'u' :: rest => (hexFour? rest).filter fun (n, _) => isLowSurrogate n
  | _ => none

/-- The character of a `\u` escape, two escapes for a character outside the first plane, and none
for half a surrogate pair. -/
def unicodeEscape (cs : List Char) : Except ReadError (Remaining (Option Char)) :=
  match hexFour? cs with
  | none => malformed "invalid escape"
  | some (n, rest) =>
    if isLowSurrogate n then .ok (none, rest)
    else if isHighSurrogate n then
      match lowSurrogate? rest with
      | some (m, rest) =>
        .ok (some (Char.ofNat (0x10000 + (n - 0xd800) * 0x400 + (m - 0xdc00))), rest)
      | none => .ok (none, rest)
    else .ok (some (Char.ofNat n), rest)

/-- The string up to its closing quote, none if it has no value; `done` holds the characters read,
latest first, as long as it has one. -/
def stringBody : (fuel : Nat) → (done : Option (List Char)) → List Char →
    Except ReadError (Remaining (Option String))
  | 0, _, _ => malformed "string is not closed"
  | _, _, [] => malformed "string is not closed"
  | fuel + 1, done, c :: rest =>
    let add (c : Char) : Option (List Char) := done.map (c :: ·)
    if c = '"' then .ok (done.map fun cs => String.ofList cs.reverse, rest)
    else if c = '\\' then
      match rest with
      | '"' :: rest => stringBody fuel (add '"') rest
      | '\\' :: rest => stringBody fuel (add '\\') rest
      | '/' :: rest => stringBody fuel (add '/') rest
      | 'b' :: rest => stringBody fuel (add '\x08') rest
      | 'f' :: rest => stringBody fuel (add '\x0c') rest
      | 'n' :: rest => stringBody fuel (add '\n') rest
      | 'r' :: rest => stringBody fuel (add '\r') rest
      | 't' :: rest => stringBody fuel (add '\t') rest
      | 'u' :: rest => do
        let (c?, rest) ← unicodeEscape rest
        stringBody fuel (c?.bind add) rest
      | _ => malformed "invalid escape"
    else if c.toNat < 0x20 then malformed "control character in string"
    else stringBody fuel (add c) rest

/-- The document of an integer literal. -/
def integerValue (negative : Bool) (digits : List Char) : Document :=
  let n := Text.digitsValue digits
  if negative && n ≠ 0 && n ≤ Word.half then .int (-(n : Int))
  else if !negative && n < Word.count then .int n
  else .float (Decimal.quick negative digits [] 0)

/-- The fraction digits after a point, at least one, or none without a point. -/
def fractionPart (cs : List Char) : Except ReadError (Remaining (Option (List Char))) :=
  match cs with
  | '.' :: rest =>
    let digits := rest.takeWhile Text.isDigit
    if digits.isEmpty then malformed "invalid number"
    else .ok (some digits, rest.dropWhile Text.isDigit)
  | _ => .ok (none, cs)

/-- The exponent after `e` or `E`, or none without one. -/
def exponentPart (cs : List Char) : Except ReadError (Remaining (Option Int)) :=
  match cs with
  | c :: rest =>
    if c = 'e' || c = 'E' then
      let negative := rest.head? = some '-'
      let rest := if negative || rest.head? = some '+' then rest.drop 1 else rest
      let digits := rest.takeWhile Text.isDigit
      if digits.isEmpty then malformed "invalid number"
      else
        let n : Int := Text.digitsValue digits
        .ok (some (if negative then -n else n), rest.dropWhile Text.isDigit)
    else .ok (none, cs)
  | [] => .ok (none, cs)

/-- A number; `cs` begins after its sign. -/
def number (negative : Bool) (cs : List Char) : Except ReadError (Remaining Document) := do
  let digits := cs.takeWhile Text.isDigit
  let rest := cs.dropWhile Text.isDigit
  if digits.isEmpty || (digits.head? = some '0' && 1 < digits.length) then
    malformed "invalid number"
  else
    let (fraction, rest) ← fractionPart rest
    let (exponent, rest) ← exponentPart rest
    match fraction, exponent with
    | none, none => return (integerValue negative digits, rest)
    | _, _ =>
      return (.float (Decimal.quick negative digits (fraction.getD []) (exponent.getD 0)), rest)

/-- A fixed word. -/
def keyword (word : List Char) (value : Document) (cs : List Char) :
    Except ReadError (Remaining Document) :=
  if word.isPrefixOf cs then .ok (value, cs.drop word.length) else malformed "invalid value"

mutual

/-- A value, blanks before it skipped. -/
def value (fuel : Nat) (cs : List Char) : Except ReadError (Remaining Document) :=
  match fuel with
  | 0 => malformed "too many steps"
  | fuel + 1 =>
    match skipSpaces cs with
    | [] => malformed "value expected"
    | c :: rest =>
      if c = '"' then do
        let (s?, rest) ← stringBody fuel (some []) rest
        return ((s?.map Document.text).getD .unreadable, rest)
      else if c = '[' then
        match skipSpaces rest with
        | ']' :: rest => .ok (.list [], rest)
        | rest => items fuel [] rest
      else if c = '\x7b' then
        match skipSpaces rest with
        | '\x7d' :: rest => .ok (.table [], rest)
        | rest => members fuel (some []) rest
      else if c = '-' then number true rest
      else if Text.isDigit c then number false (c :: rest)
      else if c = 't' then keyword "true".toList (.bool true) (c :: rest)
      else if c = 'f' then keyword "false".toList (.bool false) (c :: rest)
      else if c = 'n' then keyword "null".toList .null (c :: rest)
      else malformed "invalid value"

/-- The items of a list up to its closing bracket. -/
def items (fuel : Nat) (done : List Document) (cs : List Char) :
    Except ReadError (Remaining Document) :=
  match fuel with
  | 0 => malformed "too many steps"
  | fuel + 1 => do
    let (item, rest) ← value fuel cs
    match skipSpaces rest with
    | ',' :: rest => items fuel (item :: done) rest
    | ']' :: rest => return (.list (item :: done).reverse, rest)
    | _ => malformed "list is not closed"

/-- The members of a table up to its closing brace; `done` holds those read, latest first, as long
as their names have values. -/
def members (fuel : Nat) (done : Option (List (String × Document))) (cs : List Char) :
    Except ReadError (Remaining Document) :=
  match fuel with
  | 0 => malformed "too many steps"
  | fuel + 1 =>
    match skipSpaces cs with
    | '"' :: rest => do
      let (name?, rest) ← stringBody fuel (some []) rest
      match skipSpaces rest with
      | ':' :: rest =>
        let (v, rest) ← value fuel rest
        let done := do return (← name?, v) :: (← done)
        match skipSpaces rest with
        | ',' :: rest => members fuel done rest
        | '\x7d' :: rest =>
          return ((done.map fun ms => Document.table ms.reverse).getD .unreadable, rest)
        | _ => malformed "table is not closed"
      | _ => malformed "colon expected"
    | _ => malformed "member name expected"

end

/-- A JSON text as a document, members in the order of the text. -/
def read (text : String) : Except ReadError Document := do
  let cs := text.toList
  let (d, rest) ← value (3 * cs.length + 3) cs
  if (skipSpaces rest).isEmpty then return d else malformed "text after the document"

/-- Lists and tables may be nested this deep in a plain document. -/
def maxDepth : Nat := 127

/-- A JSON text as a plain document: finite numbers, nothing unreadable, bounded nesting, members
sorted by name. -/
def readPlain (text : String) : Except ReadError Document := do
  let d ← read text
  if !d.isPlain then malformed "number out of range or half a surrogate pair"
  else if maxDepth < d.depth then malformed "nested too deeply"
  else return d.sorted

end Json
end ChainMapping
