import ChainMapping.Document.Basic
import ChainMapping.Decimal.Reading
import ChainMapping.Json.Reader
import ChainMapping.Text.Search
import ChainMapping.Toml.Stamp

/-!
# TOML strings, numbers and words

The values of a TOML text that have no parts.  Numbers, dates, times and words are first cut out as
a run of characters and then classified as a whole.
-/

namespace ChainMapping
namespace Toml

open Json (Remaining malformed hexDigit?)

/-- A character that may stand in a comment or, quotes and backslashes aside, in a string. -/
def isPlainChar (c : Char) : Bool :=
  c == '\t' || (0x20 ≤ c.toNat && c.toNat ≤ 0x7e) || 0x80 ≤ c.toNat

/-- A line end: a line feed, alone or after a carriage return. -/
def newline? : List Char → Option (List Char)
  | '\n' :: rest => some rest
  | '\r' :: '\n' :: rest => some rest
  | _ => none

def isSpace (c : Char) : Bool := c == ' ' || c == '\t'

def skipSpaces (cs : List Char) : List Char := cs.dropWhile isSpace

/-- A number of hexadecimal digits of fixed length. -/
def hexValue? : Nat → Nat → List Char → Option (Remaining Nat)
  | 0, n, cs => some (n, cs)
  | count + 1, n, c :: rest => do
    let d ← hexDigit? c
    hexValue? count (16 * n + d) rest
  | _ + 1, _, [] => none

/-- The character that an escape writes; `cs` begins after the backslash. -/
def escape (cs : List Char) : Except ReadError (Remaining Char) :=
  let scalar (found : Option (Remaining Nat)) : Except ReadError (Remaining Char) :=
    match found with
    | some (n, rest) =>
      if n.isValidChar then .ok (Char.ofNat n, rest) else malformed "invalid escape"
    | none => malformed "invalid escape"
  match cs with
  | 'b' :: rest => .ok ('\x08', rest)
  | 't' :: rest => .ok ('\t', rest)
  | 'n' :: rest => .ok ('\n', rest)
  | 'f' :: rest => .ok ('\x0c', rest)
  | 'r' :: rest => .ok ('\r', rest)
  | '"' :: rest => .ok ('"', rest)
  | '\\' :: rest => .ok ('\\', rest)
  | 'u' :: rest => scalar (hexValue? 4 0 rest)
  | 'U' :: rest => scalar (hexValue? 8 0 rest)
  | _ => malformed "invalid escape"

/-- A basic string up to its closing quote. -/
def basicBody : (fuel : Nat) → (done : List Char) → List Char →
    Except ReadError (Remaining String)
  | 0, _, _ => malformed "string is not closed"
  | _, _, [] => malformed "string is not closed"
  | fuel + 1, done, c :: rest =>
    if c = '"' then .ok (String.ofList done.reverse, rest)
    else if c = '\\' then do
      let (c, rest) ← escape rest
      basicBody fuel (c :: done) rest
    else if isPlainChar c then basicBody fuel (c :: done) rest
    else malformed "control character in string"

/-- A literal string up to its closing quote. -/
def literalBody (done : List Char) : List Char → Except ReadError (Remaining String)
  | [] => malformed "string is not closed"
  | c :: rest =>
    if c = '\'' then .ok (String.ofList done.reverse, rest)
    else if isPlainChar c then literalBody (c :: done) rest
    else malformed "control character in string"

/-- Blanks and line ends after a backslash at the end of a line. -/
def skipBlankLines : List Char → List Char
  | '\n' :: rest => skipBlankLines rest
  | '\r' :: '\n' :: rest => skipBlankLines rest
  | ' ' :: rest => skipBlankLines rest
  | '\t' :: rest => skipBlankLines rest
  | cs => cs

/-- How many of the first characters are `quote`, five at most. -/
def quoteRun (quote : Char) (cs : List Char) : Nat :=
  ((cs.take 5).takeWhile (· == quote)).length

/-- The body of a string over several lines.  Up to two quotes in a row belong to the text, also
directly before the closing three. -/
def longBody (quote : Char) (escapes : Bool) : (fuel : Nat) → (done : List Char) → List Char →
    Except ReadError (Remaining String)
  | 0, _, _ => malformed "string is not closed"
  | _, _, [] => malformed "string is not closed"
  | fuel + 1, done, c :: rest =>
    if c = quote then
      let run := quoteRun quote (c :: rest)
      if 3 ≤ run then
        .ok (String.ofList (List.replicate (run - 3) quote ++ done).reverse, (c :: rest).drop run)
      else longBody quote escapes fuel (c :: done) rest
    else if c = '\\' && escapes then
      match newline? (skipSpaces rest) with
      | some rest => longBody quote escapes fuel done (skipBlankLines rest)
      | none => do
        let (c, rest) ← escape rest
        longBody quote escapes fuel (c :: done) rest
    else if isPlainChar c then longBody quote escapes fuel (c :: done) rest
    else
      match newline? (c :: rest) with
      | some rest => longBody quote escapes fuel ('\n' :: done) rest
      | none => malformed "control character in string"

/-- A line end directly after the opening quotes does not belong to the text. -/
def dropNewline (cs : List Char) : List Char := (newline? cs).getD cs

/-- A string of any kind. -/
def string (fuel : Nat) (cs : List Char) : Except ReadError (Remaining String) :=
  match cs with
  | '"' :: '"' :: '"' :: rest => longBody '"' true fuel [] (dropNewline rest)
  | '\'' :: '\'' :: '\'' :: rest => longBody '\'' false fuel [] (dropNewline rest)
  | '"' :: rest => basicBody fuel [] rest
  | '\'' :: rest => literalBody [] rest
  | _ => malformed "string expected"

/-- A character of a number, a date, a time or a word. -/
def isRunChar (c : Char) : Bool :=
  Text.isDigit c || Text.isLetter c || c == '_' || c == '+' || c == '-' || c == '.' || c == ':'

/-- Digits of a base with single underscores between them. -/
def groupedDigits? (isDigit : Char → Bool) (cs : List Char) : Option (List Char) :=
  let groups := Text.splitAll '_' cs
  if groups.all fun g => !g.isEmpty && g.all isDigit then some groups.flatten else none

/-- A sign and what follows it. -/
def signed (cs : List Char) : Bool × List Char :=
  match cs with
  | '-' :: rest => (true, rest)
  | '+' :: rest => (false, rest)
  | _ => (false, cs)

/-- Decimal digits without a superfluous leading zero. -/
def wholeDigits? (cs : List Char) : Option (List Char) :=
  match groupedDigits? Text.isDigit cs with
  | some digits => if cs.head? = some '0' && 1 < cs.length then none else some digits
  | none => none

def baseValue (base : Nat) (digits : List Char) : Nat :=
  digits.foldl (fun n c => base * n + (hexDigit? c).getD 0) 0

/-- An integer in 64 bits. -/
def integer? (cs : List Char) : Option Document :=
  let based (base : Nat) (isDigit : Char → Bool) (digits : List Char) : Option Document := do
    let digits ← groupedDigits? isDigit digits
    let n := baseValue base digits
    if n < Word.half then return .int n else none
  match cs with
  | '0' :: 'x' :: digits => based 16 (fun c => (hexDigit? c).isSome) digits
  | '0' :: 'o' :: digits => based 8 (fun c => '0' ≤ c && c ≤ '7') digits
  | '0' :: 'b' :: digits => based 2 (fun c => c == '0' || c == '1') digits
  | _ =>
    let (negative, rest) := signed cs
    match wholeDigits? rest with
    | none => none
    | some digits =>
      let n := Text.digitsValue digits
      if negative then if n ≤ Word.half then some (.int (-(n : Int))) else none
      else if n < Word.half then some (.int n)
      else none

/-- The exponent after `e`, with a sign and leading zeros allowed. -/
def exponentDigits? (cs : List Char) : Option Int := do
  let (negative, rest) := signed cs
  let digits ← groupedDigits? Text.isDigit rest
  let n : Int := Text.digitsValue digits
  return if negative then -n else n

/-- A float: a whole part with a fraction, an exponent or both; or a special word. -/
def float? (cs : List Char) : Option Document := do
  let (negative, rest) := signed cs
  if rest = "inf".toList then
    let x : Float := 1.0 / 0.0
    return .float (if negative then -x else x)
  if rest = "nan".toList then return .float (0.0 / 0.0)
  let isMark (c : Char) : Bool := c == 'e' || c == 'E'
  let mantissa := rest.takeWhile fun c => !isMark c
  let tail := rest.dropWhile fun c => !isMark c
  let exponent ← match tail with
    | [] => some (none : Option Int)
    | _ :: digits => (exponentDigits? digits).map some
  let (whole, fraction) ← match Text.splitOnce '.' mantissa with
    | some (whole, fraction) =>
      (groupedDigits? Text.isDigit fraction).map fun f => (whole, some f)
    | none => some (mantissa, none)
  let digits ← wholeDigits? whole
  if fraction.isNone && exponent.isNone then none
  else
    let fraction := fraction.getD []
    let x := Decimal.toFloat negative (Text.digitsValue (digits ++ fraction))
      (exponent.getD 0 - (fraction.length : Int))
    if x.isInf && !negative then none else return .float x

/-- The run of characters that a number, a date or a time takes; a date may be followed by a blank
and a time. -/
def scalarRun (cs : List Char) : List Char × List Char :=
  let run := cs.takeWhile isRunChar
  let rest := cs.dropWhile isRunChar
  match Date.read? run, rest with
  | some (_, []), ' ' :: more =>
    if (more.head?.map Text.isDigit).getD false then
      (run ++ ' ' :: more.takeWhile isRunChar, more.dropWhile isRunChar)
    else (run, rest)
  | _, _ => (run, rest)

/-- A value that is neither a string nor built from parts. -/
def scalar (cs : List Char) : Except ReadError (Remaining Document) :=
  let (run, rest) := scalarRun cs
  if run = "true".toList then .ok (.bool true, rest)
  else if run = "false".toList then .ok (.bool false, rest)
  else
    let moment? := (Stamp.parse? run).map fun stamp => Document.moment stamp.render
    match (moment?.orElse fun _ => float? run).orElse fun _ => integer? run with
    | some d => .ok (d, rest)
    | none => malformed "invalid value"

end Toml
end ChainMapping
