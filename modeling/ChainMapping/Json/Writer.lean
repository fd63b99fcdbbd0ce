import ChainMapping.Document.Basic
import ChainMapping.Decimal.Shortest
import ChainMapping.Text.Search
import ChainMapping.Word

/-!
# Writing JSON

A document as JSON text, on one line or indented by two spaces.  Members come in the order they
have.  A float is written with the shortest digits that read back, positionally between `1e-5` and
`1e16` and always recognisable as a float; an exponent has its sign.
-/

namespace ChainMapping
namespace Json

/-- A character inside a JSON string. -/
def escapeChar (c : Char) : String :=
  match c with
  | '"' => "\\\""
  | '\\' => "\\\\"
  | '\n' => "\\n"
  | '\r' => "\\r"
  | '\t' => "\\t"
  | '\x08' => "\\b"
  | '\x0c' => "\\f"
  | c => if c.toNat < 0x20 then "\\u" ++ Text.hexPadded 4 c.toNat else String.ofList [c]

/-- A string as JSON, quotes included. -/
def quote (s : String) : String :=
  s.toList.foldl (fun out c => out ++ escapeChar c) "\"" ++ "\""

/-- A positive float from its digits `c` and exponent `s`. -/
def digitsText (c : Nat) (s : Int) : String :=
  let digits := Nat.toDigits 10 c
  let count : Int := digits.length
  let point := count + s
  if 0 ≤ s && point ≤ 16 then
    String.ofList (digits ++ List.replicate s.toNat '0') ++ ".0"
  else if 0 < point && point ≤ 16 then
    String.ofList (digits.take point.toNat) ++ "." ++ String.ofList (digits.drop point.toNat)
  else if -5 < point && point ≤ 0 then
    "0." ++ String.ofList (List.replicate (-point).toNat '0' ++ digits)
  else
    let tail := digits.drop 1
    let exponent := point - 1
    let fraction := if tail.isEmpty then "" else "." ++ String.ofList tail
    let sign := if exponent < 0 then "-" else "+"
    String.ofList (digits.take 1) ++ fraction ++ "e" ++ sign ++ toString exponent.natAbs

/-- A float as JSON; there is no JSON for what is not finite. -/
def floatText (x : Float) : String :=
  if !x.isFinite then "null"
  else
    let negative := x.toBits.toNat / Word.half == 1
    let sign := if negative then "-" else ""
    if x == 0.0 then sign ++ "0.0"
    else
      let (c, s) := Decimal.shortest x.abs
      sign ++ digitsText c s

/-- A document without parts. -/
def atom : Document → String
  | .null => "null"
  | .bool b => if b then "true" else "false"
  | .int n => toString n
  | .float x => floatText x
  | .text s => quote s
  | .moment s => quote s
  | _ => ""

mutual

/-- Appends a document on one line. -/
def write (out : String) : Document → String
  | .list items => writeItems (out ++ "[") true items ++ "]"
  | .table members => writeMembers (out ++ "\x7b") true members ++ "\x7d"
  | d => out ++ atom d

def writeItems (out : String) (first : Bool) : List Document → String
  | [] => out
  | item :: rest =>
    writeItems (write (if first then out else out ++ ",") item) false rest

def writeMembers (out : String) (first : Bool) : List (String × Document) → String
  | [] => out
  | (name, value) :: rest =>
    let out := if first then out else out ++ ","
    writeMembers (write (out ++ quote name ++ ":") value) false rest

end

/-- A document on one line. -/
def render (d : Document) : String := write "" d

def indentation (level : Nat) : String := String.ofList (List.replicate (2 * level) ' ')

mutual

/-- Appends a document with one item or member a line; empty lists and tables stay closed. -/
def writePretty (out : String) (level : Nat) : Document → String
  | .list [] => out ++ "[]"
  | .table [] => out ++ "\x7b\x7d"
  | .list items =>
    writePrettyItems (out ++ "[") (level + 1) true items ++ "\n" ++ indentation level ++ "]"
  | .table members =>
    writePrettyMembers (out ++ "\x7b") (level + 1) true members ++ "\n" ++ indentation level
      ++ "\x7d"
  | d => out ++ atom d

def writePrettyItems (out : String) (level : Nat) (first : Bool) : List Document → String
  | [] => out
  | item :: rest =>
    let out := (if first then out else out ++ ",") ++ "\n" ++ indentation level
    writePrettyItems (writePretty out level item) level false rest

def writePrettyMembers (out : String) (level : Nat) (first : Bool) :
    List (String × Document) → String
  | [] => out
  | (name, value) :: rest =>
    let out := (if first then out else out ++ ",") ++ "\n" ++ indentation level
    writePrettyMembers (writePretty (out ++ quote name ++ ": ") level value) level false rest

end

/-- A document over several lines. -/
def renderPretty (d : Document) : String := writePretty "" 0 d

end Json
end ChainMapping
