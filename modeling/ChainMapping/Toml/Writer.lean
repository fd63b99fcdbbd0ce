import ChainMapping.Text.Search

/-!
# Writing TOML

The pieces that a TOML text is written from.  A string takes the plainest quotes that hold it:
double quotes when nothing in it needs an escape, else single ones, else the forms over several
lines, and escapes only as a last resort.
-/

namespace ChainMapping
namespace Toml

/-- Length of the longest run of a character. -/
def longestRun (c : Char) (cs : List Char) : Nat :=
  (cs.foldl (fun (run, longest) d =>
    let run := if d == c then run + 1 else 0
    (run, max longest run)) (0, 0)).2

/-- A control character that only an escape can write. -/
def needsCode (c : Char) : Bool :=
  (c.toNat ≤ 0x1f && c != '\t' && c != '\n') || c.toNat == 0x7f

/-- A number in upper-case hexadecimal with four digits. -/
def upperHexFour (n : Nat) : String :=
  (Text.hexPadded 4 n).map Char.toUpper

/-- The characters of a string between double quotes.  `room` is how many quotes in a row may stand
as they are, and `run` how many just did. -/
def escapeBasic (long : Bool) : (run : Nat) → List Char → String
  | _, [] => ""
  | run, c :: rest =>
    let room := if long then 2 else 0
    if c = '"' then
      if room < run + 1 then "\\\"" ++ escapeBasic long 0 rest
      else "\"" ++ escapeBasic long (run + 1) rest
    else
      let written :=
        match c with
        | '\x08' => "\\b"
        | '\t' => "\\t"
        | '\n' => if long then "\n" else "\\n"
        | '\x0c' => "\\f"
        | '\r' => "\\r"
        | '\\' => "\\\\"
        | c => if needsCode c then "\\u" ++ upperHexFour c.toNat else String.ofList [c]
      written ++ escapeBasic long 0 rest

/-- A string as TOML. -/
def quote (s : String) : String :=
  let cs := s.toList
  let codes := cs.any needsCode
  let backslash := cs.contains '\\'
  let newline := cs.contains '\n'
  let doubles := longestRun '"' cs
  let singles := longestRun '\'' cs
  let start := if newline then "\n" else ""
  let basic := "\"" ++ escapeBasic false 0 cs ++ "\""
  let longBasic := "\"\"\"" ++ start ++ escapeBasic true 0 cs ++ "\"\"\""
  if !codes && !backslash && doubles == 0 && !newline then basic
  else if !codes && singles == 0 && !newline then "'" ++ s ++ "'"
  else if !codes && !backslash && doubles ≤ 2 then longBasic
  else if !codes && singles ≤ 2 then "'''" ++ start ++ s ++ "'''"
  else if newline then longBasic
  else basic

/-- A line that gives a key its string. -/
def textLine (key value : String) : String := key ++ " = " ++ quote value ++ "\n"

/-- A line that gives a key its truth value. -/
def boolLine (key : String) (value : Bool) : String :=
  key ++ " = " ++ (if value then "true" else "false") ++ "\n"

end Toml
end ChainMapping
