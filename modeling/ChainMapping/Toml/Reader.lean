import ChainMapping.Toml.Section
import ChainMapping.Toml.Scalar

/-!
# Reading TOML

A TOML text as a document.  A text is a sequence of lines, each blank, a comment, a header or a key
with its value; the lines after a header fill the table it opens.  Tables keep the order in which
the text first fills them, except that a table whose header comes after the headers of its parts
moves to where its own header stands.

Keys and values are of bounded depth: one key leads through less than `nestingLimit` tables, and in
one value less than `nestingLimit` lists and inline tables are open at a time.
-/

namespace ChainMapping
namespace Toml

open Json (Remaining malformed)

def nestingLimit : Nat := 80

/-- A comment, if one stands here, up to the end of the line. -/
def skipComment (cs : List Char) : List Char :=
  match cs with
  | '#' :: rest => rest.dropWhile isPlainChar
  | _ => cs

/-- Blanks, comments and line ends inside a list. -/
def skipFiller : (fuel : Nat) → List Char → List Char
  | 0, cs => cs
  | fuel + 1, cs =>
    let cs := skipSpaces cs
    match newline? (skipComment cs) with
    | some rest => skipFiller fuel rest
    | none => cs

def isBareKeyChar (c : Char) : Bool :=
  Text.isDigit c || Text.isLetter c || c == '_' || c == '-'

/-- One part of a key. -/
def simpleKey (fuel : Nat) (cs : List Char) : Except ReadError (Remaining String) :=
  match cs with
  | '"' :: rest => basicBody fuel [] rest
  | '\'' :: rest => literalBody [] rest
  | _ =>
    let key := cs.takeWhile isBareKeyChar
    if key.isEmpty then malformed "key expected"
    else .ok (String.ofList key, cs.dropWhile isBareKeyChar)

/-- The parts of a key, joined by dots with blanks allowed around them; latest part first in
`done`. -/
def keyParts : (fuel : Nat) → (done : List String) → List Char →
    Except ReadError (Remaining (List String))
  | 0, _, _ => malformed "too many steps"
  | fuel + 1, done, cs => do
    let (part, rest) ← simpleKey fuel (skipSpaces cs)
    match skipSpaces rest with
    | '.' :: rest => keyParts fuel (part :: done) rest
    | rest => return ((part :: done).reverse, rest)

/-- A key. -/
def key (fuel : Nat) (cs : List Char) : Except ReadError (Remaining (List String)) := do
  let (path, rest) ← keyParts fuel [] cs
  if path.length < nestingLimit then return (path, rest) else malformed "key is too long"

mutual

/-- A value of any kind inside `depth` lists and inline tables. -/
def value (fuel depth : Nat) (cs : List Char) : Except ReadError (Remaining Document) :=
  match fuel with
  | 0 => malformed "too many steps"
  | fuel + 1 =>
    match cs with
    | '[' :: rest =>
      if depth + 1 < nestingLimit then items fuel (depth + 1) [] rest
      else malformed "nested too deeply"
    | '\x7b' :: rest =>
      if depth + 1 < nestingLimit then
        match skipSpaces rest with
        | '\x7d' :: rest => .ok (.table [], rest)
        | rest => pairs fuel (depth + 1) .empty rest
      else malformed "nested too deeply"
    | c :: _ =>
      if c = '"' || c = '\'' then do
        let (s, rest) ← string fuel cs
        return (.text s, rest)
      else scalar cs
    | [] => malformed "value expected"

/-- The items of a list up to its closing bracket; a comma may follow the last one. -/
def items (fuel depth : Nat) (done : List Document) (cs : List Char) :
    Except ReadError (Remaining Document) :=
  match fuel with
  | 0 => malformed "too many steps"
  | fuel + 1 =>
    match skipFiller fuel cs with
    | ']' :: rest => .ok (.list done.reverse, rest)
    | cs => do
      let (item, rest) ← value fuel depth cs
      match skipFiller fuel rest with
      | ',' :: rest => items fuel depth (item :: done) rest
      | ']' :: rest => return (.list (item :: done).reverse, rest)
      | _ => malformed "list is not closed"

/-- The members of an inline table up to its closing brace. -/
def pairs (fuel depth : Nat) (done : Section) (cs : List Char) :
    Except ReadError (Remaining Document) :=
  match fuel with
  | 0 => malformed "too many steps"
  | fuel + 1 => do
    let (path, rest) ← key fuel cs
    match rest with
    | '=' :: rest =>
      let (v, rest) ← value fuel depth (skipSpaces rest)
      let done ← done.insertValue path.dropLast (path.getLastD "") v
      match skipSpaces rest with
      | ',' :: rest => pairs fuel depth done rest
      | '\x7d' :: rest => return (.table (documentMembers done.members), rest)
      | _ => malformed "table is not closed"
    | _ => malformed "equals sign expected"

end

/-- The table that the lines being read fill. -/
structure Current where
  path : List String
  repeated : Bool
  filling : Section

/-- A text read up to some line. -/
structure State where
  root : Section
  current : Current

def State.start : State := ⟨.empty, ⟨[], false, .empty⟩⟩

/-- The whole table, with the one being filled put into its place. -/
def State.close (s : State) : Except ReadError Section :=
  let parent := s.current.path.dropLast
  let members := s.current.filling.members
  match s.current.path.getLast? with
  | none => .ok s.current.filling
  | some key =>
    if s.current.repeated then s.root.closeTables parent key members
    else s.root.closeTable parent key members

/-- Begins the table of a header. -/
def State.openHeader (s : State) (path : List String) (repeated : Bool) :
    Except ReadError State := do
  let root ← s.close
  let parent := path.dropLast
  let key := path.getLastD ""
  if repeated then
    let root ← root.openTables parent key
    return ⟨root, ⟨path, true, .empty⟩⟩
  else
    let (root, members) ← root.openTable parent key
    return ⟨root, ⟨path, false, ⟨true, false, members⟩⟩⟩

/-- The rest of a line after what it says: blanks, a comment, and its end. -/
def lineEnd (cs : List Char) : Except ReadError (List Char) :=
  let rest := skipComment (skipSpaces cs)
  match newline? rest with
  | some rest => .ok rest
  | none => if rest.isEmpty then .ok [] else malformed "line end expected"

/-- A header or a key with its value, at the start of a line. -/
def line (fuel : Nat) (s : State) (cs : List Char) : Except ReadError (Remaining State) :=
  match cs with
  | '[' :: '[' :: rest => do
    let (path, rest) ← key fuel rest
    match rest with
    | ']' :: ']' :: rest => return (← s.openHeader path true, rest)
    | _ => malformed "header is not closed"
  | '[' :: rest => do
    let (path, rest) ← key fuel rest
    match rest with
    | ']' :: rest => return (← s.openHeader path false, rest)
    | _ => malformed "header is not closed"
  | _ => do
    let (path, rest) ← key fuel cs
    match rest with
    | '=' :: rest =>
      let (v, rest) ← value fuel 0 (skipSpaces rest)
      let filling ← s.current.filling.insertValue path.dropLast (path.getLastD "") v
      return ({ s with current := { s.current with filling } }, rest)
    | _ => malformed "equals sign expected"

/-- The lines of a text. -/
def lines : (fuel : Nat) → State → List Char → Except ReadError State
  | 0, _, _ => malformed "too many steps"
  | fuel + 1, s, cs =>
    match skipSpaces cs with
    | [] => .ok s
    | '#' :: rest =>
      match lineEnd ('#' :: rest) with
      | .ok rest => lines fuel s rest
      | .error e => .error e
    | '\n' :: rest => lines fuel s rest
    | '\r' :: '\n' :: rest => lines fuel s rest
    | cs =>
      match line fuel s cs with
      | .error e => .error e
      | .ok (s, rest) =>
        match lineEnd rest with
        | .ok rest => lines fuel s rest
        | .error e => .error e

/-- A TOML text as a document. -/
def read (text : String) : Except ReadError Document := do
  let cs := text.toList
  let cs := if cs.head? = some '\ufeff' then cs.drop 1 else cs
  let s ← lines (3 * cs.length + 3) .start cs
  let root ← s.close
  return .table (documentMembers root.members)

end Toml
end ChainMapping
