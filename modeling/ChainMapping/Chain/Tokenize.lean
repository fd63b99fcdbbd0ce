import ChainMapping.Chain.Basic
import ChainMapping.Chain.Error
import ChainMapping.Text.Blank
import ChainMapping.Word

/-!
# Reading chains

A chain is one to sixty-four segments joined by `.`, each of the form

    name ['(' hint ')'] ['[' body ']'] ['<K>' | '<V>']

Reading goes in two passes.  The first one checks that the brackets nest and cuts the text at the
separators that stand outside of every bracket.  The second one reads a segment from left to right,
character by character, collecting its parts.  Both are plain recursions on the characters, with
the byte offset carried along for the places in error messages.
-/

namespace ChainMapping
namespace Chain

/-- A piece of a chain between two separators, with the offset of its first byte. -/
structure Segment where
  start : Nat
  text : List Char
  deriving DecidableEq, Repr

def Segment.span (s : Segment) : Span := ⟨s.start, s.start + Text.byteLength s.text⟩

def isOpening (c : Char) : Bool := c == '[' || c == '<' || c == '('

def isClosing (c : Char) : Bool := c == ']' || c == '>' || c == ')'

/-- The bracket that closes what another one opened. -/
def closingOf (c : Char) : Char :=
  if c = '[' then ']' else if c = '<' then '>' else ')'

/-- Cuts a chain at the separators outside of brackets.

`opened` holds the brackets that are open, innermost first, and `current` the characters since
offset `start`, latest first. -/
def splitFrom (chain : String) (offset : Nat) (opened : List (Char × Nat)) (start : Nat)
    (current : List Char) : List Char → Except SyntaxError (List Segment)
  | [] =>
    match opened.getLast? with
    | some (bracket, place) => .error (.unbalancedBracket chain bracket place)
    | none =>
      if current.isEmpty then .error (.emptySegment chain start)
      else .ok [⟨start, current.reverse⟩]
  | c :: rest =>
    let next := offset + c.utf8Size
    if isOpening c then
      splitFrom chain next ((c, offset) :: opened) start (c :: current) rest
    else if isClosing c then
      match opened with
      | [] => .error (.unbalancedBracket chain c offset)
      | (bracket, _) :: outer =>
        if closingOf bracket = c then splitFrom chain next outer start (c :: current) rest
        else .error (.unbalancedBracket chain c offset)
    else if c = '.' && opened.isEmpty then
      if current.isEmpty then .error (.emptySegment chain offset)
      else do
        let segments ← splitFrom chain next [] next [] rest
        return ⟨start, current.reverse⟩ :: segments
    else splitFrom chain next opened start (c :: current) rest

/-- The segments of a chain. -/
def splitSegments (chain : String) : Except SyntaxError (List Segment) :=
  splitFrom chain 0 [] 0 [] chain.toList

/-- A character of a field name. -/
def isNameChar (c : Char) : Bool := Text.isLetter c || Text.isDigit c || c == '_'

/-- The bracketed parts of a segment found so far. -/
structure Parts where
  hint : Option String := none
  bracket : Option (List Char × Span) := none
  marker : Option (MapSide × Span) := none
  deriving DecidableEq, Repr

/-- Takes in one part: `body` stood between the bracket `opener` and its closing one. -/
def Parts.add (parts : Parts) (chain : String) (segment : Segment) (opener : Char)
    (body : List Char) (span : Span) : Except SyntaxError Parts :=
  let text := String.ofList (opener :: body ++ [closingOf opener])
  if opener = '(' then
    if parts.hint.isSome || parts.bracket.isSome || parts.marker.isSome then
      .error (.misplacedMarker chain text .hintNotFirst span)
    else
      let hint := Text.trim body
      if hint.isEmpty then .error (.invalidIdentifier chain (String.ofList segment.text) span)
      else .ok { parts with hint := some (String.ofList hint) }
  else if opener = '[' then
    if parts.bracket.isSome then .error (.misplacedMarker chain text .secondBracket span)
    else if parts.marker.isSome then .error (.misplacedMarker chain text .bracketAfterMarker span)
    else .ok { parts with bracket := some (body, span) }
  else
    match MapSide.ofMarker? text with
    | none => .error (.misplacedMarker chain text .unknownMarker span)
    | some side =>
      if parts.marker.isSome then .error (.misplacedMarker chain text .secondMarker span)
      else .ok { parts with marker := some (side, span) }

/-- A bracket being read: what opened it, where, and its characters, latest first. -/
structure Pending where
  opener : Char
  start : Nat
  body : List Char
  deriving DecidableEq, Repr

/-- Reads the parts of a segment after its name.  A part ends at the first bracket that closes its
kind, whatever stands before it. -/
def scanParts (chain : String) (segment : Segment) (offset : Nat) (pending : Option Pending)
    (parts : Parts) : List Char → Except SyntaxError Parts
  | [] =>
    match pending with
    | some p => .error (.unbalancedBracket chain p.opener p.start)
    | none => .ok parts
  | c :: rest =>
    let next := offset + c.utf8Size
    match pending with
    | some p =>
      if c = closingOf p.opener then do
        let parts ← parts.add chain segment p.opener p.body.reverse ⟨p.start, next⟩
        scanParts chain segment next none parts rest
      else scanParts chain segment next (some { p with body := c :: p.body }) parts rest
    | none =>
      if isOpening c then
        scanParts chain segment next (some ⟨c, offset, []⟩) parts rest
      else if c = '^' then
        .error (.misplacedMarker chain "^" .anchorOutsideBracket (Span.byte offset))
      else .error (.invalidIdentifier chain (String.ofList segment.text) segment.span)

/-- An element index as written, forgotten when it does not fit 64 bits. -/
def literalIndex (digits : List Char) : Option Nat :=
  let n := Text.digitsValue digits
  if n ≤ Word.max then some n else none

/-- What the inside of a square bracket, free of blanks at its ends, asks for. -/
def shapeOfBody (chain : String) (body : List Char) (span : Span) (side : Option MapSide) :
    Except SyntaxError Shape :=
  let shown := String.ofList ('[' :: body ++ [']'])
  match Text.splitOnce ',' body with
  | some (left, right) =>
    if Text.isAllBlank left || Text.isAllBlank right || right.contains ',' then
      .error (.misplacedMarker chain shown .notTwoParts span)
    else
      match [left, right].find? (·.contains '^') with
      | none => .ok (.map side none)
      | some part =>
        let trimmed := String.ofList (Text.trim part)
        match Anchor.ofBody? trimmed with
        | some anchor => .ok (.map side (some anchor))
        | none => .error (.misplacedMarker chain trimmed .badMapAnchor span)
  | none =>
    if body = ['*'] then .ok (.collection none none)
    else if !body.isEmpty && body.all Text.isDigit then .ok (.collection (literalIndex body) none)
    else
      match Anchor.ofBody? (String.ofList body) with
      | some anchor => .ok (.collection none (some anchor))
      | none =>
        let fault := if body.contains '^' then MarkerFault.badCollectionAnchor else .badBody
        .error (.misplacedMarker chain shown fault span)

/-- The shape that the parts of a segment describe together. -/
def Parts.shape (parts : Parts) (chain : String) : Except SyntaxError Shape := do
  let side := parts.marker.map Prod.fst
  let shape ←
    match parts.bracket with
    | some (body, span) => shapeOfBody chain (Text.trim body) span side
    | none => .ok (if side.isSome then .map side none else .plain)
  match parts.marker with
  | some (side, span) =>
    if shape.isCollection then
      .error (.misplacedMarker chain side.marker .markerOnCollection span)
    else .ok shape
  | none => .ok shape

/-- The complaint about a segment that does not begin with a name. -/
def namelessError (chain : String) (segment : Segment) : SyntaxError :=
  let first := segment.text.headD ' '
  if first = '^' then
    .misplacedMarker chain "^" .anchorOutsideBracket (Span.byte segment.start)
  else if isOpening first then
    .misplacedMarker chain (String.ofList [first]) .noFieldName (Span.byte segment.start)
  else .invalidIdentifier chain (String.ofList segment.text) segment.span

/-- Reads one segment. -/
def parseSegment (chain : String) (index : Nat) (segment : Segment) : Except SyntaxError Token := do
  let name := segment.text.takeWhile isNameChar
  let rest := segment.text.dropWhile isNameChar
  if name.isEmpty then
    throw (namelessError chain segment)
  if (name.headD ' ').isDigit || Limits.identifierLength < name.length then
    throw (.invalidIdentifier chain (String.ofList segment.text) segment.span)
  let parts ← scanParts chain segment (segment.start + name.length) none {} rest
  let shape ← parts.shape chain
  return {
    raw := String.ofList segment.text
    name := String.ofList name
    index := index
    span := segment.span
    shape := shape
    hint := parts.hint }

/-- Reads the segments in order, numbering them from `index`. -/
def parseSegments (chain : String) (index : Nat) :
    List Segment → Except SyntaxError (List Token)
  | [] => .ok []
  | segment :: rest => do
    let token ← parseSegment chain index segment
    let tokens ← parseSegments chain (index + 1) rest
    return token :: tokens

/-- Reads a text as a chain. -/
def parse (text : String) : Except SyntaxError Chain := do
  if Limits.chainLength < text.utf8ByteSize then
    throw (.chainTooLong text.utf8ByteSize)
  if Text.isAllBlank text.toList then
    throw (.emptySegment text 0)
  let segments ← splitSegments text
  if Limits.tokensPerChain < segments.length then
    throw (.tooManyTokens text segments.length)
  let tokens ← parseSegments text 0 segments
  return ⟨text, tokens⟩

end Chain
end ChainMapping
