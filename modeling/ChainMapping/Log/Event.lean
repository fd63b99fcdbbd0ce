import ChainMapping.Code
import ChainMapping.Document.Basic
import ChainMapping.Limits
import ChainMapping.Log.Level
import ChainMapping.Span
import ChainMapping.Text.Search

/-!
# Log events

An event has a level, a code and a message.  It may be about a chain and a place in it, which a
report then underlines, and it carries further facts as pairs sorted by their keys.
-/

namespace ChainMapping

structure Event where
  level : Level
  code : Code
  message : String
  chain : Option String := none
  span : Option Span := none
  context : List (String × String) := []
  deriving DecidableEq, Repr

namespace Event

def error (code : Code) (message : String) : Event := { level := .error, code, message }

def warning (message : String) : Event := { level := .warning, code := ⟨"W000"⟩, message }

def info (message : String) : Event := { level := .info, code := ⟨"I000"⟩, message }

def success (code : Code) (message : String) : Event := { level := .info, code, message }

def debug (message : String) : Event := { level := .debug, code := ⟨"D000"⟩, message }

def withChain (e : Event) (chain : String) : Event := { e with chain := some chain }

def withSpan (e : Event) (span : Option Span) : Event :=
  match span with
  | some span => { e with span := some span }
  | none => e

/-- Adds a fact.  The key `chain` says which chain the event is about. -/
def withPair (e : Event) (key value : String) : Event :=
  if key = "chain" then e.withChain value
  else { e with context := Document.insertMember key value e.context }

def withPairs (e : Event) (pairs : List (String × String)) : Event :=
  pairs.foldl (fun e (key, value) => e.withPair key value) e

def isError (e : Event) : Bool := e.level == .error

def isWarning (e : Event) : Bool := e.level == .warning

def category (e : Event) : String := e.code.category

/-- The part of the chain that the event is about. -/
def segment? (e : Event) : Option String := do
  let chain ← e.chain
  let span ← e.span
  (Text.sliceBytes span.start (min span.stop chain.utf8ByteSize) chain.toList).map String.ofList

/-- The chain, with a line below it that marks the span.  A span beyond the end marks the end. -/
def underline? (e : Event) : Option String :=
  e.chain.map fun chain =>
    let size := chain.utf8ByteSize
    match e.span with
    | none => chain
    | some span =>
      if span.start < size then
        let width := min (max span.length 1) (size - span.start)
        chain ++ "\n" ++ Text.repeated span.start " " ++ Text.repeated width "^"
      else chain ++ "\n" ++ Text.repeated size " " ++ "^"

/-- The event on one line. -/
def format (e : Event) : String :=
  let head := s!"[{e.level.name}] {e.code.text} - {e.message}"
  let chain := match e.chain with
    | some chain => s!" in `{chain}`"
    | none => ""
  let place := match e.span with
    | some span => s!" at {span.display}"
    | none => ""
  head ++ chain ++ place

/-- The event as a document with sorted members, stamped with a time if there is one. -/
def document (e : Event) (time : Option String) : Document :=
  let always : List (String × Document) :=
    [("level", .text e.level.name), ("code", .text e.code.text),
     ("category", .text e.category), ("message", .text e.message)]
  let stamp := (time.map fun t => ("timestamp", Document.text t)).toList
  let advice :=
    if e.isError then
      [("recoverable", Document.bool e.code.isRecoverable), ("help", .text e.code.help)]
    else []
  let chain := (e.chain.map fun c => ("chain", Document.text c)).toList
  let span := (e.span.map fun s =>
    ("span", Document.list [.ofNat s.start, .ofNat s.stop])).toList
  let context :=
    if e.context.isEmpty then []
    else [("context", Document.table (e.context.map fun (k, v) => (k, .text v)))]
  .table (Document.sortMembers (always ++ stamp ++ advice ++ chain ++ span ++ context))

/-- A message cut to the length that is kept, on a character boundary. -/
def clampMessage (message : String) : String :=
  if message.utf8ByteSize ≤ Limits.logMessageLength then message
  else String.ofList (Text.takeBytes Limits.logMessageLength message.toList)

end Event
end ChainMapping
