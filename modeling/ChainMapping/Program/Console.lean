import ChainMapping.Elapsed
import ChainMapping.Files.Tree
import ChainMapping.Json.Writer
import ChainMapping.Log.Journal
import ChainMapping.Moment

/-!
# Console programs

A program writes lines to its two outputs, its own and those of its log.  Where a logged event goes
depends on the settings: as a JSON object or as a plain line, or, if neither is asked for, errors
only.  What a program needs from outside is handed to it, so a run is a function.
-/

namespace ChainMapping

/-- What a program finds when it starts. -/
structure Surroundings where
  environment : Settings.Environment
  files : Files
  now : Moment
  /-- how long the run is said to take -/
  elapsed : Elapsed := {}
  /-- the id for an execution -/
  executionId : String
  /-- how many threads the machine runs at once -/
  cores : Nat

/-- What a program leaves behind. -/
structure Output where
  exit : Nat
  stdout : String
  stderr : String
  deriving DecidableEq, Repr

/-- A program at work. -/
structure Console where
  journal : Journal
  now : Moment
  /-- the lines of standard output, latest first -/
  out : List String := []
  /-- the lines of standard error, latest first -/
  err : List String := []

/-- The lines of a logged event on both outputs. -/
structure EventLines where
  out : List String := []
  err : List String := []

/-- Where an event goes. -/
def LoggingSettings.lines (s : LoggingSettings) (now : Moment) (e : Event) : EventLines :=
  if s.useStructured then { err := [Json.render (e.document (some now.renderMillis))] }
  else if s.enableConsole then
    if e.isError || e.isWarning then { err := [e.format] } else { out := [e.format] }
  else if e.isError then
    let quoted := match e.underline? with
      | some text => (Text.lines text).map ("    " ++ ·)
      | none => []
    { err := e.format :: quoted }
  else {}

namespace Console

def say (c : Console) (line : String) : Console := { c with out := line :: c.out }

def complain (c : Console) (line : String) : Console := { c with err := line :: c.err }

/-- Logs an action and writes what the log writes for it. -/
def act (c : Console) (action : LogAction) : Console :=
  let after := { c with journal := c.journal.act action }
  match action with
  | .announce line => after.say line
  | .record e =>
    match c.journal.passedOn? e with
    | some e =>
      let lines := c.journal.settings.lines c.now e
      lines.err.foldl complain (lines.out.foldl say after)
    | none => after
  | .enter .. => after
  | .leave => after

/-- Lines, latest first, as the text they make. -/
def textOf (lines : List String) : String :=
  String.join (lines.reverse.map (· ++ "\n"))

end Console

/-- A step of a program. -/
abbrev Session := StateM Console

namespace Session

def say (line : String) : Session Unit := modify (·.say line)

def complain (line : String) : Session Unit := modify (·.complain line)

def log (actions : List LogAction) : Session Unit := modify fun c => actions.foldl Console.act c

/-- The diagnostics of all scripts, unless the settings turn them off. -/
def sayDiagnostics : Session Unit := modify fun c =>
  if c.journal.settings.showDiagnostics then c.say c.journal.collector.render else c

/-- Runs a program, which answers its exit code. -/
def run (s : Surroundings) (settings : LoggingSettings) (program : Session Nat) : Output :=
  let ready := Event.success .systemInitializationCompleted "Logging ready"
  let start : Console := { journal := { settings }, now := s.now }
  let (exit, console) := StateT.run program (start.act (.record ready))
  ⟨exit, Console.textOf console.out, Console.textOf console.err⟩

end Session
end ChainMapping
