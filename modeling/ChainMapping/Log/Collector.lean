import ChainMapping.Files.Path
import ChainMapping.Log.Event

/-!
# Diagnostics by script

While scripts are compiled, every warning and error is filed under the script it concerns, up to a
fixed number of events per script.  When a batch is done the diagnostics are rendered script by
script in the order of the paths, so the text does not depend on which script was compiled first.
-/

namespace ChainMapping

/-- The events of one script. -/
structure ScriptLog where
  /-- the events kept, latest first -/
  latest : List Event := []
  kept : Nat := 0
  dropped : Nat := 0
  deriving DecidableEq, Repr

namespace ScriptLog

def events (l : ScriptLog) : List Event := l.latest.reverse

def errors (l : ScriptLog) : Nat := l.latest.countP Event.isError

def warnings (l : ScriptLog) : Nat := l.latest.countP Event.isWarning

/-- Files an event, or counts it as dropped when there is no room. -/
def record (l : ScriptLog) (e : Event) : ScriptLog :=
  if l.kept < Limits.logEventsPerFile then
    { l with latest := e :: l.latest, kept := l.kept + 1 }
  else { l with dropped := l.dropped + 1 }

end ScriptLog

/-- Totals over all scripts. -/
structure Totals where
  scripts : Nat := 0
  failedScripts : Nat := 0
  errors : Nat := 0
  warnings : Nat := 0
  dropped : Nat := 0
  deriving DecidableEq, Repr

def Totals.hasErrors (t : Totals) : Bool := 0 < t.errors

/-- The diagnostics of all scripts, sorted by path. -/
structure Collector where
  scripts : List (Path × ScriptLog) := []
  deriving DecidableEq, Repr

namespace Collector

/-- Changes the log of a script, beginning with an empty one. -/
def update (file : Path) (f : ScriptLog → ScriptLog) :
    List (Path × ScriptLog) → List (Path × ScriptLog)
  | [] => [(file, f {})]
  | (other, log) :: rest =>
    match file.compare other with
    | .eq => (other, f log) :: rest
    | .lt => (file, f {}) :: (other, log) :: rest
    | .gt => (other, log) :: update file f rest

/-- Counts a script even if nothing is ever filed under it. -/
def recordFile (c : Collector) (file : Path) : Collector :=
  ⟨update file id c.scripts⟩

def recordEvent (c : Collector) (file : Path) (e : Event) : Collector :=
  ⟨update file (·.record e) c.scripts⟩

def eventsOf (c : Collector) (file : Path) : List Event :=
  match c.scripts.find? fun (other, _) => file.compare other == .eq with
  | some (_, log) => log.events
  | none => []

def totals (c : Collector) : Totals :=
  c.scripts.foldl (fun t (_, log) =>
    { scripts := t.scripts + 1
      failedScripts := t.failedScripts + (if 0 < log.errors then 1 else 0)
      errors := t.errors + log.errors
      warnings := t.warnings + log.warnings
      dropped := t.dropped + log.dropped }) {}

/-- One event as a compiler reports it. -/
def renderEvent (file : Path) (e : Event) : String :=
  let head := s!"{e.level.label}[{e.code.text}]: {e.message}\n"
  let column := match e.span with
    | some span => s!":{span.column}"
    | none => ""
  let place := s!"  --> {file.text}{column}\n"
  let quoted := match e.underline? with
    | some text => "   |\n" ++ String.join ((Text.lines text).map fun line => s!"   | {line}\n")
    | none => ""
  let facts := String.join ((e.context.filter (·.1 != "file")).map fun (key, value) =>
    s!"   = {key}: {value}\n")
  let help := if e.isError then s!"   = help: {e.code.help}\n" else ""
  head ++ place ++ quoted ++ facts ++ help

def renderScript (file : Path) (log : ScriptLog) : String :=
  let reported := log.events.filter fun e => e.isError || e.isWarning
  let note :=
    if 0 < log.dropped then
      s!"note: {log.dropped} further event(s) for {file.text} were not kept\n\n"
    else ""
  String.join (reported.map fun e => renderEvent file e ++ "\n") ++ note

/-- All diagnostics as a compiler reports them, with the totals at the end. -/
def render (c : Collector) : String :=
  let t := c.totals
  String.join (c.scripts.map fun (file, log) => renderScript file log)
    ++ s!"Compiled {t.scripts} script(s): {t.failedScripts} failed, {t.errors} error(s), "
    ++ s!"{t.warnings} warning(s)\n"

end Collector
end ChainMapping
