import ChainMapping.Log.Collector
import ChainMapping.Settings

/-!
# The journal of a process

Everything that is logged goes through the journal.  It knows the script that is being compiled,
adds its path to the events, passes them on by level, and files warnings and errors under the
script.

What a computation logs is a list of actions, so that computations stay functions and their logs can
be put one after the other.
-/

namespace ChainMapping

/-- Something a computation does to the journal. -/
inductive LogAction where
  /-- work on a script begins -/
  | enter (file : Path) (id : Nat)
  /-- work on the innermost script ends -/
  | leave
  | record (event : Event)
  /-- a line for whoever watches the process, whatever the level -/
  | announce (line : String)
  deriving DecidableEq, Repr

structure Journal where
  settings : LoggingSettings
  collector : Collector := {}
  /-- the scripts being compiled, innermost first -/
  scopes : List (Path × Nat) := []
  /-- the events passed on, latest first -/
  latest : List Event := []

namespace Journal

/-- The event as it is logged: a message of bounded length, tagged with the current script. -/
def decorate (j : Journal) (e : Event) : Event :=
  let e := { e with message := Event.clampMessage e.message }
  match j.settings.includeFileContext, j.scopes.head? with
  | true, some (file, _) => e.withPair "file" file.text
  | _, _ => e

/-- The event that is passed on for one that is logged, if its level is enabled. -/
def passedOn? (j : Journal) (e : Event) : Option Event :=
  if e.level.isEnabled j.settings.effectiveLevel then some (j.decorate e) else none

def record (j : Journal) (e : Event) : Journal :=
  let latest := (j.passedOn? e).toList ++ j.latest
  let e := j.decorate e
  let collector :=
    match j.scopes.head? with
    | some (file, _) =>
      if e.isError || e.isWarning then j.collector.recordEvent file e else j.collector
    | none => j.collector
  { j with latest, collector }

def act (j : Journal) : LogAction → Journal
  | .enter file id =>
    { j with collector := j.collector.recordFile file, scopes := (file, id) :: j.scopes }
  | .leave => { j with scopes := j.scopes.tail }
  | .record e => j.record e
  | .announce _ => j

def run (j : Journal) (actions : List LogAction) : Journal := actions.foldl act j

/-- The script being compiled. -/
def current? (j : Journal) : Option (Path × Nat) := j.scopes.head?

/-- The events passed on, oldest first. -/
def events (j : Journal) : List Event := j.latest.reverse

end Journal
end ChainMapping
