import ChainMapping.Mapping.Compile
import ChainMapping.Registry.Error

/-!
# Registries

A builder compiles scripts and collects mappings under their ids.  What it has collected is
published as a snapshot, which never changes; publishing again replaces the snapshot as a whole.
-/

namespace ChainMapping

/-- A set of mappings that is no longer added to. -/
structure Snapshot where
  mappings : List Mapping := []
  reports : List Report := []

namespace Snapshot

def size (s : Snapshot) : Nat := s.mappings.length

def isEmpty (s : Snapshot) : Bool := s.mappings.isEmpty

def ids (s : Snapshot) : List String := s.mappings.map (·.id)

def get? (s : Snapshot) (id : String) : Option Mapping := s.mappings.find? (·.id == id)

end Snapshot

/-- Mappings being collected. -/
structure RegistryBuilder where
  compiler : Compiler
  /-- the mappings added, latest first -/
  latest : List Mapping := []
  size : Nat := 0
  /-- the reports of the scripts that were compiled, latest script first -/
  latestReports : List (List Report) := []

namespace RegistryBuilder

def isEmpty (b : RegistryBuilder) : Bool := b.latest.isEmpty

def contains (b : RegistryBuilder) (id : String) : Bool := b.latest.any (·.id == id)

/-- All reports, oldest first. -/
def reports (b : RegistryBuilder) : List Report := b.latestReports.reverse.flatten

/-- Why no mapping of an id can be added. -/
def refusal? (b : RegistryBuilder) (id : String) : Option RegistryError :=
  if b.contains id then some (.duplicateMapping id)
  else if Limits.mappings ≤ b.size then some (.limitExceeded "mapping" Limits.mappings)
  else none

def push (b : RegistryBuilder) (m : Mapping) : RegistryBuilder :=
  { b with latest := m :: b.latest, size := b.size + 1 }

/-- Compiles and adds a script.  The reports of a script that does not compile are kept too. -/
def addScript (b : RegistryBuilder) (script : Script) :
    Except RegistryError Mapping × RegistryBuilder × List Event :=
  match b.refusal? script.id with
  | some error => (.error error, b, [])
  | none =>
    let (outcome, compiler) := b.compiler.compile script
    let b := { b with compiler, latestReports := outcome.reports :: b.latestReports }
    match outcome.mapping with
    | some m => (.ok m, b.push m, outcome.log)
    | none => (.error (.compilationFailed script.id outcome.failures), b, outcome.log)

/-- Adds a mapping that was compiled elsewhere. -/
def addCompiled (b : RegistryBuilder) (m : Mapping) : Except RegistryError Unit × RegistryBuilder :=
  match b.refusal? m.id with
  | some error => (.error error, b)
  | none => (.ok (), b.push m)

def build (b : RegistryBuilder) : Snapshot := ⟨b.latest.reverse, b.reports⟩

end RegistryBuilder

namespace Snapshot

/-- Logged when a first snapshot is published. -/
def loadedEvent (s : Snapshot) : Event :=
  (Event.success .registryLoaded "Mapping registry loaded").withPair "mappings" (toString s.size)

/-- Logged when a snapshot takes the place of another one. -/
def reloadedEvent (s previous : Snapshot) : Event :=
  (Event.success .registryReloaded "Mapping registry reloaded").withPairs
    [("mappings", toString s.size), ("previous", toString previous.size)]

end Snapshot
end ChainMapping
