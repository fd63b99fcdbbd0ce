import ChainMapping.Log.Event

/-!
# Events kept in memory

A memory keeps the newest events, up to a fixed number.
-/

namespace ChainMapping

structure Memory where
  /-- the events kept, latest first -/
  latest : List Event := []
  deriving DecidableEq, Repr

namespace Memory

def capacity : Nat := max Limits.errorCollection 1

def push (m : Memory) (e : Event) : Memory := ⟨(e :: m.latest).take capacity⟩

/-- Takes in an event unless it is beyond the level of the logger. -/
def log (m : Memory) (limit : Level) (e : Event) : Memory :=
  if e.level.isEnabled limit then m.push e else m

/-- What is kept of a sequence of events, latest first. -/
def ofLatest (events : List Event) : Memory := ⟨events.take capacity⟩

def events (m : Memory) : List Event := m.latest.reverse

def size (m : Memory) : Nat := m.latest.length

def isEmpty (m : Memory) : Bool := m.latest.isEmpty

def containsCode (m : Memory) (code : Code) : Bool := m.latest.any (·.code == code)

/-- The events about a chain, oldest first. -/
def forChain (m : Memory) (chain : String) : List Event :=
  m.events.filter (·.chain == some chain)

end Memory
end ChainMapping
