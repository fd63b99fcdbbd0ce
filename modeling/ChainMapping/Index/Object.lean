import ChainMapping.Index.Chain
import ChainMapping.Mapping.Basic
import ChainMapping.Log.Event
import ChainMapping.Settings

/-!
# Indexing an object for a mapping

All chains of one side of a mapping are indexed into one tree.  A chain without containers has
nothing to index, and of several chains that agree up to their last container only the first is
walked.  An error ends the pass.
-/

namespace ChainMapping
namespace Index

/-- What indexing is about, for its log. -/
structure Subject where
  mapping : Mapping
  side : Side
  root : Value
  source : IndexSource
  logSkipped : Bool

namespace Subject

def skippedEvent (s : Subject) (c : Chain) (normal : String) : Event :=
  (Event.debug "Chain prefix already indexed").withPairs
    [("mapping", s.mapping.id), ("chain", c.text), ("prefix", normal)]

def failedEvent (s : Subject) (c : Chain) (e : IndexingError) : Event :=
  (Event.error e.code "Indexing failed").withPairs
    [("mapping", s.mapping.id), ("side", s.side.label), ("chain", c.text), ("error", e.message)]

def indexedEvent (s : Subject) (chains nodes : Nat) : Event :=
  (Event.success .objectIndexed "Object indexed").withPairs
    [("mapping", s.mapping.id), ("side", s.side.label), ("chains", toString chains),
     ("nodes", toString nodes)]

/-- Indexes chains one after the other.  `seen` are the normal forms, up to their last container, of
the chains walked before.  The result says how many were walked in all. -/
def indexChains (s : Subject) : List Chain → IndexWork → (seen : List String) →
    Except ExecutionError (IndexWork × Nat) × List Event
  | [], work, seen => (.ok (work, seen.length), [])
  | c :: rest, work, seen =>
    match c.lastContainerIndex? with
    | none => s.indexChains rest work seen
    | some last =>
      let normal := c.normalPrefix last
      if seen.contains normal then
        let (result, log) := s.indexChains rest work seen
        (result, if s.logSkipped then s.skippedEvent c normal :: log else log)
      else
        match (chain s.source (s.mapping.tree s.side) c s.root).run work with
        | .ok () work => s.indexChains rest work (normal :: seen)
        | .error e _ => (.error ⟨s.mapping.id, c.text, e⟩, [s.failedEvent c e])

/-- The index of the root, none if no chain reaches a container with contents. -/
def index (s : Subject) : Except ExecutionError (Option IndexNode) × List Event :=
  let start : IndexWork := { node := { id := IndexNode.rootId, value := s.root } }
  match s.indexChains (s.mapping.chains s.side) start [] with
  | (.error e, log) => (.error e, log)
  | (.ok (work, walked), log) =>
    if work.node.hasChildren then
      (.ok (some work.node), log ++ [s.indexedEvent walked work.created])
    else (.ok none, log)

end Subject

/-- Indexes an object for one side of a mapping. -/
def object (settings : IndexerSettings) (store : Store) (mapping : Mapping) (side : Side)
    (root : Value) : Except ExecutionError (Option IndexNode) × List Event :=
  Subject.index {
    mapping, side, root
    source := { store, detectCycles := settings.detectCycles }
    logSkipped := settings.logSkippedChains }

end Index
end ChainMapping
