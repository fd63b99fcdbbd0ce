import ChainMapping.Log.Event
import ChainMapping.Tree.Resolve

/-!
# What resolution logs

Every node whose creation was completed can be logged, whether the chain stays or is taken back
later.  A chain that added nodes is logged once.
-/

namespace ChainMapping

def Node.createdEvent (n : Node) : Event :=
  (Event.debug "Created command node").withPairs
    [("path", n.path), ("descriptor", n.descriptor.label), ("type", n.effectiveType.display)]

namespace Resolution

/-- The events of a resolution, in order. -/
def events (logNodeCreation : Bool) (r : Resolution) : List Event :=
  let nodes := if logNodeCreation then r.created.map Node.createdEvent else []
  let chain :=
    match r.outcome with
    | .ok (chain, _) =>
      if 0 < r.newNodes then
        [(Event.debug "Resolved chain").withPairs
          [("chain", chain.text), ("side", r.tree.side.label),
           ("new_nodes", toString r.newNodes)]]
      else []
    | .error _ => []
  nodes ++ chain

end Resolution
end ChainMapping
