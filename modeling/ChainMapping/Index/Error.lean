import ChainMapping.Code
import ChainMapping.Limits
import ChainMapping.Tree.Node

/-!
# Indexing errors

Why a live value cannot be made, read or indexed.
-/

namespace ChainMapping

/-- Why a field cannot be read from an instance. -/
inductive AccessFault where
  /-- the instance is a value of another kind than an object -/
  | notObject (kind : String)
  | otherType (name : String)
  deriving DecidableEq, Repr

def AccessFault.reason : AccessFault → String
  | notObject kind => s!"instance is {kind}"
  | otherType name => s!"instance is a '{name}'"

/-- How a chain and the tree it is walked in disagree. -/
inductive TreeFault where
  | unresolvedChain (chain : String) (side : Side)
  | memberNode (path : String) (descriptor : Descriptor)
  | unaddressedMap (path : String)
  | wrongValue (path : String) (descriptor : Descriptor) (kind : String)
  | noMember
  | noChild (path : String)
  deriving DecidableEq, Repr

def TreeFault.detail : TreeFault → String
  | unresolvedChain chain side => s!"chain '{chain}' is not resolved in the {side.label} tree"
  | memberNode path descriptor =>
    s!"expected a field node at '{path}', found {descriptor.label}"
  | unaddressedMap path => s!"map '{path}' is addressed without a key or value marker"
  | wrongValue path descriptor kind =>
    s!"'{path}' is {descriptor.label} but holds a {kind} value"
  | noMember => "container node without its member"
  | noChild path => s!"member '{path}' has no child for the rest of the chain"

inductive IndexingError where
  | cyclicGraph (typeName : String)
  | fieldAccess (owner field : String) (fault : AccessFault)
  | depthLimitExceeded
  | nodeLimitExceeded
  | unknownMapping (id : String)
  | treeMismatch (fault : TreeFault)
  | conversion (path expected found : String)
  deriving DecidableEq, Repr

namespace IndexingError

def message : IndexingError → String
  | cyclicGraph typeName => s!"Object of type '{typeName}' is reachable from itself"
  | fieldAccess owner field fault => s!"Cannot read field '{field}' of '{owner}': {fault.reason}"
  | depthLimitExceeded => s!"Indexing depth limit of {Limits.indexDepth} exceeded"
  | nodeLimitExceeded => s!"Indexed node limit of {Limits.indexedNodes} exceeded"
  | unknownMapping id => s!"Mapping '{id}' is not registered"
  | treeMismatch fault => s!"Command tree does not match chain: {fault.detail}"
  | conversion path expected found =>
    s!"Value at '{path}' is not a valid {expected}: found {found}"

def code : IndexingError → Code
  | cyclicGraph .. => .cyclicGraph
  | fieldAccess .. => .fieldAccess
  | depthLimitExceeded => .depthLimit
  | nodeLimitExceeded => .nodeLimit
  | unknownMapping .. => .unknownMapping
  | treeMismatch .. => .treeMismatch
  | conversion .. => .valueConversion

end IndexingError

/-- An indexing error with the mapping and the chain it is about. -/
structure ExecutionError where
  mappingId : String
  chain : String
  cause : IndexingError
  deriving DecidableEq, Repr

namespace ExecutionError

def unknownMapping (id : String) : ExecutionError := ⟨id, "", .unknownMapping id⟩

def message (e : ExecutionError) : String :=
  s!"Mapping '{e.mappingId}' failed on chain '{e.chain}': {e.cause.message}"

def code (e : ExecutionError) : Code := e.cause.code

end ExecutionError
end ChainMapping
