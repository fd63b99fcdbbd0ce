import ChainMapping.Types.Basic

/-!
# Nodes of a command tree

Every segment that has been resolved is a node.  A container field has members below it: one for
the elements of a collection, a pair for the keys and values of a map.  Members carry the index of
the segment that made the container.
-/

namespace ChainMapping

/-- The object graph that a tree describes. -/
inductive Side where
  | source
  | target
  deriving DecidableEq, Repr

namespace Side

def label : Side → String
  | source => "source"
  | target => "target"

def ofLabel? (text : String) : Option Side :=
  if text = "source" then some source else if text = "target" then some target else none

end Side

/-- The structural role of a node. -/
inductive Descriptor where
  | normal
  | list
  | set
  | queue
  | array
  | map
  | mapKey
  | mapValue
  | collectionMember
  deriving DecidableEq, Repr

namespace Descriptor

def ofKind : Kind → Descriptor
  | .list => list
  | .set => set
  | .queue => queue
  | .array => array
  | .map => map
  | .scalar | .object | .abstract => normal

def isCollection : Descriptor → Bool
  | list | set | queue | array => true
  | _ => false

def isMap : Descriptor → Bool
  | map => true
  | _ => false

def isContainer (d : Descriptor) : Bool := d.isCollection || d.isMap

/-- A node made together with its container. -/
def isMember : Descriptor → Bool
  | mapKey | mapValue | collectionMember => true
  | _ => false

def label : Descriptor → String
  | normal => "NORMAL"
  | list => "LIST"
  | set => "SET"
  | queue => "QUEUE"
  | array => "ARRAY"
  | map => "MAP"
  | mapKey => "MAP_KEY"
  | mapValue => "MAP_VALUE"
  | collectionMember => "COLLECTION_MEMBER"

/-- The role in the middle of a sentence. -/
def word : Descriptor → String
  | normal => "normal"
  | list => "list"
  | set => "set"
  | queue => "queue"
  | array => "array"
  | map => "map"
  | mapKey => "map_key"
  | mapValue => "map_value"
  | collectionMember => "collection_member"

def all : List Descriptor :=
  [normal, list, set, queue, array, map, mapKey, mapValue, collectionMember]

def ofLabel? (text : String) : Option Descriptor := all.find? (·.label == text)

end Descriptor

/-- A resolved segment or the member of a resolved container. -/
structure Node where
  id : Nat
  tokenIndex : Nat
  /-- the name under which the parent holds this node -/
  token : String
  /-- the normal form of the chain up to here: `orders` for a list, `orders[*]` for its member -/
  path : String
  field : FieldType
  descriptor : Descriptor
  /-- the type of the field, or of the elements for a member -/
  declared : TypeRef
  concrete : Option TypeRef
  isFirst : Bool
  side : Side
  parent : Option Nat
  /-- absent until a child is needed; a container has a table from the start -/
  children : Option (List (String × Nat))
  deriving DecidableEq, Repr

namespace Node

/-- The type on which the next segment is looked up. -/
def effectiveType (n : Node) : TypeRef := n.concrete.getD n.declared

def child? (n : Node) (key : String) : Option Nat := n.children.bind (·.lookup key)

def childCount (n : Node) : Nat := (n.children.map List.length).getD 0

def isContainer (n : Node) : Bool := n.descriptor.isContainer

end Node
end ChainMapping
