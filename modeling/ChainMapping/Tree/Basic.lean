import ChainMapping.Chain.Notation
import ChainMapping.Limits
import ChainMapping.Ordered
import ChainMapping.Tree.Node
import ChainMapping.Types.Error

/-!
# Command trees

The nodes that chains have been resolved to, for one side of a mapping.  Nodes are numbered in the
order of creation and refer to each other by number; a parent always has a smaller number than its
children.  The root type itself has no node.
-/

namespace ChainMapping

structure Tree where
  side : Side
  rootType : TypeRef
  nodes : Array Node := #[]
  firstNodes : List (String × Nat) := []
  /-- names of concrete types under the normal form of the chain they are meant for -/
  overrides : List (String × String) := []
  deriving DecidableEq, Repr

namespace Tree

def addOverride (t : Tree) (path concrete : String) : Tree :=
  { t with overrides := Ordered.put path concrete t.overrides }

def size (t : Tree) : Nat := t.nodes.size

def isEmpty (t : Tree) : Bool := t.nodes.isEmpty

def node? (t : Tree) (id : Nat) : Option Node := t.nodes[id]?

def firstNode? (t : Tree) (field : String) : Option Nat := t.firstNodes.lookup field

/-- The child of a node, or of the root if there is none. -/
def childOf? (t : Tree) (parent : Option Nat) (key : String) : Option Nat :=
  match parent with
  | some id => (t.node? id).bind (·.child? key)
  | none => t.firstNode? key

/-- The member of a container: the one of a collection, or the addressed side of a map. -/
def memberOf? (t : Tree) (id : Nat) (side : Option MapSide) : Option Nat := do
  let n ← t.node? id
  if n.descriptor.isMap then
    let side ← side
    n.child? (side.memberKey n.field.name)
  else if n.descriptor.isCollection then n.child? n.field.name
  else none

def findByPath? (t : Tree) (path : String) : Option Nat :=
  (t.nodes.find? (·.path == path)).map (·.id)

/-- The ids from a node up to its first-level ancestor.  A parent has a smaller id, so the way up
has no more steps than the id. -/
def ancestors (t : Tree) (id : Nat) : List Nat :=
  go (id + 1) id
where
  /-- at most `steps` nodes from `id` upwards -/
  go : (steps : Nat) → (id : Nat) → List Nat
    | 0, _ => []
    | steps + 1, id =>
      id :: match (t.node? id).bind (·.parent) with
        | some parent => go steps parent
        | none => []

/-- Path and role of every node, in the order of creation. -/
def summary (t : Tree) : List (String × Descriptor) :=
  t.nodes.toList.map fun n => (n.path, n.descriptor)

/-- Names a child of a node. -/
def linkChild (key : String) (id : Nat) (n : Node) : Node :=
  { n with children := some (Ordered.put key id (n.children.getD [])) }

/-- Appends a node and links it below its parent, unless the tree or the parent is full. -/
def insert (t : Tree) (parent : Option Nat) (key : String) (node : Node) :
    Except TypeError (Nat × Tree) :=
  let id := t.nodes.size
  let node := { node with id, parent, token := key }
  if Limits.treeNodes ≤ id then .error (.treeTooLarge Limits.treeNodes)
  else
    match parent with
    | some p =>
      if Limits.childrenPerNode ≤ ((t.node? p).map Node.childCount).getD 0 then
        .error (.treeTooLarge Limits.childrenPerNode)
      else .ok (id, { t with nodes := (t.nodes.modify p (linkChild key id)).push node })
    | none =>
      if Limits.childrenPerNode ≤ t.firstNodes.length then
        .error (.treeTooLarge Limits.childrenPerNode)
      else
        .ok (id, { t with
          nodes := t.nodes.push node
          firstNodes := Ordered.put key id t.firstNodes })

/-- Keeps the children with an id below `mark`.  A node that is no container loses an empty table of
children, as it had none before its first child came. -/
def unlinkFrom (mark : Nat) (n : Node) : Node :=
  match n.children with
  | none => n
  | some children =>
    let kept := children.filter (·.2 < mark)
    { n with children := if kept.isEmpty && !n.isContainer then none else some kept }

/-- Takes away every node with an id from `mark` on: the work of a chain that failed. -/
def rollback (t : Tree) (mark : Nat) : Tree :=
  if t.nodes.size ≤ mark then t
  else
    { t with
      nodes := (t.nodes.take mark).map (unlinkFrom mark)
      firstNodes := t.firstNodes.filter (·.2 < mark) }

end Tree
end ChainMapping
