import ChainMapping.Value.Basic

/-!
# Indexes

An index is a tree over a live value.  Below the root and below every element stand positions, one
for each container that a chain reaches from there without meeting another; below a position stand
the elements of its container.

```
root
└── orders[*]
    └── 0
        └── items[*]
            ├── 0
            └── 1
```
-/

namespace ChainMapping

/-- A container that was reached, an element of one, or the root. -/
structure IndexNode where
  id : String
  value : Value
  children : List IndexNode := []
  deriving Inhabited

namespace IndexNode

/-- The id of the root. -/
def rootId : String := "root"

def child? (n : IndexNode) (id : String) : Option IndexNode := n.children.find? (·.id == id)

def childIds (n : IndexNode) : List String := n.children.map (·.id)

def hasChildren (n : IndexNode) : Bool := !n.children.isEmpty

/-- Adds a child at the end. -/
def push (n : IndexNode) (child : IndexNode) : IndexNode :=
  { n with children := n.children ++ [child] }

/-- Puts a node in place of the child with its id. -/
def replace (n : IndexNode) (child : IndexNode) : IndexNode :=
  { n with children := n.children.map fun c => if c.id = child.id then child else c }

/-- Follows ids downwards. -/
def find? (n : IndexNode) : List String → Option IndexNode
  | [] => some n
  | id :: rest =>
    match n.child? id with
    | some c => c.find? rest
    | none => none

mutual

/-- The number of nodes of a tree, its root included. -/
def nodeCount : IndexNode → Nat
  | ⟨_, _, children⟩ => 1 + nodeCounts children

def nodeCounts : List IndexNode → Nat
  | [] => 0
  | n :: rest => n.nodeCount + nodeCounts rest

end

mutual

/-- The tree as a document, values summarized. -/
def document (store : Store) : IndexNode → Document
  | ⟨id, value, children⟩ =>
    .table ([("id", .text id), ("value", store.summary value)]
      ++ (if children.isEmpty then [] else [("children", .list (documents store children))]))

def documents (store : Store) : List IndexNode → List Document
  | [] => []
  | n :: rest => document store n :: documents store rest

end

end IndexNode
end ChainMapping
