import ChainMapping.Chain.Basic
import ChainMapping.Tree.Basic

/-!
# Cursors

A cursor pairs a chain with a node of the tree in which the chain was resolved, and answers
questions about the place of that node in the chain.
-/

namespace ChainMapping

structure Cursor where
  tree : Tree
  chain : Chain
  nodeId : Nat

namespace Cursor

/-- The cursor at the first node of a chain, none if the tree has no such node. -/
def atFirst? (tree : Tree) (chain : Chain) : Option Cursor := do
  let first ← chain.tokens.head?
  let id ← tree.firstNode? first.name
  return ⟨tree, chain, id⟩

def node? (c : Cursor) : Option Node := c.tree.node? c.nodeId

def withNode (c : Cursor) (id : Nat) : Cursor := { c with nodeId := id }

/-- The index of the segment that the node belongs to. -/
def tokenIndex (c : Cursor) : Nat := (c.node?.map (·.tokenIndex)).getD 0

def token? (c : Cursor) : Option Token := c.chain.tokens[c.tokenIndex]?

def isFirstNode (c : Cursor) : Bool := (c.node?.map (·.isFirst)).getD false

def isContainer (c : Cursor) : Bool := (c.node?.map Node.isContainer).getD false

def isLastToken (c : Cursor) : Bool := c.tokenIndex == c.chain.lastIndex

/-- The last segment, and not a container whose member comes after it. -/
def isLeaf (c : Cursor) : Bool := c.isLastToken && !c.isContainer

/-- Directly above the leaf: the container whose member is the leaf, or the node of the segment
before a last segment without notation. -/
def isLeafParent (c : Cursor) : Bool :=
  if c.isLastToken then c.isContainer
  else if c.isContainer || c.tokenIndex + 1 != c.chain.lastIndex then false
  else (c.chain.tokens.getLast?.map fun last => !last.isContainer).getD false

/-- A segment before this one addresses elements or entries. -/
def hasAncestralContainer (c : Cursor) : Bool :=
  (c.chain.tokens.take c.tokenIndex).any Token.isContainer

/-- A segment after this one addresses elements or entries. -/
def hasDescendantContainer (c : Cursor) : Bool :=
  (c.chain.tokens.drop (c.tokenIndex + 1)).any Token.isContainer

def isAnchored (c : Cursor) : Bool := (c.token?.map Token.isAnchored).getD false

def isPreAnchored (c : Cursor) : Bool := (c.token?.map Token.isPreAnchored).getD false

def isPostAnchored (c : Cursor) : Bool := (c.token?.map Token.isPostAnchored).getD false

/-- Segments from this one on that address elements or entries. -/
def remainingContainers (c : Cursor) : Nat :=
  (c.chain.tokens.drop c.tokenIndex).countP Token.isContainer

/-- Levels of elements or entries in the whole chain. -/
def containerCount (c : Cursor) : Nat := c.chain.containerCount

/-- The normal form of the chain up to and including the segment of this node. -/
def normalPrefix (c : Cursor) : String := c.chain.normalPrefix c.tokenIndex

/-- The member of this container that the segment addresses. -/
def member? (c : Cursor) : Option Cursor :=
  (c.tree.memberOf? c.nodeId (c.token?.bind (·.shape.side?))).map c.withNode

/-- One side of this map. -/
def mapMember? (c : Cursor) (side : MapSide) : Option Cursor :=
  (c.tree.memberOf? c.nodeId (some side)).map c.withNode

/-- The next node along the chain: the member of a container, else the child that the next segment
names. -/
def descend? (c : Cursor) : Option Cursor :=
  if c.isContainer then c.member?
  else do
    let next ← c.chain.tokens[c.tokenIndex + 1]?
    let id ← (← c.node?).child? next.name
    return c.withNode id

/-- The node above; a member goes back to its container. -/
def parent? (c : Cursor) : Option Cursor :=
  (c.node?.bind (·.parent)).map c.withNode

/-- At most `steps` cursors from this one downwards. -/
def walkFrom : (steps : Nat) → Cursor → List Cursor
  | 0, _ => []
  | steps + 1, c =>
    c :: match c.descend? with
      | some next => walkFrom steps next
      | none => []

end Cursor

/-- The cursors of a chain in a tree, from its first node downwards.  Every segment gives at most
two: a container and its member. -/
def Tree.walk (tree : Tree) (chain : Chain) : List Cursor :=
  match Cursor.atFirst? tree chain with
  | some first => first.walkFrom (2 * chain.length)
  | none => []

end ChainMapping
