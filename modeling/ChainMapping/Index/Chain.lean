import ChainMapping.Index.Node
import ChainMapping.Tree.Cursor
import ChainMapping.Value.Reading

/-!
# Indexing along a chain

From an instance the chain is followed to its next container, whose elements are indexed, each of
them with the rest of the chain.  What is already in the index is entered again, not made twice, so
several chains can be indexed into one tree.

Null values and empty containers leave nothing behind, and an element for which the rest of the
chain indexes nothing is dropped with its container if no element is left.
-/

namespace ChainMapping

/-- What indexing reads: the instances, and whether an object may be met below itself. -/
structure IndexSource where
  store : Store
  detectCycles : Bool := true

/-- The node being filled, and how many nodes have been made in the pass. -/
structure IndexWork where
  node : IndexNode
  created : Nat := 0

/-- A step of indexing.  What was attached before an error stays attached. -/
abbrev Indexing := EStateM IndexingError IndexWork

namespace Indexing

def liftError {α : Type} : Except IndexingError α → Indexing α
  | .ok a => pure a
  | .error e => throw e

def mismatch {α : Type} (fault : TreeFault) : Indexing α := throw (.treeMismatch fault)

/-- Counts a node that is about to be attached. -/
def countNode : Indexing Unit := do
  if Limits.indexedNodes ≤ (← get).created then throw .nodeLimitExceeded
  modify fun w => { w with created := w.created + 1 }

/-- The child of the node being filled. -/
def child? (id : String) : Indexing (Option IndexNode) := return (← get).node.child? id

/-- Attaches a child. -/
def attach (child : IndexNode) : Indexing Unit := do
  countNode
  modify fun w => { w with node := w.node.push child }

/-- Makes sure that there is a child with an id. -/
def ensure (id : String) (value : Value) : Indexing Unit := do
  if (← child? id).isNone then attach { id, value }

/-- Fills an existing child; what an error leaves in it stays. -/
def within (child : IndexNode) (fill : Indexing Unit) : Indexing Unit := fun w =>
  match fill { w with node := child } with
  | .ok () w' => .ok () { w' with node := w.node.replace w'.node }
  | .error e w' => .error e { w' with node := w.node.replace w'.node }

/-- Fills a new child and attaches it if it has children then; an error drops it. -/
def attachFilled (child : IndexNode) (fill : Indexing Unit) : Indexing Unit := fun w =>
  match fill { w with node := child } with
  | .ok () w' =>
    let back := { w' with node := w.node }
    if w'.node.hasChildren then attach w'.node back else .ok () back
  | .error e w' => .error e { w' with node := w.node }

/-- Fills the child with an id, new or not. -/
def fillChild (id : String) (value : Value) (fill : Indexing Unit) : Indexing Unit := do
  match ← child? id with
  | some child => within child fill
  | none => attachFilled { id, value } fill

end Indexing

namespace Cursor

/-- The segments from the nearest enclosing container down to this one, with the notation of the
container. -/
def positionKey (c : Cursor) : String :=
  let tokens := c.chain.tokens.take (c.tokenIndex + 1)
  let above := tokens.dropLast.reverse.takeWhile fun t => !t.isContainer
  let names := above.reverse.map (·.name) ++ (tokens.getLast?.map (·.name)).toList
  let isMap := (c.node?.map (·.descriptor.isMap)).getD false
  Text.join "." names ++ (if isMap then "[*,*]" else "[*]")

/-- The cursor below the member of a container, none if no container follows in the chain. -/
def nextLevel (member : Option Cursor) : Except IndexingError (Option Cursor) :=
  match member with
  | none => .error (.treeMismatch .noMember)
  | some m =>
    if !m.hasDescendantContainer then .ok none
    else
      match m.descend? with
      | some next => .ok (some next)
      | none => .error (.treeMismatch (.noChild ((m.node?.map (·.path)).getD "")))

/-- Reads fields from an instance down to the next container of the chain, in at most `steps`
steps.  None if a field on the way is not set or the chain ends before a container. -/
def readToContainer (store : Store) : (steps : Nat) → Cursor → Value →
    Except IndexingError (Option (Cursor × Value))
  | 0, _, _ => .ok none
  | steps + 1, c, instance' =>
    match c.node? with
    | none => .ok none
    | some n =>
      if n.descriptor.isMember then .error (.treeMismatch (.memberNode n.path n.descriptor))
      else
        match store.readField n.field instance' with
        | .error e => .error e
        | .ok none => .ok none
        | .ok (some value) =>
          if n.isContainer then .ok (some (c, value))
          else
            match c.descend? with
            | some next => readToContainer store steps next value
            | none => .ok none

end Cursor

/-- How the elements of a container are gone through: the side that the chain addresses if it is a
map, and the cursor for them if the chain goes on to another container. -/
structure ContainerVisit where
  side : Option MapSide
  next : Option Cursor

namespace Index

/-- What a container and its node say about its elements. -/
def visit (c : Cursor) (container : Value) : Except IndexingError ContainerVisit :=
  match c.node? with
  | none => .error (.treeMismatch .noMember)
  | some n =>
    match container, n.descriptor.isMap with
    | .sequence _, false => do
      let next ← Cursor.nextLevel c.member?
      return ⟨none, next⟩
    | .map _, true =>
      match c.token?.bind (·.shape.side?) with
      | none => .error (.treeMismatch (.unaddressedMap n.path))
      | some side => do
        let next ← Cursor.nextLevel (c.mapMember? side)
        return ⟨some side, next⟩
    | other, _ => .error (.treeMismatch (.wrongValue n.path n.descriptor other.kind))

/-- The places of a container in order: the id, the side of the entry for a map, and the value. -/
def places (store : Store) (container : Value) : List (String × Option MapSide × Value) :=
  match container with
  | .sequence id => (store.items id).zipIdx.map fun (v, i) => (toString i, none, v)
  | .map id =>
    (store.entries id).zipIdx.flatMap fun ((key, value), i) =>
      [(toString i ++ MapSide.key.marker, some .key, key),
       (toString i ++ MapSide.value.marker, some .value, value)]
  | _ => []

/-- The elements that a container contributes, in order: the id, the value, and whether the chain
addresses the element.  Nulls are left out. -/
def elements (store : Store) (container : Value) (side : Option MapSide) :
    List (String × Value × Bool) :=
  ((places store container).filter fun (_, _, v) => !v.isNull).map
    fun (id, placed, v) => (id, v, placed = side)

/-- The objects on the way down to a value, the value included.  An object that is on the way
already is an error. -/
def enter (source : IndexSource) (path : List Nat) (v : Value) : Except IndexingError (List Nat) :=
  match source.detectCycles, v with
  | true, .object id =>
    if path.contains id then .error (.cyclicGraph ((source.store.typeName? v).getD ""))
    else .ok (id :: path)
  | _, _ => .ok path

/-- Indexes one element.  `nested` indexes the rest of the chain from there, if it goes on to
another container; an element that the chain does not address is only attached. -/
def element (nested : Option (Value → Indexing Unit)) (id : String) (v : Value)
    (addressed : Bool) : Indexing Unit :=
  match addressed, nested with
  | true, some fill => Indexing.fillChild id v (fill v)
  | _, _ => Indexing.ensure id v

/-- Does something for each element, in order. -/
def forElements (f : String → Value → Bool → Indexing Unit) :
    List (String × Value × Bool) → Indexing Unit
  | [] => pure ()
  | (id, v, addressed) :: rest => do
    f id v addressed
    forElements f rest

/-- Indexes the rest of a chain from an instance into the node being filled.  `levels` is how many
container levels may still be entered, and `path` the objects on the way down. -/
def descend (source : IndexSource) : (levels : Nat) → (path : List Nat) → Cursor → Value →
    Indexing Unit
  | 0, _, _, _ => throw .depthLimitExceeded
  | levels + 1, path, c, instance' => do
    match ← Indexing.liftError (c.readToContainer source.store (c.chain.length + 1) instance') with
    | none => pure ()
    | some (c, container) =>
      if source.store.isEmptyContainer container then pure ()
      else
        let visited ← Indexing.liftError (visit c container)
        let nested := visited.next.map fun next v => do
          let path ← Indexing.liftError (enter source path v)
          descend source levels path next v
        Indexing.fillChild c.positionKey container
          (forElements (element nested) (elements source.store container visited.side))

/-- Indexes a chain of a tree from an instance into the node being filled. -/
def chain (source : IndexSource) (tree : Tree) (c : Chain) (instance' : Value) : Indexing Unit := do
  match Cursor.atFirst? tree c with
  | none => Indexing.mismatch (.unresolvedChain c.text tree.side)
  | some first =>
    let path ← Indexing.liftError (enter source [] instance')
    descend source Limits.indexDepth path first instance'

end Index
end ChainMapping
