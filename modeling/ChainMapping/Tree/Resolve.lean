import ChainMapping.Chain.Tokenize
import ChainMapping.Introspector
import ChainMapping.Tree.Basic
import ChainMapping.Tree.Error

/-!
# Resolving chains

A chain is resolved segment by segment from the root type.  A node that an earlier chain has made is
taken as it is; only a new node asks for type information.  What a chain created is taken back when
the chain fails, so a failed chain leaves the tree as it was.

The steps run over a `Work`, which holds the tree beside a count of the questions asked and the
nodes whose creation was completed; the latter are kept for the log even if the chain fails later.
-/

namespace ChainMapping

/-- Resolution under way. -/
structure Work where
  tree : Tree
  /-- questions put to the source of type information -/
  calls : Nat := 0
  /-- nodes whose creation was completed, latest first -/
  created : List Node := []

/-- A step of resolution.  The work done so far survives an error. -/
abbrev Resolving := EStateM ChainError Work

namespace Resolving

def tree : Resolving Tree := return (← get).tree

/-- Puts one question. -/
def ask {α : Type} (answer : α) : Resolving α :=
  modifyGet fun w => (answer, { w with calls := w.calls + 1 })

/-- An answer about types that may be an error. -/
def liftTypes {α : Type} (chain : String) : Except TypeError α → Resolving α
  | .ok a => pure a
  | .error e => throw (.types chain e)

def fail {α : Type} (error : SemanticsError) : Resolving α := throw (.unfit error)

/-- Adds a node to the tree. -/
def insert (chain : String) (parent : Option Nat) (key : String) (node : Node) :
    Resolving Nat := do
  let (id, t) ← liftTypes chain ((← tree).insert parent key node)
  modify fun w => { w with tree := t }
  return id

end Resolving

namespace Resolve

/-- What a segment's notation lacks or has too much for a field of some role. -/
def notationError? (d : Descriptor) (chain : String) (token : Token) : Option SemanticsError :=
  if d.isCollection then
    if token.shape.isCollection then none
    else if token.shape.side?.isSome then some (.markerOnNonMap chain token.name token.span)
    else some (.missingCollectionNotation chain token.name d.word token.span)
  else if d.isMap then
    if token.shape.side?.isNone then some (.missingKeyValueMarker chain token.name token.span)
    else if token.shape.anchor?.isSome then
      some (.anchorOnNonCollection chain token.name token.span)
    else none
  else if token.shape.anchor?.isSome then
    some (.anchorOnNonCollection chain token.name token.span)
  else if token.shape.side?.isSome then some (.markerOnNonMap chain token.name token.span)
  else if token.isContainer then some (.notationOnPlainField chain token.name token.span)
  else none

def checkNotation (d : Descriptor) (chain : String) (token : Token) : Resolving Unit :=
  match notationError? d chain token with
  | some error => Resolving.fail error
  | none => pure ()

variable (i : Introspector)

/-- A node that exists keeps its type: a hint must name that type, perhaps in other words. -/
def checkHint (chain : String) (token : Token) (node : Node) : Resolving Unit :=
  match token.hint with
  | none => pure ()
  | some hint => do
    let resolved := node.effectiveType.name
    if hint ≠ resolved then
      let hinted ← Resolving.liftTypes chain (← Resolving.ask (i.typeRef hint))
      if hinted.name ≠ resolved then
        Resolving.fail (.conflictingTypeHint chain token.name hint resolved token.span)

/-- The type on which a segment is looked up, below `parent` or at the root. -/
def ownerType (chain : String) (token : Token) (parent : Option Node) : Resolving TypeRef := do
  let root := (← Resolving.tree).rootType
  let owner := (parent.map Node.effectiveType).getD root
  match owner.kind with
  | .object => return owner
  | .abstract =>
    match (← Resolving.ask (i.concreteType owner)).filter (·.kind == .object) with
    | some concrete => return concrete
    | none =>
      let path := (parent.map (·.path)).getD ""
      throw (.types chain (.unresolvedAbstract owner.name path))
  | .scalar => throw (.types chain (.unknownField owner.name token.name))
  | _ =>
    let field := (parent.map (·.field.name)).getD owner.name
    Resolving.fail (.nestedContainer chain field token.span)

/-- The concrete type of a node: the hint, else the override for its path, else the one configured
for its declared type. -/
def concreteFor (chain path : String) (hint : Option String) (declared : TypeRef) :
    Resolving (Option TypeRef) := do
  let overrides := (← Resolving.tree).overrides
  match hint.orElse fun _ => overrides.lookup path with
  | some name => return some (← Resolving.liftTypes chain (← Resolving.ask (i.typeRef name)))
  | none => Resolving.ask (i.concreteType declared)

/-- Declared and concrete type of a member.  A raw container says nothing about its members, so
their type has to come from a hint or an override. -/
def memberTypes (chain path : String) (hint : Option String) (element : Option TypeRef)
    (field : FieldType) : Resolving (TypeRef × Option TypeRef) := do
  match element with
  | some element => return (element, ← concreteFor i chain path hint element)
  | none =>
    let overrides := (← Resolving.tree).overrides
    match hint.orElse fun _ => overrides.lookup path with
    | some name =>
      return (← Resolving.liftTypes chain (← Resolving.ask (i.typeRef name)), none)
    | none => throw (.types chain (.rawCollection field.owner field.name field.declared.kind))

/-- Makes one member of a container. -/
def createMember (chain : String) (token : Token) (container : Nat) (field : FieldType)
    (key path : String) (descriptor : Descriptor) (hint : Option String)
    (element : Option TypeRef) : Resolving Nat := do
  let (declared, concrete) ← memberTypes i chain path hint element field
  let side := (← Resolving.tree).side
  Resolving.insert chain (some container) key {
    id := 0, tokenIndex := token.index, token := "", path, field, descriptor, declared, concrete
    isFirst := false, side, parent := none, children := none }

/-- Makes the member of a collection. -/
def createCollectionMember (chain : String) (token : Token) (container : Nat) (path : String)
    (field : FieldType) : Resolving Unit := do
  let args ← Resolving.ask (i.genericArguments field)
  let _ ← createMember i chain token container field field.name (path ++ "[*]")
    .collectionMember token.hint args[0]?

/-- Makes the key and value members of a map; a hint is about the side that the segment names. -/
def createMapMembers (chain : String) (token : Token) (container : Nat) (path : String)
    (field : FieldType) : Resolving Unit := do
  let args ← Resolving.ask (i.genericArguments field)
  let hintFor (side : MapSide) : Option String :=
    if token.shape.side? = some side then token.hint else none
  let _ ← createMember i chain token container field (MapSide.key.memberKey field.name)
    (path ++ MapSide.key.marker) .mapKey (hintFor .key) args[0]?
  let _ ← createMember i chain token container field (MapSide.value.memberKey field.name)
    (path ++ MapSide.value.marker) .mapValue (hintFor .value) args[1]?

/-- Makes the members that a node of some role has. -/
def createMembers (chain : String) (token : Token) (d : Descriptor) (id : Nat) (path : String)
    (field : FieldType) : Resolving Unit :=
  if d.isCollection then createCollectionMember i chain token id path field
  else if d.isMap then createMapMembers i chain token id path field
  else pure ()

/-- The path of a segment below a node, or at the root. -/
def pathBelow (parent : Option Node) (name : String) : String :=
  match parent with
  | some p => p.path ++ "." ++ name
  | none => name

/-- Adds the node of a segment whose types are known, with its members if it is a container. -/
def addNode (chain : String) (token : Token) (parent : Option Node) (field : FieldType)
    (concrete : Option TypeRef) : Resolving Nat := do
  let descriptor := Descriptor.ofKind field.declared.kind
  let path := pathBelow parent token.name
  let side := (← Resolving.tree).side
  let id ← Resolving.insert chain (parent.map (·.id)) token.name {
    id := 0, tokenIndex := token.index, token := "", path, field, descriptor
    declared := field.declared, concrete, isFirst := parent.isNone, side, parent := none
    children := if descriptor.isContainer then some [] else none }
  createMembers i chain token descriptor id path field
  modify fun w => { w with created := (w.tree.node? id).toList ++ w.created }
  return id

/-- Makes the node of a segment.  A container has no concrete type of its own. -/
def createNode (chain : String) (token : Token) (parent : Option Node) : Resolving Nat := do
  let owner ← ownerType i chain token parent
  let field ← Resolving.liftTypes chain (← Resolving.ask (i.fieldType owner.name token.name))
  checkNotation (Descriptor.ofKind field.declared.kind) chain token
  let concrete ←
    if (Descriptor.ofKind field.declared.kind).isContainer then pure none
    else concreteFor i chain (pathBelow parent token.name) token.hint field.declared
  addNode i chain token parent field concrete

/-- Goes from a node to the one that a segment names, making it if it does not exist. -/
def step (chain : String) (current : Option Nat) (token : Token) : Resolving Nat := do
  let t ← Resolving.tree
  match t.childOf? current token.name with
  | some existing =>
    match t.node? existing with
    | some node =>
      checkNotation node.descriptor chain token
      let typed := (t.memberOf? existing token.shape.side?).getD existing
      match t.node? typed with
      | some node => checkHint i chain token node
      | none => pure ()
      return typed
    | none => return existing
  | none =>
    let created ← createNode i chain token (current.bind t.node?)
    return ((← Resolving.tree).memberOf? created token.shape.side?).getD created

/-- Goes along the segments of a chain. -/
def steps (chain : String) (current : Option Nat) : List Token → Resolving (Option Nat)
  | [] => pure current
  | token :: rest => do
    let next ← step i chain current token
    steps chain (some next) rest

end Resolve

/-- What resolving a chain came to. -/
structure Resolution where
  /-- the chain and the node it ends at -/
  outcome : Except ChainError (Chain × Nat)
  tree : Tree
  newNodes : Nat
  calls : Nat
  /-- nodes whose creation was completed, in order, taken back or not -/
  created : List Node

namespace Tree

/-- Resolves a chain; its leaf is the member when the last segment is a container. -/
def resolve (i : Introspector) (t : Tree) (chain : Chain) : Resolution :=
  if 1 < chain.anchorCount then
    ⟨.error (.unfit (.multipleAnchors chain.text chain.anchorCount)), t, 0, 0, []⟩
  else
    let mark := t.size
    match (Resolve.steps i chain.text none chain.tokens).run { tree := t } with
    | .ok (some leaf) w =>
      ⟨.ok (chain, leaf), w.tree, w.tree.size - mark, w.calls, w.created.reverse⟩
    | .ok none w =>
      ⟨.error (.malformed (.emptySegment chain.text 0)), w.tree.rollback mark, 0, w.calls,
        w.created.reverse⟩
    | .error e w => ⟨.error e, w.tree.rollback mark, 0, w.calls, w.created.reverse⟩

/-- Reads and resolves a chain. -/
def resolveText (i : Introspector) (t : Tree) (text : String) : Resolution :=
  match Chain.parse text with
  | .ok chain => t.resolve i chain
  | .error e => ⟨.error (.malformed e), t, 0, 0, []⟩

end Tree
end ChainMapping
