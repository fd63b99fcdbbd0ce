import ChainMapping.Json.Reader
import ChainMapping.Json.Writer
import ChainMapping.Mapping.Compile
import ChainMapping.Moment
import ChainMapping.Registry.Error

/-!
# Deployments

A deployment is what is kept of a compiled mapping between processes: its chains, its overrides and
the role of every node, but no types.  Restoring it compiles the chains again and fails if a role
has changed since.  The generated names stay as they were deployed.
-/

namespace ChainMapping

structure DeployedCommand where
  id : String
  source : Option String
  target : String
  converter : Option String
  generatedType : String
  comparison : Option SizeComparison
  deriving DecidableEq, Repr

structure DeployedNode where
  side : Side
  path : String
  descriptor : Descriptor
  deriving DecidableEq, Repr

structure Deployment where
  id : String
  space : String
  sourceType : String
  targetType : String
  commands : List DeployedCommand
  overrides : List TypeOverride
  nodes : List DeployedNode
  deployedAt : Moment
  deriving DecidableEq, Repr

namespace Mapping

/-- The role of every node, source side first. -/
def nodeTable (m : Mapping) : List DeployedNode :=
  [Side.source, Side.target].flatMap fun side =>
    (m.tree side).summary.map fun (path, descriptor) => ⟨side, path, descriptor⟩

/-- The overrides of both sides, source side first. -/
def overrideTable (m : Mapping) : List TypeOverride :=
  [Side.source, Side.target].flatMap fun side =>
    (m.tree side).overrides.map fun (path, concrete) => ⟨side, path, concrete⟩

end Mapping

namespace DeployedCommand

def ofCommand (c : Command) : DeployedCommand where
  id := c.id
  source := c.source.map (·.chain.text)
  target := c.target.chain.text
  converter := c.converter
  generatedType := c.generatedType
  comparison := c.comparison

def script (c : DeployedCommand) : ScriptCommand where
  id := c.id
  source := c.source
  target := c.target
  converter := c.converter

open Document in
def ofDocument (d : Document) : Except ReadError DeployedCommand := do
  match ← record .json
    ["id", "from", "to", "converter", "generated_type", "collection_size_type"] d with
  | [id, source, target, converter, generatedType, comparison] =>
    return {
      id := ← required readText id
      source := ← optional readText source
      target := ← required readText target
      converter := ← optional readText converter
      generatedType := ← required readText generatedType
      comparison := ← optional (readWord .json SizeComparison.ofLabel?) comparison }
  | _ => throw ⟨"table expected"⟩

def document (c : DeployedCommand) : Document :=
  let maybe (key : String) (value : Option String) : List (String × Document) :=
    (value.map fun v => (key, Document.text v)).toList
  .table ([("id", .text c.id)] ++ maybe "from" c.source ++ [("to", .text c.target)]
    ++ maybe "converter" c.converter ++ [("generated_type", .text c.generatedType)]
    ++ maybe "collection_size_type" (c.comparison.map SizeComparison.label))

end DeployedCommand

namespace DeployedNode

open Document in
def ofDocument (d : Document) : Except ReadError DeployedNode := do
  match ← record .json ["side", "path", "descriptor"] d with
  | [side, path, descriptor] =>
    return {
      side := ← required (readWord .json Side.ofLabel?) side
      path := ← required readText path
      descriptor := ← required (readWord .json Descriptor.ofLabel?) descriptor }
  | _ => throw ⟨"table expected"⟩

def document (n : DeployedNode) : Document :=
  .table [("side", .text n.side.label), ("path", .text n.path),
    ("descriptor", .text n.descriptor.label)]

end DeployedNode

def TypeOverride.document (o : TypeOverride) : Document :=
  .table [("side", .text o.side.label), ("token_path", .text o.path),
    ("concrete_type", .text o.concrete)]

namespace Deployment

/-- The deployment of a mapping at a moment. -/
def ofMapping (m : Mapping) (deployedAt : Moment) : Deployment where
  id := m.id
  space := m.space
  sourceType := m.sourceTree.rootType.name
  targetType := m.targetTree.rootType.name
  commands := m.commands.map DeployedCommand.ofCommand
  overrides := m.overrideTable
  nodes := m.nodeTable
  deployedAt

def readMoment : Document → Except ReadError Moment
  | .text written =>
    match Moment.parse written with
    | some m => .ok m
    | none => .error ⟨"moment expected"⟩
  | _ => .error ⟨"moment expected"⟩

open Document in
def ofDocument (d : Document) : Except ReadError Deployment := do
  match ← record .json ["id", "namespace", "source_type", "target_type", "commands", "overrides",
    "nodes", "deployed_at"] d with
  | [id, space, sourceType, targetType, commands, overrides, nodes, deployedAt] =>
    return {
      id := ← required readText id
      space := ← required readText space
      sourceType := ← required readText sourceType
      targetType := ← required readText targetType
      commands := ← required (readList DeployedCommand.ofDocument) commands
      overrides := ← withDefault [] (readList (TypeOverride.ofDocument .json)) overrides
      nodes := ← required (readList DeployedNode.ofDocument) nodes
      deployedAt := ← required readMoment deployedAt }
  | _ => throw ⟨"table expected"⟩

def document (d : Deployment) : Document :=
  .table [("id", .text d.id), ("namespace", .text d.space), ("source_type", .text d.sourceType),
    ("target_type", .text d.targetType),
    ("commands", .list (d.commands.map DeployedCommand.document)),
    ("overrides", .list (d.overrides.map TypeOverride.document)),
    ("nodes", .list (d.nodes.map DeployedNode.document)),
    ("deployed_at", .text d.deployedAt.render)]

/-- Writes a deployment as indented JSON. -/
def toJson (d : Deployment) : String := Json.renderPretty d.document

/-- Reads a deployment. -/
def ofJson (text : String) : Except RegistryError Deployment :=
  (Json.read text >>= ofDocument).mapError fun e => .serialization e.reason

/-- The script that compiles to what was deployed. -/
def script (d : Deployment) : Script where
  id := d.id
  sourceType := d.sourceType
  targetType := d.targetType
  space := some d.space
  commands := d.commands.map DeployedCommand.script
  overrides := d.overrides

/-- The role that a table gives a node; the last entry of a node counts. -/
def role? (table : List DeployedNode) (side : Side) (path : String) : Option Descriptor :=
  (table.reverse.find? fun n => n.side = side ∧ n.path = path).map (·.descriptor)

/-- The first node of `rebuilt` that has another role in `deployed`, or none there. -/
def changed? (deployed rebuilt : List DeployedNode) : Option DeployedNode :=
  rebuilt.find? fun n => role? deployed n.side n.path ≠ role? rebuilt n.side n.path

/-- How the rebuilt nodes differ from the deployed ones. -/
def mismatch? (deployed rebuilt : List DeployedNode) : Option String :=
  match changed? deployed rebuilt with
  | some n => some s!"{n.side.label} node '{n.path}' is now {n.descriptor.label}"
  | none =>
    if deployed.all fun n => (role? rebuilt n.side n.path).isSome then none
    else some "deployed nodes are missing from the rebuilt tree"

/-- The commands of a mapping with the names they were deployed under. -/
def restoreNames (commands : List Command) (deployed : List DeployedCommand) : List Command :=
  commands.zipWith (fun c d => { c with generatedType := d.generatedType }) deployed

/-- Compiles a deployment anew, under default settings, and logs what that logs. -/
def rehydrate (d : Deployment) (i : Introspector) : Except RegistryError Mapping × List Event :=
  let (outcome, _) := Compiler.compile { introspector := i } d.script
  let result : Except RegistryError Mapping :=
    match outcome.mapping with
    | none => .error (.compilationFailed d.id outcome.failures)
    | some m =>
      match mismatch? d.nodes m.nodeTable with
      | some detail => .error (.rehydrationMismatch d.id detail)
      | none => .ok { m with commands := restoreNames m.commands d.commands }
  (result, outcome.log)

end Deployment
end ChainMapping
