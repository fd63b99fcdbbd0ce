import ChainMapping.Comparison
import ChainMapping.Naming
import ChainMapping.Tree.Resolve

/-!
# Mappings

A mapping is a script whose chains have all been resolved: one tree per side, and the commands with
their chains and the nodes these end at.
-/

namespace ChainMapping

/-- A chain with the node it ends at. -/
structure ResolvedChain where
  chain : Chain
  leaf : Nat
  deriving DecidableEq, Repr

structure Command where
  id : String
  source : Option ResolvedChain
  target : ResolvedChain
  converter : Option String
  /-- absent without a source chain -/
  comparison : Option SizeComparison
  /-- the name of the type generated for the command -/
  generatedType : String
  deriving DecidableEq, Repr

structure Mapping where
  id : String
  /-- the namespace of the generated names -/
  space : String
  sourceTree : Tree
  targetTree : Tree
  commands : List Command
  deriving DecidableEq, Repr

namespace Mapping

def tree (m : Mapping) : Side → Tree
  | .source => m.sourceTree
  | .target => m.targetTree

/-- The number of nodes on both sides. -/
def nodeCount (m : Mapping) : Nat := m.sourceTree.size + m.targetTree.size

def command? (m : Mapping) (id : String) : Option Command := m.commands.find? (·.id == id)

/-- The chains of one side in the order of the commands. -/
def chains (m : Mapping) (side : Side) : List Chain :=
  m.commands.filterMap fun c =>
    match side with
    | .source => c.source.map (·.chain)
    | .target => some c.target.chain

/-- How the two chains of a command compare in the trees they were resolved in. -/
def compareChains (sourceTree targetTree : Tree) (source target : Chain) :
    Option SizeComparison := do
  let source ← Cursor.atFirst? sourceTree source
  let target ← Cursor.atFirst? targetTree target
  return SizeComparison.initial source target

/-- Comparison of a command as the trees stand, none without a source chain. -/
def comparison? (m : Mapping) (c : Command) : Option SizeComparison := do
  compareChains m.sourceTree m.targetTree (← c.source).chain c.target.chain

/-- What the generated names of a mapping begin with. -/
def nameSpace (space id : String) : String := space ++ "." ++ id

/-- Draws one name per command, in order. -/
def nameCommands (space : String) :
    List Command → Naming.Registry → List Command × Naming.Registry
  | [], names => ([], names)
  | c :: rest, names =>
    let (name, names) := names.synthesize space c.target.chain.text
    let (rest, names) := nameCommands space rest names
    ({ c with generatedType := name } :: rest, names)

/-- Gives every command its generated name. -/
def assignNames (m : Mapping) (names : Naming.Registry) : Mapping × Naming.Registry :=
  let (commands, names) := nameCommands (nameSpace m.space m.id) m.commands names
  ({ m with commands }, names)

end Mapping
end ChainMapping
