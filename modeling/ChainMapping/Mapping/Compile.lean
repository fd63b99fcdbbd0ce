import ChainMapping.Mapping.Basic
import ChainMapping.Mapping.Report
import ChainMapping.Script
import ChainMapping.Settings
import ChainMapping.Tree.Log

/-!
# Compiling scripts

All chains of a script are resolved into one tree per side.  A chain that fails is reported and the
others go on, unless the settings say to stop.  There is a mapping exactly if nothing failed, and
only then are generated names drawn.
-/

namespace ChainMapping

/-- A compiler of scripts: its source of type information, its settings and the names it has handed
out so far. -/
structure Compiler where
  introspector : Introspector
  grammar : GrammarSettings := {}
  resolution : ResolutionSettings := {}
  names : Naming.Registry := {}

/-- What compiling a script came to. -/
structure Compilation where
  mapping : Option Mapping
  reports : List Report
  log : List Event

namespace Compilation

def failures (c : Compilation) : Nat := failureCount c.reports

/-- A script that is turned down before any chain is looked at. -/
def rejected (report : Report) : Compilation := ⟨none, [report], []⟩

end Compilation

namespace Script

/-- A letter or an underscore, then letters, digits and underscores. -/
def isIdentifier (text : String) : Bool :=
  match text.toList with
  | [] => false
  | c :: rest =>
    (Text.isLetter c || c = '_')
      && rest.all fun c => Text.isLetter c || Text.isDigit c || c = '_'

/-- The first id of the script that is not an identifier. -/
def invalidId? (s : Script) : Option String :=
  (s.id :: s.commands.map (·.id)).find? fun id => !isIdentifier id

/-- Why the script is turned down as a whole, before its types are looked at. -/
def fault? (s : Script) (grammar : GrammarSettings) : Option Report :=
  match if grammar.strictIdentifiers then s.invalidId? else none with
  | some id =>
    some (.failure s.id .unreadableScript s!"'{id}' is not a valid identifier")
  | none =>
    if Limits.commandsPerMapping < s.commands.length then
      some (.failure s.id .limitExceeded
        (s!"{s.commands.length} commands exceed the limit of "
          ++ s!"{Limits.commandsPerMapping}"))
    else none

/-- The types at the two roots. -/
def rootTypes (s : Script) (i : Introspector) : Except TypeError (TypeRef × TypeRef) := do
  let source ← i.typeRef s.sourceType
  let target ← i.typeRef s.targetType
  return (source, target)

/-- The empty tree of one side, with the overrides of the script. -/
def emptyTree (s : Script) (side : Side) (root : TypeRef) : Tree :=
  { side, rootType := root
    overrides := Ordered.ofList ((s.overridesFor side).map fun o => (o.path, o.concrete)) }

end Script

/-- A command both of whose chains have been resolved. -/
structure ResolvedCommand where
  script : ScriptCommand
  source : Option ResolvedChain
  target : ResolvedChain

/-- What going through commands came to. -/
structure Resolved where
  sourceTree : Tree
  targetTree : Tree
  commands : List ResolvedCommand := []
  reports : List Report := []
  log : List Event := []

/-- What resolving one chain of a command came to. -/
structure ChainResult where
  tree : Tree
  resolved : Option ResolvedChain
  reports : List Report
  log : List Event

namespace Compiler

/-- Resolves one chain of a command.  A failure is logged and reported. -/
def resolveChain (c : Compiler) (mappingId commandId : String) (tree : Tree) (chain : String) :
    ChainResult :=
  let r := tree.resolveText c.introspector chain
  let log := r.events c.resolution.logNodeCreation
  match r.outcome with
  | .ok (chain, leaf) => ⟨r.tree, some ⟨chain, leaf⟩, [], log⟩
  | .error error =>
    let event := (Event.error error.code "Chain failed to compile").withPairs
      [("mapping", mappingId), ("command", commandId), ("side", tree.side.label),
       ("chain", chain), ("error", error.message)]
    ⟨r.tree, none, [.chainFailure mappingId commandId tree.side chain error], log ++ [event]⟩

/-- The source chain of a command, if it has one. -/
def resolveSource (c : Compiler) (mappingId commandId : String) (tree : Tree) :
    Option String → ChainResult
  | some chain => c.resolveChain mappingId commandId tree chain
  | none => ⟨tree, none, [], []⟩

/-- Goes through the commands of a script in order; `seen` are the ids met before. -/
def resolveCommands (c : Compiler) (mappingId : String) (sourceTree targetTree : Tree)
    (seen : List String) : List ScriptCommand → Resolved
  | [] => { sourceTree, targetTree }
  | command :: rest =>
    if seen.contains command.id then
      let report := (Report.failure mappingId .duplicateCommand
        s!"command '{command.id}' is declared more than once").withCommand command.id
      let after := c.resolveCommands mappingId sourceTree targetTree seen rest
      { after with reports := report :: after.reports }
    else
      let source := c.resolveSource mappingId command.id sourceTree command.source
      let target := c.resolveChain mappingId command.id targetTree command.target
      let reports := source.reports ++ target.reports
      let log := source.log ++ target.log
      if reports.isEmpty || c.resolution.continueAfterChainError then
        let after :=
          c.resolveCommands mappingId source.tree target.tree (command.id :: seen) rest
        let resolved := match reports.isEmpty, target.resolved with
          | true, some t => [⟨command, source.resolved, t⟩]
          | _, _ => []
        { after with
          commands := resolved ++ after.commands
          reports := reports ++ after.reports
          log := log ++ after.log }
      else { sourceTree := source.tree, targetTree := target.tree, reports, log }

/-- A resolved command before it has its generated name. -/
def command (sourceTree targetTree : Tree) (r : ResolvedCommand) : Command where
  id := r.script.id
  source := r.source
  target := r.target
  converter := r.script.converter
  comparison := r.source.bind fun s =>
    Mapping.compareChains sourceTree targetTree s.chain r.target.chain
  generatedType := ""

/-- The mapping of a script whose commands have all been resolved. -/
def finish (c : Compiler) (script : Script) (r : Resolved) : Compilation × Compiler :=
  if r.reports.isEmpty then
    let commands := r.commands.map (command r.sourceTree r.targetTree)
    let unnamed : Mapping :=
      { id := script.id
        space := script.space.getD c.grammar.defaultNamespace
        sourceTree := r.sourceTree
        targetTree := r.targetTree
        commands }
    let event := (Event.success .mappingCompiled "Mapping compiled").withPairs
      [("mapping", script.id), ("commands", toString commands.length),
       ("source_nodes", toString r.sourceTree.size), ("target_nodes", toString r.targetTree.size)]
    let (mapping, names) := unnamed.assignNames c.names
    (⟨some mapping, [.ok script.id s!"compiled {commands.length} command(s)"], r.log ++ [event]⟩,
      { c with names })
  else
    let event := (Event.warning "Mapping not compiled").withPairs
      [("mapping", script.id), ("failures", toString (failureCount r.reports))]
    (⟨none, r.reports, r.log ++ [event]⟩, c)

/-- Compiles a script.  The compiler remembers the names it drew. -/
def compile (c : Compiler) (script : Script) : Compilation × Compiler :=
  match script.fault? c.grammar with
  | some report => (.rejected report, c)
  | none =>
    match script.rootTypes c.introspector with
    | .error e => (.rejected (.failure script.id e.code e.message), c)
    | .ok (source, target) =>
      c.finish script (c.resolveCommands script.id (script.emptyTree .source source)
        (script.emptyTree .target target) [] script.commands)

end Compiler
end ChainMapping
