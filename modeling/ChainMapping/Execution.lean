import ChainMapping.Index.Object
import ChainMapping.Registry.Basic

/-!
# Executions

An execution prepares one run of a registered mapping: it indexes the source object, and the target
object when there is one to map onto, and gathers what generated code needs to know per command.
-/

namespace ChainMapping

/-- What generated code needs to know about a command. -/
structure CommandPlan where
  commandId : String
  generatedType : String
  converter : Option String
  comparison : Option SizeComparison
  deriving DecidableEq, Repr

structure Execution where
  mapping : Mapping
  sourceIndex : Option IndexNode
  targetIndex : Option IndexNode
  commands : List CommandPlan

namespace CommandPlan

def ofCommand (c : Command) : CommandPlan where
  commandId := c.id
  generatedType := c.generatedType
  converter := c.converter
  comparison := c.comparison

def document (p : CommandPlan) : Document :=
  .table [("command_id", .text p.commandId), ("generated_type", .text p.generatedType),
    ("converter", .ofOption .text p.converter),
    ("collection_size_type", .ofOption .text (p.comparison.map SizeComparison.label))]

end CommandPlan

namespace Execution

/-- The parts of an execution that do not depend on when it ran. -/
def members (e : Execution) (store : Store) : List (String × Document) :=
  [("mapping", .text e.mapping.id),
   ("source_index", .ofOption (IndexNode.document store) e.sourceIndex),
   ("target_index", .ofOption (IndexNode.document store) e.targetIndex),
   ("commands", .list (e.commands.map CommandPlan.document))]

/-- The execution as a document, with its own id and its time. -/
def document (e : Execution) (store : Store) (executionId startedAt : String) : Document :=
  .table ([("execution_id", Document.text executionId), ("started_at", .text startedAt)]
    ++ e.members store)

/-- Indexes both sides, the source first. -/
def indexSides (settings : IndexerSettings) (store : Store) (m : Mapping) (source : Value)
    (target : Option Value) : Except ExecutionError Execution × List Event :=
  match Index.object settings store m .source source with
  | (.error e, log) => (.error e, log)
  | (.ok sourceIndex, log) =>
    let finish (targetIndex : Option IndexNode) : Execution :=
      ⟨m, sourceIndex, targetIndex, m.commands.map CommandPlan.ofCommand⟩
    match target with
    | none => (.ok (finish none), log)
    | some target =>
      match Index.object settings store m .target target with
      | (.error e, more) => (.error e, log ++ more)
      | (.ok targetIndex, more) => (.ok (finish targetIndex), log ++ more)

/-- Executes a mapping of a snapshot. -/
def run (snapshot : Snapshot) (settings : IndexerSettings) (store : Store)
    (executionId mappingId : String) (source : Value) (target : Option Value) :
    Except ExecutionError Execution × List Event :=
  let facts := [("mapping", mappingId), ("execution", executionId)]
  match snapshot.get? mappingId with
  | none =>
    let error := ExecutionError.unknownMapping mappingId
    (.error error, [(Event.error error.code "Mapping not registered").withPairs facts])
  | some m =>
    let (result, log) := indexSides settings store m source target
    (result, (Event.info "Executing mapping").withPairs facts :: log)

end Execution
end ChainMapping
