import ChainMapping.Execution
import ChainMapping.Inspect.Diagnosis
import ChainMapping.Json.Reader
import ChainMapping.Program.Compiling
import ChainMapping.Value.Conversion

/-!
# The indexer as a program

The program compiles one script, loads a source object and perhaps a target object from JSON, and
shows the indexes built for them.
-/

namespace ChainMapping

/-- What the arguments of the indexer ask for. -/
structure IndexRequest where
  script : Path
  schema : Path
  source : Path
  target : Option Path
  json : Bool
  deriving DecidableEq, Repr

namespace IndexRequest

def rules : List OptionRule :=
  [{ name := "schema", accepts := some Arguments.isPath },
   { name := "source", accepts := some Arguments.isPath },
   { name := "target", accepts := some Arguments.isPath },
   { name := "json" }]

def usage : String :=
  "Index objects along compiled OTC chains\n\n" ++
  "Usage: otc_index [OPTIONS] --schema <SCHEMA> --source <SOURCE> <SCRIPT>\n\n" ++
  "Arguments:\n" ++
  "  <SCRIPT>  Mapping script (.otc.toml)\n\n" ++
  "Options:\n" ++
  "      --schema <SCHEMA>  Type schema (.toml or .json)\n" ++
  "      --source <SOURCE>  Source object as JSON\n" ++
  "      --target <TARGET>  Existing target object as JSON\n" ++
  "      --json             Print the execution as JSON\n" ++
  "  -h, --help             Print help\n" ++
  "  -V, --version          Print version"

def parse (args : List String) : Except Interruption IndexRequest := do
  let a ← Arguments.scan rules {} args
  let script ← Arguments.required "<SCRIPT>" a.input
  let schema ← Arguments.required "--schema <SCHEMA>" (a.value? "schema")
  let source ← Arguments.required "--source <SOURCE>" (a.value? "source")
  return {
    script := ⟨script⟩
    schema := ⟨schema⟩
    source := ⟨source⟩
    target := (a.value? "target").map Path.mk
    json := a.hasFlag "json" }

/-- The paths that a run looks at. -/
def paths (r : IndexRequest) : List Path :=
  [r.script, r.schema, r.source] ++ r.target.toList

end IndexRequest

namespace IndexNode

mutual

/-- A tree with one node a line, indented by depth. -/
def lines (store : Store) (depth : Nat) : IndexNode → List String
  | ⟨id, value, children⟩ =>
    (Text.repeated depth "  " ++ s!"{id} = {Json.render (store.summary value)}")
      :: linesOf store (depth + 1) children

def linesOf (store : Store) (depth : Nat) : List IndexNode → List String
  | [] => []
  | n :: rest => n.lines store depth ++ linesOf store depth rest

end

end IndexNode

/-- Why there is no object in a file. -/
inductive ObjectError where
  | unreadable (fault : FileFault)
  | malformed (error : ReadError)
  /-- the document does not fit the type -/
  | unfit (error : IndexingError)
  deriving DecidableEq, Repr

def ObjectError.diagnosis : ObjectError → String
  | unreadable fault => fault.diagnosis
  | malformed error => Text.escaped error.reason
  | unfit error => error.diagnosis

/-- An object from a JSON file. -/
def loadObject (files : Files) (schema : Schema) (path : Path) (declared : TypeRef)
    (store : Store) : Except ObjectError (Value × Store) := do
  let text ← (files.text path).mapError .unreadable
  let document ← (Json.readPlain text).mapError .malformed
  (Value.ofDocument schema document declared store).mapError .unfit

namespace Session

/-- Loads an object and logs that it was loaded. -/
def load (files : Files) (schema : Schema) (path : Path) (declared : TypeRef) (store : Store) :
    Session (Except ObjectError (Value × Store)) := do
  let result := loadObject files schema path declared store
  if result.isOk then
    log [.record ((Event.info "Object loaded").withPairs
      [("file", path.text), ("type", declared.display)])]
  return result

/-- Loads the source and, if there is one, the target. -/
def loadBoth (files : Files) (schema : Schema) (m : Mapping) (request : IndexRequest) :
    Session (Except ObjectError (Value × Option Value × Store)) := do
  match ← load files schema request.source m.sourceTree.rootType {} with
  | .error error => return .error error
  | .ok (source, store) =>
    match request.target with
    | none => return .ok (source, none, store)
    | some path =>
      match ← load files schema path m.targetTree.rootType store with
      | .error error => return .error error
      | .ok (target, store) => return .ok (source, some target, store)

/-- Shows the index of one side. -/
def sayIndex (store : Store) (side : Side) : Option IndexNode → Session Unit
  | some root => do
    say s!"\n{side.label} index ({root.nodeCount} nodes):"
    (root.lines store 1).forM say
  | none => say s!"\n{side.label} index: nothing to index"

/-- Shows an execution. -/
def sayExecution (e : Execution) (store : Store) (executionId : String) : Session Unit := do
  say s!"Mapping {e.mapping.id} (execution {executionId})"
  sayIndex store .source e.sourceIndex
  sayIndex store .target e.targetIndex
  say "\nCommands:"
  e.commands.forM fun plan => do
    let size := (plan.comparison.map SizeComparison.label).getD "-"
    say s!"  {plan.commandId} -> {plan.generatedType} [{size}]"

/-- Executes a mapping for the objects that were asked for; answers the exit code. -/
def execute (s : Surroundings) (settings : IndexerSettings) (schema : Schema) (m : Mapping)
    (request : IndexRequest) : Session Nat := do
  let snapshot : Snapshot := { mappings := [m] }
  log [.record snapshot.loadedEvent]
  match ← loadBoth s.files schema m request with
  | .error error =>
    complain s!"Error: {error.diagnosis}"
    return 1
  | .ok (source, target, store) =>
    let (result, events) :=
      Execution.run snapshot settings store s.executionId m.id source target
    log (events.map .record)
    match result with
    | .error error =>
      complain s!"FAILED [{error.code.text}]: {error.message}"
      sayDiagnostics
      return 1
    | .ok e =>
      if request.json then
        say (Json.renderPretty (e.document store s.executionId s.now.render).sorted)
      else
        sayExecution e store s.executionId
        sayDiagnostics
      return 0

/-- Does what was asked for; answers the exit code. -/
def index (s : Surroundings) (settings : Settings) (request : IndexRequest) : Session Nat := do
  match Schema.load s.files request.schema with
  | .error error =>
    complain s!"Error: {error.diagnosis}"
    return 1
  | .ok schema =>
    let c : Compiler :=
      { introspector := schema.introspector
        grammar := settings.grammar
        resolution := settings.resolution }
    let entry := (s.files request.script).toOption
    let (result, actions, _) := c.compileFile 0 request.script entry s.elapsed
    log actions
    match result with
    | .ok file => execute s settings.indexer schema file.mapping request
    | .error error =>
      complain s!"FAILED: {error.message}"
      (error.reports.filter (!·.success)).forM fun r => complain s!"  {r.format}"
      sayDiagnostics
      return 1

end Session

/-- The indexer. -/
def indexerProgram (s : Surroundings) (args : List String) : Output :=
  let settings := Settings.ofEnvironment s.environment
  Session.run s settings.logging (do
    match IndexRequest.parse args with
    | .error interruption => Session.interrupted "otc_index" IndexRequest.usage interruption
    | .ok request => Session.index s settings request)

end ChainMapping
