import ChainMapping.Batch.Basic
import ChainMapping.Program.Arguments
import ChainMapping.Program.Console
import ChainMapping.Registry.Deployment
import ChainMapping.Schema.Load
import ChainMapping.Word

/-!
# The compiler as a program

The program compiles one script, or all scripts of a directory, against a schema.
-/

namespace ChainMapping

/-- What the arguments of the compiler ask for. -/
structure CompileRequest where
  input : Path
  schema : Path
  json : Bool
  batch : BatchOptions
  deriving DecidableEq, Repr

namespace CompileRequest

/-- The largest number of threads that can be asked for. -/
def mostThreads : Nat := 65535

def threads? (text : String) : Option Nat :=
  (Arguments.number? mostThreads text).filter (1 ≤ ·)

def rules : List OptionRule :=
  [{ name := "schema", accepts := some Arguments.isPath },
   { name := "sequential" },
   { name := "threads", accepts := some fun text => (threads? text).isSome },
   { name := "no-recursive" },
   { name := "max-files", accepts := some fun text => (Arguments.number? Word.max text).isSome },
   { name := "fail-fast" },
   { name := "progress" },
   { name := "json" }]

def usage : String :=
  "Compile object-to-object mapping scripts into command trees\n\n" ++
  "Usage: otc_compiler [OPTIONS] --schema <SCHEMA> <INPUT>\n\n" ++
  "Arguments:\n" ++
  "  <INPUT>  Mapping script (.otc.toml) or a directory of scripts\n\n" ++
  "Options:\n" ++
  "      --schema <SCHEMA>        Type schema (.toml or .json)\n" ++
  "      --sequential             Compile a directory on the calling thread only\n" ++
  "      --threads <THREADS>      Worker threads for directory compilation " ++
  "(default: available cores)\n" ++
  "      --no-recursive           Only compile scripts directly inside the directory\n" ++
  "      --max-files <MAX_FILES>  Stop compiling after this many scripts\n" ++
  "      --fail-fast              Stop at the first script that fails\n" ++
  "      --progress               Print each script as it is compiled\n" ++
  "      --json                   Print deployments and reports as JSON\n" ++
  "  -h, --help                   Print help\n" ++
  "  -V, --version                Print version"

/-- Reads the arguments.  Without a number of threads there are as many as the machine runs at
once. -/
def parse (cores : Nat) (args : List String) : Except Interruption CompileRequest := do
  let a ← Arguments.scan rules {} args
  let input ← Arguments.required "<INPUT>" a.input
  let schema ← Arguments.required "--schema <SCHEMA>" (a.value? "schema")
  let asked := (a.value? "threads").bind threads?
  if a.hasFlag "sequential" && asked.isSome then
    throw (.invalid "the argument '--sequential' cannot be used with '--threads <THREADS>'")
  return {
    input := ⟨input⟩
    schema := ⟨schema⟩
    json := a.hasFlag "json"
    batch := {
      threads := if a.hasFlag "sequential" then 1 else asked.getD cores
      recursive := !a.hasFlag "no-recursive"
      maxFiles := (a.value? "max-files").bind (Arguments.number? Word.max)
      progress := a.hasFlag "progress"
      failFast := a.hasFlag "fail-fast" } }

/-- The paths that a run looks at. -/
def paths (r : CompileRequest) : List Path := [r.input, r.schema]

end CompileRequest

/-- Reports as indented JSON. -/
def Report.listJson (reports : List Report) (now : Moment) : String :=
  Json.renderPretty (.list (reports.map (·.document now.render)))

namespace Session

/-- The failures among reports, with their causes. -/
def complainReports (reports : List Report) : Session Unit :=
  reports.forM fun r => do
    if !r.success then
      complain s!"  {r.format}"
      if let some cause := r.cause then complain s!"    cause: {cause}"

/-- Compiles one script; true if it compiled. -/
def compileFile (s : Surroundings) (c : Compiler) (path : Path) (json : Bool) : Session Bool := do
  let (result, actions, _) := c.compileFile 0 path (s.files path).toOption s.elapsed
  log actions
  match result with
  | .ok file =>
    let m := file.mapping
    if json then say (Deployment.ofMapping m s.now).toJson
    else
      say s!"Compiled {m.id} ({m.commands.length} commands, {m.nodeCount} nodes)"
      complainReports file.reports
  | .error error =>
    if json then say (Report.listJson error.reports s.now)
    else
      complain s!"FAILED: {error.message}"
      complainReports error.reports
  if !json then sayDiagnostics
  return result.isOk

/-- How many compiled scripts are listed one by one. -/
def listedScripts : Nat := 10

/-- Shows what a batch came to. -/
def sayResults (outcome : Batch.Outcome) (elapsed : Elapsed) : Session Unit := do
  let results := outcome.results
  say (results.summary outcome.found elapsed)
  results.failed.forM fun (path, error) => do
    say s!"  FAILED {path.text}: [{error.code.text}] {error.message}"
    complainReports error.reports
  (results.compiled.take listedScripts).forM fun (path, file) => do
    let m := file.mapping
    say s!"  ok     {path.text}: {m.id} ({m.commands.length} commands, {m.nodeCount} nodes)"
  let count := results.compiled.length
  if listedScripts < count then say s!"  ... and {count - listedScripts} more"

/-- Compiles a directory; true if every script compiled. -/
def compileDirectory (s : Surroundings) (c : Compiler) (request : CompileRequest) :
    Session Bool := do
  let (result, actions) :=
    Batch.run request.batch s.elapsed c request.input (s.files request.input).toOption
  log actions
  match result with
  | .error error =>
    complain s!"error[{error.code.text}]: {error.message}"
    return false
  | .ok outcome =>
    let results := outcome.results
    if request.json then
      let reports := results.compiled.flatMap (·.2.reports)
        ++ results.failed.flatMap (·.2.reports)
      say (Report.listJson reports s.now)
    else
      sayResults outcome s.elapsed
      sayDiagnostics
    return results.failed.isEmpty

/-- Does what was asked for; true if all went well. -/
def compile (s : Surroundings) (settings : Settings) (request : CompileRequest) :
    Session Bool := do
  match Schema.load s.files request.schema with
  | .error error =>
    complain s!"error: could not load schema {request.schema.text}: {error.message}"
    return false
  | .ok schema =>
    let c : Compiler :=
      { introspector := schema.introspector
        grammar := settings.grammar
        resolution := settings.resolution }
    let entry := (s.files request.input).toOption
    if entry.any Entry.isDirectory then compileDirectory s c request
    else if isScriptFile request.input entry then compileFile s c request.input request.json
    else
      complain (s!"error: {request.input.text} is neither a mapping script "
        ++ s!"(*{scriptExtension}) nor a directory")
      return false

/-- Answers a run that ends with the arguments. -/
def interrupted (name usage : String) : Interruption → Session Nat
  | .help => do say usage; return 0
  | .version => do say s!"{name} 0.1.0"; return 0
  | .invalid reason => do complain s!"error: {reason}"; return 2

end Session

/-- The compiler. -/
def compilerProgram (s : Surroundings) (args : List String) : Output :=
  let settings := Settings.ofEnvironment s.environment
  Session.run s settings.logging (do
    match CompileRequest.parse s.cores args with
    | .error interruption =>
      Session.interrupted "otc_compiler" CompileRequest.usage interruption
    | .ok request => return if ← Session.compile s settings request then 0 else 1)

end ChainMapping
