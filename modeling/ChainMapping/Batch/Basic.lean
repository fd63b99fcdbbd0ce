import ChainMapping.Batch.Discovery
import ChainMapping.Registry.Basic

/-!
# Batches

The scripts of a directory are compiled one after the other by one compiler, or in chunks by several
workers.  A worker has a compiler of its own, so the names its mappings were given may clash with
those of another worker; when all are done the names are drawn again in the order of the scripts.
-/

namespace ChainMapping

/-- What compiling scripts came to. -/
structure BatchResults where
  compiled : List (Path × CompiledFile) := []
  failed : List (Path × ScriptFileError) := []

namespace BatchResults

/-- The result of one script. -/
def single (path : Path) : Except ScriptFileError CompiledFile → BatchResults
  | .ok file => { compiled := [(path, file)] }
  | .error error => { failed := [(path, error)] }

/-- The results of some scripts, then those of others. -/
def append (r s : BatchResults) : BatchResults :=
  ⟨r.compiled ++ s.compiled, r.failed ++ s.failed⟩

/-- The number of scripts that were compiled, whatever came of it. -/
def attempted (r : BatchResults) : Nat := r.compiled.length + r.failed.length

/-- Draws the names of the compiled mappings again, in order. -/
def renameFiles : List (Path × CompiledFile) → Naming.Registry → List (Path × CompiledFile)
  | [], _ => []
  | (path, file) :: rest, names =>
    let (mapping, names) := file.mapping.assignNames names
    (path, { file with mapping }) :: renameFiles rest names

def assignNames (r : BatchResults) : BatchResults :=
  { r with compiled := renameFiles r.compiled {} }

/-- Adds every compiled mapping to a registry; those it refuses are reported. -/
def register (r : BatchResults) (builder : RegistryBuilder) :
    List RegistryError × RegistryBuilder :=
  r.compiled.foldl (fun (errors, builder) (_, file) =>
    match builder.addCompiled file.mapping with
    | (.ok (), builder) => (errors, builder)
    | (.error error, builder) => (errors ++ [error], builder)) ([], builder)

/-- The results on one line, for `found` scripts. -/
def summary (r : BatchResults) (found : Nat) (elapsed : Elapsed) : String :=
  s!"{r.compiled.length} of {found} script(s) compiled, "
    ++ s!"{r.failed.length} failed in {elapsed.secondsText}s"

/-- Logged when a batch is done. -/
def completion (r : BatchResults) (message : String) (threads : Nat) (elapsed : Elapsed) : Event :=
  (Event.success .operationCompletedSuccessfully message).withPairs
    [("attempted", toString r.attempted), ("compiled", toString r.compiled.length),
     ("failed", toString r.failed.length), ("threads_used", toString threads),
     ("elapsed_ms", toString elapsed.milliseconds)]

end BatchResults

/-- Lists of `size` items each, the last one perhaps shorter; a size of 0 counts as 1. -/
def chunksOf {α : Type} (size : Nat) : List α → List (List α)
  | [] => []
  | a :: rest => (a :: rest.take (size - 1)) :: chunksOf size (rest.drop (size - 1))
termination_by l => l.length
decreasing_by
  simp only [List.length_drop, List.length_cons]
  omega

namespace Batch

/-- Logged when a failure ends a batch. -/
def stopEvent : Event := .warning "Fail-fast mode enabled, stopping batch compilation"

/-- Compiles one script. -/
def compileScript (c : Compiler) (id : Nat) (script : FoundScript) (elapsed : Elapsed) :
    Except ScriptFileError CompiledFile × List LogAction × Compiler :=
  c.compileFile id script.path (some (.file script.content)) elapsed

/-- Compiles scripts one after the other with one compiler, numbered from `id` out of `total`. -/
def compileInOrder (options : BatchOptions) (total : Nat) (elapsed : Elapsed) (c : Compiler)
    (id : Nat) : List FoundScript → BatchResults × List LogAction
  | [] => ({}, [])
  | script :: rest =>
    let progress : List LogAction :=
      if options.progress then
        [.announce s!"Compiling file {id + 1} of {total}: {script.path.text}"]
      else []
    let (result, log, c) := compileScript c id script elapsed
    let here := BatchResults.single script.path result
    if options.failFast && !here.failed.isEmpty then
      (here, progress ++ log ++ [.record stopEvent])
    else
      let (results, more) := compileInOrder options total elapsed c (id + 1) rest
      (here.append results, progress ++ log ++ more)

/-- The work of one worker: its scripts, all of them, with a compiler of its own. -/
def work (elapsed : Elapsed) (c : Compiler) (id : Nat) (scripts : List FoundScript) :
    BatchResults × List LogAction :=
  compileInOrder {} 0 elapsed c id scripts

/-- Scripts per chunk: as many as spread the scripts over the workers, at most 50. -/
def chunkSize (scripts threads : Nat) : Nat :=
  min (max ((scripts + threads - 1) / threads) 1) 50

/-- Scripts per worker of a chunk. -/
def share (threads : Nat) (chunk : List FoundScript) : Nat :=
  max ((chunk.length + threads - 1) / threads) 1

/-- The scripts of each worker of a chunk. -/
def workerSlices (threads : Nat) (chunk : List FoundScript) : List (List FoundScript) :=
  chunksOf (share threads chunk) chunk

/-- The workers of a chunk from the given one on, whose results are put together in the order of the
scripts.  `first` is the number of the first script of the chunk; each worker before this one has
`share` scripts. -/
def runWorkers (elapsed : Elapsed) (c : Compiler) (first share worker : Nat) :
    List (List FoundScript) → BatchResults × List LogAction
  | [] => ({}, [])
  | slice :: rest =>
    let (results, log) := work elapsed c.fresh (first + worker * share) slice
    let (others, more) := runWorkers elapsed c first share (worker + 1) rest
    (results.append others, log ++ more)

/-- One chunk after the other, from the given one on; each chunk before it has `size` scripts.  A
failure ends the batch at the end of its chunk. -/
def runChunks (options : BatchOptions) (elapsed : Elapsed) (c : Compiler) (size index : Nat) :
    List (List FoundScript) → BatchResults × List LogAction
  | [] => ({}, [])
  | chunk :: rest =>
    let threads := options.threadCount
    let (results, log) := runWorkers elapsed c (index * size) (share threads chunk) 0
      (workerSlices threads chunk)
    if options.failFast && !results.failed.isEmpty then (results, log ++ [.record stopEvent])
    else
      let (others, more) := runChunks options elapsed c size (index + 1) rest
      (results.append others, log ++ more)

/-- All scripts on one thread. -/
def compileSequentially (options : BatchOptions) (elapsed : Elapsed) (c : Compiler)
    (scripts : List FoundScript) : BatchResults × List LogAction :=
  let (results, log) := compileInOrder options scripts.length elapsed c.fresh 0 scripts
  let done := results.completion "Sequential batch compilation completed" 1 elapsed
  (results, log ++ [.record done])

/-- All scripts on several threads. -/
def compileInParallel (options : BatchOptions) (elapsed : Elapsed) (c : Compiler)
    (scripts : List FoundScript) : BatchResults × List LogAction :=
  let threads := options.threadCount
  let size := chunkSize scripts.length threads
  let plan := (Event.debug "Parallel compilation configuration").withPairs
    [("total_files", toString scripts.length), ("chunk_size", toString size),
     ("threads", toString threads)]
  let (results, log) := runChunks options elapsed c size 0 (chunksOf size scripts)
  let results := results.assignNames
  let done := results.completion "Parallel batch compilation completed" threads elapsed
  (results, [.record plan] ++ log ++ [.record done])

/-- What a batch came to, with the number of scripts it found. -/
structure Outcome where
  found : Nat
  results : BatchResults

/-- Compiles the scripts of a directory. -/
def run (options : BatchOptions) (elapsed : Elapsed) (c : Compiler) (path : Path)
    (directory : Option Entry) : Except BatchError Outcome × List LogAction :=
  let threads := options.threadCount
  let start :=
    if threads = 1 then
      (Event.info "Starting sequential batch compilation").withPair "directory" path.text
    else
      (Event.info "Starting parallel batch compilation").withPairs
        [("directory", path.text), ("max_threads", toString threads)]
  let (found, events) := FoundScript.discover options path directory
  let log := (start :: events).map LogAction.record
  match found with
  | .error error => (.error error, log)
  | .ok scripts =>
    let compile := if threads = 1 then compileSequentially else compileInParallel
    let (results, more) := compile options elapsed c scripts
    (.ok ⟨scripts.length, results⟩, log ++ more)

end Batch
end ChainMapping
