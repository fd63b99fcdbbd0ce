import ChainMapping.ScriptFile.Compile

/-!
# Discovering scripts

A batch compiles the scripts of a directory.  Which of them are compiled, and in which order,
depends on their paths alone.
-/

namespace ChainMapping

/-- How a directory is compiled. -/
structure BatchOptions where
  /-- workers at the same time, within the limit on workers -/
  threads : Nat := 1
  /-- look into directories below the directory too -/
  recursive : Bool := true
  /-- scripts to compile at most, within the limit on files -/
  maxFiles : Option Nat := none
  /-- announce each script as it is compiled -/
  progress : Bool := false
  /-- compile no more scripts after one has failed -/
  failFast : Bool := false
  deriving DecidableEq, Repr

namespace BatchOptions

def fileLimit (o : BatchOptions) : Nat :=
  match o.maxFiles with
  | some limit => min limit Limits.filesPerBatch
  | none => Limits.filesPerBatch

def threadCount (o : BatchOptions) : Nat := min (max o.threads 1) Limits.workerThreads

end BatchOptions

inductive BatchError where
  | directoryNotFound (path : Path)
  | noScripts (path : Path)
  deriving DecidableEq, Repr

namespace BatchError

def message : BatchError → String
  | directoryNotFound path => s!"Directory not found: {path.text}"
  | noScripts path => s!"No mapping scripts found in directory: {path.text}"

def code : BatchError → Code
  | directoryNotFound _ => .fileNotFound
  | noScripts _ => .invalidExtension

end BatchError

/-- A script file that was found. -/
structure FoundScript where
  path : Path
  content : ByteArray

namespace FoundScript

/-- The scripts of a directory, in the order in which its files are met. -/
def inDirectory (recursive : Bool) (path : Path) (entries : List (String × Entry)) :
    List FoundScript :=
  let files :=
    if recursive then Entry.filesBelow path entries else Entry.filesIn path entries
  (files.filter (·.1.namesScript)).map fun (path, content) => ⟨path, content⟩

/-- Sorted by path. -/
def sort (scripts : List FoundScript) : List FoundScript :=
  scripts.mergeSort fun a b => (a.path.compare b.path).isLE

/-- The scripts that a batch compiles, in order, and what is logged.  The search ends with the
script that reaches the limit, so at least one script is found if there is any. -/
def discover (options : BatchOptions) (path : Path) (directory : Option Entry) :
    Except BatchError (List FoundScript) × List Event :=
  let start := (Event.info "Starting file discovery").withPairs
    [("directory", path.text), ("recursive", toString options.recursive)]
  match directory with
  | some (.directory entries) =>
    let found := inDirectory options.recursive path entries
    let limit := options.fileLimit
    let kept := found.take (max limit 1)
    if kept.isEmpty then (.error (.noScripts path), [start])
    else
      let reached :=
        if limit ≤ kept.length then
          [(Event.warning "Reached maximum file limit").withPairs
            [("files_found", toString kept.length), ("limit", toString limit)]]
        else []
      let done := (Event.success .operationCompletedSuccessfully
        "File discovery completed").withPairs
          [("files_found", toString kept.length), ("directory", path.text)]
      (.ok (sort kept), [start] ++ reached ++ [done])
  | _ => (.error (.directoryNotFound path), [start])

end FoundScript
end ChainMapping
