import ChainMapping.Program.Indexing
import Std.Time.DateTime.Timestamp

/-!
# The command line

The first argument names the program, the compiler or the indexer, and the others are its
arguments.  Everything a program may look at is read here and handed to it as a value.
-/

namespace ChainMapping

/-- The fault that the system reports for a path. -/
def FileFault.ofError : IO.Error → FileFault
  | .inappropriateType .. => notDirectory
  | .invalidArgument .. => nameTooLong
  | _ => missing

/-- Reads what stands at a path.  Below a directory only scripts count, and links to directories are
not followed. -/
partial def readEntry (path : Path) : IO (Except FileFault Entry) := do
  let place := (← IO.currentDir) / path.text
  match ← place.metadata.toBaseIO with
  | .error e => return .error (.ofError e)
  | .ok data =>
    if data.type != .dir then return .ok (.file (← IO.FS.readBinFile place))
    let mut entry := Entry.directory []
    for child in ← place.readDir do
      let childPath := path.join child.fileName
      let linked := (← child.path.symlinkMetadata).type == .symlink
      let isDirectory ← child.path.isDir
      if (isDirectory && !linked) || (!isDirectory && childPath.namesScript) then
        if let .ok below ← readEntry childPath then
          entry := Entry.change (fun _ => below) [child.fileName] (some entry)
    return .ok entry

/-- Reads everything that a run looks at. -/
def readFiles (paths : List Path) : IO Files := do
  let entries ← paths.mapM fun path => return (path.text, ← readEntry path)
  return fun path => (entries.lookup path.text).getD (.error .missing)

/-- An id made of sixteen random bytes, marked as such. -/
def randomId (bytes : List UInt8) : String :=
  let digits := (bytes.flatMap fun byte => (Text.hexPadded 2 byte.toNat).toList)
  let marked := (digits.set 12 '4').set 16 '8'
  let part (start length : Nat) : String := String.ofList ((marked.drop start).take length)
  Text.join "-" [part 0 8, part 8 4, part 12 4, part 16 4, part 20 12]

/-- The variables of the process that settings are read from. -/
def readEnvironment : IO Settings.Environment := do
  let values ← Settings.variableNames.mapM fun name => return (name, ← IO.getEnv name)
  return values.filterMap fun (name, value) => value.map fun v => (name, v)

/-- The threads used when the machine does not say how many it runs at once. -/
def assumedCores : Nat := 4

/-- Runs a program on the files that its arguments name. -/
def runProgram (program : Surroundings → List String → Output) (paths : List Path)
    (args : List String) : IO UInt32 := do
  let environment ← readEnvironment
  let files ← readFiles paths
  let now := Moment.ofNanoseconds (← Std.Time.Timestamp.now).toNanosecondsSinceUnixEpoch.val
  let executionId := randomId (← IO.getRandomBytes 16).toList
  let output := program { environment, files, now, executionId, cores := assumedCores } args
  IO.print output.stdout
  IO.eprint output.stderr
  return output.exit.toUInt32

end ChainMapping

open ChainMapping in
def main (args : List String) : IO UInt32 := do
  match args with
  | "otc_compiler" :: args =>
    let paths := match CompileRequest.parse assumedCores args with
      | .ok request => request.paths
      | .error _ => []
    runProgram compilerProgram paths args
  | "otc_index" :: args =>
    let paths := match IndexRequest.parse args with
      | .ok request => request.paths
      | .error _ => []
    runProgram indexerProgram paths args
  | _ =>
    IO.eprintln "error: the first argument is otc_compiler or otc_index"
    return 2
