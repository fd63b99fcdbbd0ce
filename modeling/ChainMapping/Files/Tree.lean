import ChainMapping.Document.Basic
import ChainMapping.Files.Path

/-!
# Files and directories

The part of a file system that a run looks at, as a value.  The entries of a directory stand in the
order of their names, so going through a directory depth first meets its files in the order of their
paths.
-/

namespace ChainMapping

/-- Something that stands under a name. -/
inductive Entry where
  | file (content : ByteArray)
  | directory (entries : List (String × Entry))
  deriving Inhabited

/-- Why there is nothing, or no text, at a path. -/
inductive FileFault where
  | missing
  /-- the path leads through a file -/
  | notDirectory
  /-- what should be a file is a directory -/
  | directory
  | nameTooLong
  | notText
  deriving DecidableEq, Repr

/-- What a process sees of the file system. -/
abbrev Files := Path → Except FileFault Entry

namespace FileFault

def kind : FileFault → String
  | missing => "NotFound"
  | notDirectory => "NotADirectory"
  | directory => "IsADirectory"
  | nameTooLong => "InvalidFilename"
  | notText => "InvalidData"

/-- The number under which the system knows the fault. -/
def number? : FileFault → Option Nat
  | missing => some 2
  | notDirectory => some 20
  | directory => some 21
  | nameTooLong => some 36
  | notText => none

def reason : FileFault → String
  | missing => "No such file or directory"
  | notDirectory => "Not a directory"
  | directory => "Is a directory"
  | nameTooLong => "File name too long"
  | notText => "stream did not contain valid UTF-8"

def message (f : FileFault) : String :=
  match f.number? with
  | some number => s!"{f.reason} (os error {number})"
  | none => f.reason

end FileFault

namespace Entry

def isFile : Entry → Bool
  | file _ => true
  | directory _ => false

def isDirectory : Entry → Bool
  | file _ => false
  | directory _ => true

/-- The size of the content of a file; a directory has none. -/
def size : Entry → Nat
  | file content => content.size
  | directory _ => 0

/-- What stands in a directory; nothing stands in a file. -/
def entries : Entry → List (String × Entry)
  | file _ => []
  | directory entries => entries

/-- The text of a file. -/
def text : Entry → Except FileFault String
  | file content =>
    match String.fromUTF8? content with
    | some text => .ok text
    | none => .error .notText
  | directory _ => .error .directory

/-- Changes what stands at the end of a row of names, making directories on the way. -/
def change (f : Option Entry → Entry) : List String → Option Entry → Entry
  | [], here => f here
  | name :: rest, here =>
    let entries := (here.map Entry.entries).getD []
    directory (Document.insertMember name (change f rest (entries.lookup name)) entries)

/-- Writes a file, in place of what stood there. -/
def write (e : Entry) (names : List String) (content : ByteArray) : Entry :=
  change (fun _ => file content) names (some e)

/-- Makes a directory unless there is one. -/
def makeDirectory (e : Entry) (names : List String) : Entry :=
  change (fun here => directory ((here.map Entry.entries).getD [])) names (some e)

/-- The files that stand in a directory itself. -/
def filesIn (path : Path) (entries : List (String × Entry)) : List (Path × ByteArray) :=
  entries.filterMap fun (name, entry) =>
    match entry with
    | file content => some (path.join name, content)
    | directory _ => none

mutual

/-- The files at a path and below it, depth first. -/
def filesAt (path : Path) : Entry → List (Path × ByteArray)
  | file content => [(path, content)]
  | directory entries => filesBelow path entries

/-- The files anywhere below a directory, depth first. -/
def filesBelow (path : Path) : List (String × Entry) → List (Path × ByteArray)
  | [] => []
  | (name, entry) :: rest => entry.filesAt (path.join name) ++ filesBelow path rest

end

end Entry

/-- The text at a path. -/
def Files.text (files : Files) (path : Path) : Except FileFault String := files path >>= Entry.text

/-- A working directory. -/
structure WorkingDirectory where
  here : Entry
  /-- the directories it stands in, nearest first -/
  above : List Entry := []

namespace WorkingDirectory

/-- The most bytes that a name in a directory has. -/
def nameLength : Nat := 255

/-- The most bytes that a path has. -/
def pathLength : Nat := 4095

/-- Follows the pieces of a path from a directory.  Nothing but the end of a path may be a file;
above the topmost directory stands itself. -/
def follow : Entry → List Entry → List String → Except FileFault Entry
  | entry, _, [] => .ok entry
  | .file _, _, _ :: _ => .error .notDirectory
  | .directory entries, above, piece :: rest =>
    if piece = "" || piece = "." then follow (.directory entries) above rest
    else if piece = ".." then
      match above with
      | [] => follow (.directory entries) [] rest
      | upper :: above => follow upper above rest
    else if nameLength < piece.utf8ByteSize then .error .nameTooLong
    else
      match entries.lookup piece with
      | some entry => follow entry (.directory entries :: above) rest
      | none => .error .missing

/-- What stands at a relative path. -/
def files (w : WorkingDirectory) : Files := fun path =>
  if path.text = "" then .error .missing
  else if pathLength < path.text.utf8ByteSize then .error .nameTooLong
  else if path.isAbsolute then .error .missing
  else follow w.here w.above path.pieces

end WorkingDirectory
end ChainMapping
