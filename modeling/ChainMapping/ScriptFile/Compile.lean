import ChainMapping.Elapsed
import ChainMapping.Files.Tree
import ChainMapping.Log.Journal
import ChainMapping.Mapping.Compile
import ChainMapping.ScriptFile.Error

/-!
# Compiling script files

A script file is checked before it is read: that it is there, that its name says it is a script,
that it is not too large.  Everything that happens to it is logged under its path.
-/

namespace ChainMapping

/-- What the name of a script file ends in. -/
def scriptExtension : String := ".otc.toml"

/-- A character in lower case, as far as it is an ASCII letter. -/
def asciiLower (c : Char) : Char :=
  if 'A' ≤ c && c ≤ 'Z' then Char.ofNat (c.toNat + 32) else c

/-- The path ends in a name that ends like a script; the case of letters does not count. -/
def Path.namesScript (p : Path) : Bool :=
  match p.fileName? with
  | some name => scriptExtension.toList.isSuffixOf (name.toList.map asciiLower)
  | none => false

/-- What stands at a path is a script file. -/
def isScriptFile (path : Path) (entry : Option Entry) : Bool :=
  (entry.any Entry.isFile) && path.namesScript

/-- A script file that compiled. -/
structure CompiledFile where
  path : Path
  size : Nat
  mapping : Mapping
  reports : List Report

namespace CompiledFile

/-- Logged when a script file has compiled. -/
def event (f : CompiledFile) (elapsed : Elapsed) : Event :=
  (Event.success .fileProcessingSuccess "Mapping script compiled").withPairs
    [("file", f.path.text), ("mapping", f.mapping.id),
     ("commands", toString f.mapping.commands.length), ("nodes", toString f.mapping.nodeCount),
     ("duration_ms", elapsed.millisecondsText)]

end CompiledFile

/-- The text of a script file with its size, and what is logged about it. -/
def readScriptFile (path : Path) (entry : Option Entry) :
    Except ScriptFileError (String × Nat) × List Event :=
  let refuse (error : ScriptFileError) (message : String) (facts : List (String × String)) :
      Except ScriptFileError (String × Nat) × List Event :=
    (.error error, [(Event.error error.code message).withPairs facts])
  match entry with
  | some (.file content) =>
    if !path.namesScript then
      refuse (.wrongExtension path) "Not a mapping script" [("path", path.text)]
    else if Limits.fileSize < content.size then
      refuse (.tooLarge content.size) "Mapping script too large"
        [("size", toString content.size), ("max_size", toString Limits.fileSize)]
    else
      match String.fromUTF8? content with
      | none => (.error (.invalidEncoding path), [])
      | some text =>
        if Text.isAllBlank text.toList then (.error (.empty path), [])
        else
          (.ok (text, content.size), [(Event.debug "Mapping script read").withPairs
            [("file", path.text), ("size_bytes", toString content.size)]])
  | _ => refuse (.notFound path) "Mapping script not found" [("path", path.text)]

namespace Compiler

/-- Compiles a script text that was read from a file. -/
def compileText (c : Compiler) (path : Path) (size : Nat) (text : String) (elapsed : Elapsed) :
    Except ScriptFileError CompiledFile × List Event × Compiler :=
  match Script.ofToml text with
  | .error e =>
    let error := RegistryError.invalidScript e.reason
    let event := (Event.error error.code "Mapping script could not be parsed").withPair
      "error" error.message
    (.error (.rejected error), [event], c)
  | .ok script =>
    let (outcome, c) := c.compile script
    let reports := outcome.reports.map (·.withFile path.text)
    match outcome.mapping with
    | some mapping =>
      let file : CompiledFile := ⟨path, size, mapping, reports⟩
      (.ok file, outcome.log ++ [file.event elapsed], c)
    | none => (.error (.uncompiled script.id reports), outcome.log, c)

/-- Compiles what stands at a path; `id` is the number of the file in its batch. -/
def compileFile (c : Compiler) (id : Nat) (path : Path) (entry : Option Entry)
    (elapsed : Elapsed) : Except ScriptFileError CompiledFile × List LogAction × Compiler :=
  let start := (Event.info "Compiling mapping script").withPair "file" path.text
  let within (log : List Event) : List LogAction :=
    [.enter path id] ++ (start :: log).map .record ++ [.leave]
  match readScriptFile path entry with
  | (.error error, log) => (.error error, within log, c)
  | (.ok (text, size), log) =>
    let (result, more, c) := c.compileText path size text elapsed
    (result, within (log ++ more), c)

/-- The same compiler with no names handed out. -/
def fresh (c : Compiler) : Compiler := { c with names := {} }

end Compiler
end ChainMapping
