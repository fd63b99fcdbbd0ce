import ChainMapping.Files.Path
import ChainMapping.Limits
import ChainMapping.Mapping.Report
import ChainMapping.Registry.Error

/-!
# Script file errors

Why a script file did not become a mapping.
-/

namespace ChainMapping

inductive ScriptFileError where
  | notFound (path : Path)
  | wrongExtension (path : Path)
  | tooLarge (size : Nat)
  | empty (path : Path)
  | invalidEncoding (path : Path)
  /-- the text is not a script -/
  | rejected (error : RegistryError)
  /-- the script did not compile -/
  | uncompiled (id : String) (reports : List Report)
  deriving DecidableEq, Repr

namespace ScriptFileError

def message : ScriptFileError → String
  | notFound path => s!"File not found: {path.text}"
  | wrongExtension path => s!"Invalid file extension: expected .otc.toml, found {path.text}"
  | tooLarge size => s!"File too large: {size} bytes (max: {Limits.fileSize})"
  | empty path => s!"File is empty: {path.text}"
  | invalidEncoding path => s!"Invalid UTF-8 encoding in file: {path.text}"
  | rejected error => s!"Script rejected: {error.message}"
  | uncompiled id reports =>
    s!"Mapping '{id}' failed to compile with {failureCount reports} error(s)"

def code : ScriptFileError → Code
  | notFound _ => .fileNotFound
  | wrongExtension _ => .invalidExtension
  | tooLarge _ => .fileTooLarge
  | empty _ => .emptyFile
  | invalidEncoding _ => .invalidEncoding
  | rejected error => error.code
  | uncompiled .. => .malformedScript

/-- The reports of a script that did not compile. -/
def reports : ScriptFileError → List Report
  | uncompiled _ reports => reports
  | _ => []

end ScriptFileError
end ChainMapping
