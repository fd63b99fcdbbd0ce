import ChainMapping.Files.Tree
import ChainMapping.Schema.Reader

/-!
# Loading schemas

A schema file is JSON or TOML by its extension, and of bounded size.
-/

namespace ChainMapping

/-- A parse error names the file it was found in. -/
def SchemaError.inFile (path : String) : SchemaError → SchemaError
  | parse _ reason => parse path reason
  | e => e

namespace Schema

/-- Reads a schema text in the format that an extension stands for. -/
def ofText (path : Path) (text : String) : Except SchemaError Schema :=
  let read? : Option (Except SchemaError Schema) :=
    match path.extension? with
    | some "toml" => some (ofToml text)
    | some "json" => some (ofJson text)
    | _ => none
  match read? with
  | some result => result.mapError (SchemaError.inFile path.text)
  | none => .error (.unsupportedFormat path.text)

/-- Loads a schema.  The size of a file is looked at before anything else about it. -/
def load (files : Files) (path : Path) : Except SchemaError Schema := do
  let entry ← (files path).mapError (.unreadable path.text)
  if Limits.fileSize < entry.size then
    throw (.parse path.text s!"file exceeds {Limits.fileSize} bytes")
  let text ← entry.text.mapError (.unreadable path.text)
  ofText path text

end Schema
end ChainMapping
