import ChainMapping.Schema.Basic
import ChainMapping.Document.Record
import ChainMapping.Json.Reader
import ChainMapping.Toml.Reader

/-!
# Reading schemas

A schema document has two tables, `types` and `concrete_types`, both of which may be missing.  It is
written in JSON or in TOML.
-/

namespace ChainMapping

open Document in
def TypeDefinition.ofDocument (format : Format) (d : Document) :
    Except ReadError TypeDefinition := do
  match ← record format ["abstract", "fields"] d with
  | [isAbstract, fields] =>
    return {
      isAbstract := ← withDefault false readBool isAbstract
      fields := ← withDefault [] (readTable readText) fields }
  | _ => throw ⟨"table expected"⟩

open Document in
def SchemaDocument.ofDocument (format : Format) (d : Document) :
    Except ReadError SchemaDocument := do
  match ← record format ["types", "concrete_types"] d with
  | [types, concreteTypes] =>
    return {
      types := ← withDefault [] (readTable (TypeDefinition.ofDocument format)) types
      concreteTypes := ← withDefault [] (readTable readText) concreteTypes }
  | _ => throw ⟨"table expected"⟩

namespace Schema

/-- A schema from a document that was read under a path. -/
def ofReading (format : Format) (path : String) (reading : Except ReadError Document) :
    Except SchemaError Schema :=
  match reading >>= SchemaDocument.ofDocument format with
  | .error e => .error (.parse path e.reason)
  | .ok document => ofDocument document

def ofJson (text : String) : Except SchemaError Schema := ofReading .json "<json>" (Json.read text)

def ofToml (text : String) : Except SchemaError Schema := ofReading .toml "<toml>" (Toml.read text)

end Schema
end ChainMapping
