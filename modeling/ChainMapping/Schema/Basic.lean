import ChainMapping.Files.Tree
import ChainMapping.Introspector
import ChainMapping.Types.Expression
import ChainMapping.Ordered
import ChainMapping.Limits

/-!
# Schemas

A schema declares object types with their fields, and says which concrete type stands in for an
abstract one.  The field types of a document are all read when the schema is built, so a schema that
exists has no field of an unknown type.
-/

namespace ChainMapping

/-- A type as a schema document writes it. -/
structure TypeDefinition where
  isAbstract : Bool := false
  fields : List (String × String) := []
  deriving DecidableEq, Repr

/-- A schema document. -/
structure SchemaDocument where
  types : List (String × TypeDefinition) := []
  concreteTypes : List (String × String) := []
  deriving DecidableEq, Repr

/-- A declared type with its fields in the order of the document. -/
structure DeclaredType where
  kind : Kind
  fields : List (String × TypeRef)
  deriving DecidableEq, Repr

structure Schema where
  types : List (String × DeclaredType) := []
  concreteTypes : List (String × String) := []
  deriving DecidableEq, Repr

/-- Why a schema could not be loaded. -/
inductive SchemaError where
  | unreadable (path : String) (fault : FileFault)
  | parse (path : String) (reason : String)
  | unsupportedFormat (path : String)
  | field (owner name : String) (cause : TypeError)
  deriving DecidableEq, Repr

namespace SchemaError

def message : SchemaError → String
  | unreadable path fault => s!"Failed to read schema '{path}': {fault.message}"
  | parse path reason => s!"Failed to parse schema '{path}': {reason}"
  | unsupportedFormat path => s!"Unsupported schema format '{path}', expected .toml or .json"
  | field owner name cause => s!"Invalid field '{owner}.{name}': {cause.message}"

def code : SchemaError → Code
  | unreadable .. => .ioError
  | parse .. => .unreadableScript
  | unsupportedFormat .. => .unreadableScript
  | field _ _ cause => cause.code

end SchemaError

namespace TypeDefinition

def kind (d : TypeDefinition) : Kind := if d.isAbstract then .abstract else .object

end TypeDefinition

namespace Schema

/-- The kinds of the types that a document declares. -/
def classifier (types : List (String × TypeDefinition)) (name : String) : Option Kind :=
  (types.lookup name).map TypeDefinition.kind

/-- The field types of one declared type. -/
def resolveFields (classify : String → Option Kind) (owner : String) :
    List (String × String) → Except SchemaError (List (String × TypeRef))
  | [] => .ok []
  | (name, expression) :: rest =>
    match TypeRef.parse classify expression with
    | .error cause => .error (.field owner name cause)
    | .ok type => do
      let fields ← resolveFields classify owner rest
      return (name, type) :: fields

/-- The declared types of a document. -/
def resolveTypes (classify : String → Option Kind) :
    List (String × TypeDefinition) → Except SchemaError (List (String × DeclaredType))
  | [] => .ok []
  | (name, definition) :: rest => do
    let fields ← resolveFields classify name definition.fields
    let types ← resolveTypes classify rest
    return (name, ⟨definition.kind, fields⟩) :: types

/-- A concrete type must be a declared type that is not abstract itself. -/
def checkConcrete (classify : String → Option Kind) :
    List (String × String) → Except SchemaError Unit
  | [] => .ok ()
  | (declared, concrete) :: rest =>
    if classify concrete = some .object then checkConcrete classify rest
    else
      .error (.parse "<concrete_types>"
        s!"concrete type '{concrete}' for '{declared}' is not a known object type")

/-- The schema of a document. -/
def ofDocument (document : SchemaDocument) : Except SchemaError Schema := do
  let classify := classifier document.types
  let types ← resolveTypes classify document.types
  checkConcrete classify document.concreteTypes
  return ⟨types, document.concreteTypes⟩

def typeCount (s : Schema) : Nat := s.types.length

def containsType (s : Schema) (name : String) : Bool := (s.types.lookup name).isSome

/-- The fields of a declared type. -/
def fieldsOf? (s : Schema) (name : String) : Option (List (String × TypeRef)) :=
  (s.types.lookup name).map (·.fields)

/-- The concrete type that stands in for an abstract one. -/
def concreteName? (s : Schema) (name : String) : Option String := s.concreteTypes.lookup name

/-- The type that a name or an expression denotes. -/
def typeRef (s : Schema) (name : String) : Except TypeError TypeRef :=
  match s.types.lookup name with
  | some declared => .ok ⟨name, declared.kind, []⟩
  | none => TypeRef.parse (fun n => (s.types.lookup n).map (·.kind)) name

def fieldType (s : Schema) (owner field : String) : Except TypeError FieldType :=
  match s.types.lookup owner with
  | none => .error (.unknownType owner)
  | some declared =>
    match declared.fields.lookup field with
    | none => .error (.unknownField owner field)
    | some type => .ok ⟨owner, field, type⟩

def concreteType (s : Schema) (declared : TypeRef) : Option TypeRef :=
  if declared.kind = .abstract then
    (s.concreteName? declared.name).map fun name => ⟨name, .object, []⟩
  else none

/-- A schema as a source of type information. -/
def introspector (s : Schema) : Introspector where
  typeRef := s.typeRef
  fieldType := s.fieldType
  concreteType := s.concreteType

end Schema
end ChainMapping
