import ChainMapping.Types.Error

/-!
# Sources of type information

Resolution never looks at a schema itself.  All it knows about types comes from four questions, so
that it works over any source that can answer them.
-/

namespace ChainMapping

/-- A source of type information. -/
structure Introspector where
  /-- the type that a name denotes -/
  typeRef : String → Except TypeError TypeRef
  /-- the field of an owning type -/
  fieldType : (owner field : String) → Except TypeError FieldType
  /-- what a container field holds: the element type, or the key and value types; none if raw -/
  genericArguments : FieldType → List TypeRef := fun field => field.declared.args
  /-- the concrete type configured for a declared type -/
  concreteType : TypeRef → Option TypeRef := fun _ => none

end ChainMapping
