import ChainMapping.Index.Error
import ChainMapping.Types.Basic
import ChainMapping.Value.Basic

/-!
# Reading fields

A field is read only from an object of exactly the type that owns it.  A field that is not set and a
field that is null read alike.
-/

namespace ChainMapping

/-- The value of a field, none if it is not set or null. -/
def Store.readField (s : Store) (field : FieldType) (owner : Value) :
    Except IndexingError (Option Value) :=
  match owner.object?.bind s.object? with
  | none => .error (.fieldAccess field.owner field.name (.notObject owner.kind))
  | some o =>
    if o.typeName ≠ field.owner then
      .error (.fieldAccess field.owner field.name (.otherType o.typeName))
    else .ok ((o.get? field.name).filter fun v => !v.isNull)

end ChainMapping
