import ChainMapping.Proofs.Schema.Loading
import ChainMapping.Proofs.Types.Expression

/-!
# What a declared name means

A type that is asked for by name is the declared one, whatever its name is.  In an expression the
names of containers and scalars come first, and a name may only have certain characters.  So a field
gets the declared type that its expression names exactly if the name is an ordinary one.
-/

namespace ChainMapping

/-- A name by which an expression can mean a declared type. -/
structure TypeRef.IsOrdinary (name : String) : Prop where
  isName : IsName name
  notContainer : Kind.ofContainerName? name = none
  notScalar : name ∉ Kind.scalarNames

namespace TypeRef

variable {classify : String → Option Kind} {name : String} {kind : Kind}

theorem IsOrdinary.kindOf?_eq (h : IsOrdinary name) : kindOf? classify name = classify name := by
  rw [kindOf?, h.notContainer, Option.orElse_none, if_neg (by simpa using h.notScalar)]

theorem isOrdinary_of_kindOf? (hname : IsName name) (h : kindOf? classify name = some kind)
    (hkind : kind = .object ∨ kind = .abstract) : IsOrdinary name := by
  unfold kindOf? at h
  cases hcontainer : Kind.ofContainerName? name with
  | some container =>
    rw [hcontainer] at h
    cases h
    have hheld := isContainer_of_ofContainerName? hcontainer
    rcases hkind with rfl | rfl <;> cases hheld
  | none =>
    rw [hcontainer, Option.orElse_none] at h
    refine ⟨hname, hcontainer, fun hmem => ?_⟩
    rw [if_pos (by simpa using hmem)] at h
    cases h
    rcases hkind with hkind | hkind <;> cases hkind

end TypeRef

namespace Schema

variable {document : SchemaDocument} {schema : Schema} {owner field name : String} {kind : Kind}

theorem typeRef_of_kindOf? (h : schema.kindOf? name = some kind) :
    schema.typeRef name = .ok ⟨name, kind, []⟩ := by
  obtain ⟨declared, hdeclared, rfl⟩ := Option.map_eq_some_iff.mp h
  rw [typeRef, hdeclared]

theorem typeRef_of_undeclared (h : schema.kindOf? name = none) :
    schema.typeRef name = TypeRef.parse schema.kindOf? name := by
  rw [typeRef, Option.map_eq_none_iff.mp h]
  rfl

/-- A field has the type that its expression denotes on its own. -/
def FieldAgrees (schema : Schema) (owner field expression : String) : Prop :=
  ∃ type, schema.fieldType owner field = .ok ⟨owner, field, type⟩
    ∧ schema.typeRef expression = .ok type

/-- On its own, a declared name means the declared type.  A field whose expression is that name has
the declared type too exactly if the name is an ordinary one. -/
theorem fieldAgrees_iff (hloaded : ofDocument document = .ok schema)
    (hname : classifier document.types name = some kind) {definition : TypeDefinition}
    (howner : document.types.lookup owner = some definition)
    (hfield : definition.fields.lookup field = some name) :
    schema.typeRef name = .ok ⟨name, kind, []⟩
      ∧ (schema.FieldAgrees owner field name ↔ TypeRef.IsOrdinary name) := by
  have loaded := loadedFrom_of_ofDocument hloaded
  rw [loaded.kinds] at hname
  have htypeRef := typeRef_of_kindOf? hname
  obtain ⟨type, hparse, hfieldType⟩ := loaded.fieldType_eq howner hfield
  refine ⟨htypeRef, fun hagrees => ?_, fun hordinary => ?_⟩
  · obtain ⟨type', hfieldType', htype'⟩ := hagrees
    rw [hfieldType'] at hfieldType
    cases hfieldType
    rw [htypeRef] at htype'
    cases htype'
    obtain ⟨hisName, -, hplain⟩ := TypeRef.parse_eq_ok hparse
    exact TypeRef.isOrdinary_of_kindOf? hisName (hplain rfl).2 (loaded.kind_cases hname)
  · obtain ⟨hkind, htype⟩ := (TypeRef.parse_name_iff hordinary.isName).mp hparse
    rw [hordinary.kindOf?_eq, hname, Option.some.injEq] at hkind
    rw [← hkind] at htype
    exact ⟨type, hfieldType, by rw [htypeRef, htype]⟩

/-- Orders have a customer and the date on which they were placed, both of declared types. -/
def calendar : SchemaDocument where
  types :=
    [("Order", { fields := [("customer", "Person"), ("placed", "Date")] }),
     ("Person", { isAbstract := true }),
     ("Date", { fields := [("year", "Int"), ("month", "Int")] })]

def calendarSchema : Schema where
  types :=
    [("Order", ⟨.object,
       [("customer", ⟨"Person", .abstract, []⟩), ("placed", ⟨"Date", .scalar, []⟩)]⟩),
     ("Person", ⟨.abstract, []⟩),
     ("Date", ⟨.object, [("year", ⟨"Int", .scalar, []⟩), ("month", ⟨"Int", .scalar, []⟩)]⟩)]

theorem ofDocument_calendar : ofDocument calendar = .ok calendarSchema := by
  decide +kernel

/-- A person is a person in both places.  A date is none in the order, since there is a scalar of
that name. -/
theorem fieldAgrees_iff_calendar :
    ofDocument calendar = .ok calendarSchema
      ∧ classifier calendar.types "Person" = some .abstract
      ∧ classifier calendar.types "Date" = some .object
      ∧ (calendar.types.lookup "Order").map (·.fields)
        = some [("customer", "Person"), ("placed", "Date")]
      ∧ calendarSchema.FieldAgrees "Order" "customer" "Person"
      ∧ ¬ calendarSchema.FieldAgrees "Order" "placed" "Date" := by
  have howner : calendar.types.lookup "Order"
      = some { fields := [("customer", "Person"), ("placed", "Date")] } := by decide
  have hperson := (fieldAgrees_iff ofDocument_calendar (by decide) howner (by decide) :
    calendarSchema.typeRef "Person" = .ok ⟨"Person", .abstract, []⟩
      ∧ (calendarSchema.FieldAgrees "Order" "customer" "Person" ↔ TypeRef.IsOrdinary "Person"))
  have hdate := (fieldAgrees_iff ofDocument_calendar (by decide) howner (by decide) :
    calendarSchema.typeRef "Date" = .ok ⟨"Date", .object, []⟩
      ∧ (calendarSchema.FieldAgrees "Order" "placed" "Date" ↔ TypeRef.IsOrdinary "Date"))
  refine ⟨ofDocument_calendar, by decide, by decide, by rw [howner]; rfl, ?_, fun hagrees => ?_⟩
  · have hisName : TypeRef.IsName "Person" := ⟨by decide, List.all_eq_true.mp (by decide)⟩
    exact hperson.2.mpr ⟨hisName, by decide, by decide⟩
  · exact (hdate.2.mp hagrees).notScalar (by decide)

/-- The date is an object on its own and a scalar in the order. -/
theorem not_fieldAgrees_placed :
    ofDocument calendar = .ok calendarSchema
      ∧ classifier calendar.types "Date" = some .object
      ∧ (calendar.types.lookup "Order").bind (·.fields.lookup "placed") = some "Date"
      ∧ calendarSchema.typeRef "Date" = .ok ⟨"Date", .object, []⟩
      ∧ calendarSchema.fieldType "Order" "placed"
        = .ok ⟨"Order", "placed", ⟨"Date", .scalar, []⟩⟩
      ∧ ¬ calendarSchema.FieldAgrees "Order" "placed" "Date" := by
  refine ⟨ofDocument_calendar, by decide, by decide, rfl, rfl, ?_⟩
  rintro ⟨type, hfield, htype⟩
  cases hfield
  cases htype

end Schema
end ChainMapping
