import Mathlib.Data.List.Basic
import ChainMapping.Proofs.Ending
import ChainMapping.Schema.Basic

/-!
# Loaded schemas

A schema that was loaded declares the types of its document and no others, each of them as an object
or as abstract, and the fields of each have the types that their expressions denote.  Whatever
stands in for an abstract type is a declared object type.
-/

namespace ChainMapping
namespace Schema

variable {classify : String → Option Kind} {document : SchemaDocument} {schema : Schema}

/-- What is known of a name where an expression is read. -/
def kindOf? (schema : Schema) (name : String) : Option Kind :=
  (schema.types.lookup name).map (·.kind)

theorem lookup_resolveFields {owner : String} {expressions : List (String × String)}
    {fields : List (String × TypeRef)} (h : resolveFields classify owner expressions = .ok fields)
    (name : String) :
    (expressions.lookup name).map (TypeRef.parse classify) = (fields.lookup name).map .ok := by
  induction expressions generalizing fields with
  | nil =>
    cases h
    rfl
  | cons entry rest ih =>
    obtain ⟨first, expression⟩ := entry
    rw [resolveFields] at h
    split at h
    next => cases h
    next type hparse =>
      obtain ⟨others, hothers, heq⟩ := bind_eq_ok h
      cases heq
      rw [List.lookup_cons, List.lookup_cons]
      split
      · rw [Option.map_some, Option.map_some, hparse]
      · exact ih hothers

theorem lookup_resolveTypes {definitions : List (String × TypeDefinition)}
    {types : List (String × DeclaredType)} (h : resolveTypes classify definitions = .ok types)
    (name : String) :
    (definitions.lookup name = none ∧ types.lookup name = none)
      ∨ ∃ definition fields, definitions.lookup name = some definition
        ∧ types.lookup name = some ⟨definition.kind, fields⟩
        ∧ resolveFields classify name definition.fields = .ok fields := by
  induction definitions generalizing types with
  | nil =>
    cases h
    exact .inl ⟨rfl, rfl⟩
  | cons entry rest ih =>
    obtain ⟨first, definition⟩ := entry
    rw [resolveTypes] at h
    obtain ⟨fields, hfields, hrest⟩ := bind_eq_ok h
    obtain ⟨others, hothers, heq⟩ := bind_eq_ok hrest
    cases heq
    rw [List.lookup_cons, List.lookup_cons]
    by_cases hname : name = first
    · subst hname
      rw [beq_self_eq_true]
      exact .inr ⟨definition, fields, rfl, rfl, hfields⟩
    · rw [beq_eq_false_iff_ne.mpr hname]
      exact ih hothers

/-- Every field type comes from an expression. -/
theorem parse_of_mem_resolveFields {owner : String} {expressions : List (String × String)}
    {fields : List (String × TypeRef)} (h : resolveFields classify owner expressions = .ok fields) :
    ∀ field ∈ fields, ∃ expression, TypeRef.parse classify expression = .ok field.2 := by
  induction expressions generalizing fields with
  | nil =>
    cases h
    exact fun field hmem => absurd hmem List.not_mem_nil
  | cons entry rest ih =>
    obtain ⟨first, expression⟩ := entry
    rw [resolveFields] at h
    split at h
    next => cases h
    next type hparse =>
      obtain ⟨others, hothers, heq⟩ := bind_eq_ok h
      cases heq
      exact List.forall_mem_cons.mpr ⟨⟨expression, hparse⟩, ih hothers⟩

theorem parse_of_mem_resolveTypes {definitions : List (String × TypeDefinition)}
    {types : List (String × DeclaredType)} (h : resolveTypes classify definitions = .ok types) :
    ∀ type ∈ types, ∀ field ∈ type.2.fields,
      ∃ expression, TypeRef.parse classify expression = .ok field.2 := by
  induction definitions generalizing types with
  | nil =>
    cases h
    exact fun type hmem => absurd hmem List.not_mem_nil
  | cons entry rest ih =>
    obtain ⟨first, definition⟩ := entry
    rw [resolveTypes] at h
    obtain ⟨fields, hfields, hrest⟩ := bind_eq_ok h
    obtain ⟨others, hothers, heq⟩ := bind_eq_ok hrest
    cases heq
    exact List.forall_mem_cons.mpr ⟨parse_of_mem_resolveFields hfields, ih hothers⟩

theorem classify_of_checkConcrete {concreteTypes : List (String × String)}
    (h : checkConcrete classify concreteTypes = .ok ()) :
    ∀ entry ∈ concreteTypes, classify entry.2 = some .object := by
  induction concreteTypes with
  | nil => exact fun entry hmem => absurd hmem List.not_mem_nil
  | cons first rest ih =>
    rw [checkConcrete] at h
    split at h
    next hfirst => exact List.forall_mem_cons.mpr ⟨hfirst, ih h⟩
    next => cases h

/-- What a schema keeps of the document that it was loaded from. -/
structure LoadedFrom (schema : Schema) (document : SchemaDocument) : Prop where
  kinds : classifier document.types = schema.kindOf?
  /-- every type has the fields of its definition -/
  fields : ∀ {owner : String} {definition : TypeDefinition},
    document.types.lookup owner = some definition → ∃ fields,
      schema.types.lookup owner = some ⟨definition.kind, fields⟩
        ∧ ∀ field, (definition.fields.lookup field).map (TypeRef.parse schema.kindOf?)
          = (fields.lookup field).map .ok
  /-- every field type was read from an expression -/
  parsed : ∀ type ∈ schema.types, ∀ field ∈ type.2.fields,
    ∃ expression, TypeRef.parse schema.kindOf? expression = .ok field.2
  concrete : ∀ entry ∈ schema.concreteTypes, schema.kindOf? entry.2 = some .object

theorem loadedFrom_of_ofDocument (h : ofDocument document = .ok schema) :
    schema.LoadedFrom document := by
  obtain ⟨types, htypes, hrest⟩ := bind_eq_ok h
  obtain ⟨_, hconcrete, heq⟩ := bind_eq_ok hrest
  cases heq
  have hkinds : classifier document.types = kindOf? ⟨types, document.concreteTypes⟩ := by
    funext name
    rw [classifier, kindOf?]
    rcases lookup_resolveTypes htypes name with ⟨hnone, hnone'⟩
      | ⟨definition, fields, hsome, hsome', -⟩
    · rw [hnone, hnone', Option.map_none, Option.map_none]
    · rw [hsome, hsome', Option.map_some, Option.map_some]
  refine ⟨hkinds, fun {owner definition} howner => ?_, ?_, ?_⟩
  · rcases lookup_resolveTypes htypes owner with ⟨hnone, -⟩
      | ⟨definition', fields, hsome, hsome', hfields⟩
    · rw [hnone] at howner
      cases howner
    · rw [hsome, Option.some.injEq] at howner
      subst howner
      rw [← hkinds]
      exact ⟨fields, hsome', lookup_resolveFields hfields⟩
  · rw [← hkinds]
    exact parse_of_mem_resolveTypes htypes
  · rw [← hkinds]
    exact classify_of_checkConcrete hconcrete

namespace LoadedFrom

/-- A declared type is an object or abstract, as its definition says. -/
theorem kind_cases (h : schema.LoadedFrom document) {name : String} {kind : Kind}
    (hkind : schema.kindOf? name = some kind) : kind = .object ∨ kind = .abstract := by
  rw [← h.kinds] at hkind
  obtain ⟨definition, -, rfl⟩ := Option.map_eq_some_iff.mp hkind
  rw [TypeDefinition.kind]
  split
  · exact .inr rfl
  · exact .inl rfl

/-- A field has the type that its expression denotes. -/
theorem fieldType_eq (h : schema.LoadedFrom document) {owner field expression : String}
    {definition : TypeDefinition} (howner : document.types.lookup owner = some definition)
    (hfield : definition.fields.lookup field = some expression) :
    ∃ type, TypeRef.parse schema.kindOf? expression = .ok type
      ∧ schema.fieldType owner field = .ok ⟨owner, field, type⟩ := by
  obtain ⟨fields, hdeclared, hfields⟩ := h.fields howner
  have hparse := hfields field
  rw [hfield, Option.map_some] at hparse
  obtain ⟨type, htype, heq⟩ := Option.map_eq_some_iff.mp hparse.symm
  exact ⟨type, heq.symm, by simp only [fieldType, hdeclared, htype]⟩

end LoadedFrom

end Schema
end ChainMapping
