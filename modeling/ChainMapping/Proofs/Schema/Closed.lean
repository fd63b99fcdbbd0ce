import ChainMapping.Proofs.Schema.Names
import ChainMapping.Proofs.Types.Grammar

/-!
# Schemas that declare what they mention

A loaded schema is closed: whatever type with fields occurs in the type of a field, at any depth, is
declared, and so is every type that stands in for an abstract one.  The same is true of every type
that the schema gives for a name or an expression.
-/

namespace ChainMapping

/-- A type is another one, or occurs among its arguments at any depth. -/
inductive TypeRef.Occurs (part : TypeRef) : TypeRef → Prop where
  | whole : Occurs part part
  | within {t arg : TypeRef} (mem : arg ∈ t.args) (inside : Occurs part arg) : Occurs part t

namespace Schema

/-- Every type with fields that occurs in a type is declared, and of that kind. -/
def Declares (schema : Schema) (t : TypeRef) : Prop :=
  ∀ part : TypeRef, part.Occurs t → part.kind = .object ∨ part.kind = .abstract →
    schema.kindOf? part.name = some part.kind

/-- The schema declares all that its fields and its concrete types mention. -/
structure Closed (schema : Schema) : Prop where
  fields : ∀ type ∈ schema.types, ∀ field ∈ type.2.fields, schema.Declares field.2
  concrete : ∀ entry ∈ schema.concreteTypes, schema.kindOf? entry.2 = some .object

variable {schema : Schema} {document : SchemaDocument} {t : TypeRef}

theorem declares_iff : schema.Declares t ↔
    (t.kind = .object ∨ t.kind = .abstract → schema.kindOf? t.name = some t.kind)
      ∧ ∀ arg ∈ t.args, schema.Declares arg := by
  constructor
  · intro h
    exact ⟨h t .whole, fun arg harg part hpart => h part (.within harg hpart)⟩
  · rintro ⟨hself, hargs⟩ part hpart
    cases hpart with
    | whole => exact hself
    | within harg hpart => exact hargs _ harg part hpart

/-- A type without fields declares what its arguments do. -/
theorem declares_of_args {name : String} {kind : Kind} {args : List TypeRef}
    (hkind : kind ≠ .object ∧ kind ≠ .abstract) (hargs : ∀ arg ∈ args, schema.Declares arg) :
    schema.Declares ⟨name, kind, args⟩ :=
  declares_iff.mpr ⟨fun hfields => (hfields.elim hkind.1 hkind.2).elim, hargs⟩

theorem declares_of_kindOf? {name : String} {kind : Kind} (h : schema.kindOf? name = some kind) :
    schema.Declares ⟨name, kind, []⟩ :=
  declares_iff.mpr ⟨fun _ => h, fun _ hmem => absurd hmem List.not_mem_nil⟩

theorem hasNoFields_of_container {name : String} {kind : Kind}
    (h : Kind.ofContainerName? name = some kind) : kind ≠ .object ∧ kind ≠ .abstract := by
  have hcontainer := TypeRef.isContainer_of_ofContainerName? h
  constructor <;> rintro rfl <;> cases hcontainer

/-- What an expression mentions was found among the declared types. -/
theorem declares_of_isExpression {text : List Char}
    (h : TypeRef.IsExpression schema.kindOf? text t) : schema.Declares t := by
  induction h with
  | @known name kind _ free known =>
    rw [TypeRef.kindOf?, free, Option.orElse_none] at known
    split at known
    next =>
      rw [← Option.some.inj known]
      exact declares_of_args (by decide) fun _ hmem => absurd hmem List.not_mem_nil
    next => exact declares_of_kindOf? known
  | raw container =>
    exact declares_of_args (hasNoFields_of_container container)
      fun _ hmem => absurd hmem List.not_mem_nil
  | collection container _ _ _ ih =>
    exact declares_of_args (hasNoFields_of_container container) (by simpa using ih)
  | map _ _ _ _ ihKey ihValue => exact declares_of_args (by decide) (by simp [ihKey, ihValue])
  | array _ ih => exact declares_of_args (by decide) (by simpa using ih)
  | spaced _ _ _ ih => exact ih

/-- A schema only gives types that it declares. -/
theorem declares_of_typeRef {expression : String} (h : schema.typeRef expression = .ok t) :
    schema.Declares t := by
  cases hdeclared : schema.kindOf? expression with
  | some kind =>
    rw [typeRef_of_kindOf? hdeclared] at h
    cases h
    exact declares_of_kindOf? hdeclared
  | none =>
    rw [typeRef_of_undeclared hdeclared] at h
    exact declares_of_isExpression (TypeRef.isExpression_of_parse h)

theorem LoadedFrom.closed (h : schema.LoadedFrom document) : schema.Closed where
  fields type htype field hfield := by
    obtain ⟨expression, hparse⟩ := h.parsed type htype field hfield
    exact declares_of_isExpression (TypeRef.isExpression_of_parse hparse)
  concrete := h.concrete

namespace Closed

/-- What stands in for an abstract type is a declared object. -/
theorem kindOf?_concrete (h : schema.Closed) {concrete : TypeRef}
    (hconcrete : schema.concreteType t = some concrete) :
    schema.kindOf? concrete.name = some .object ∧ schema.Declares concrete := by
  unfold concreteType at hconcrete
  split at hconcrete
  next =>
    obtain ⟨name, hname, rfl⟩ := Option.map_eq_some_iff.mp hconcrete
    have hkind := h.concrete _ (Ordered.mem_of_lookup hname)
    exact ⟨hkind, declares_of_kindOf? hkind⟩
  next => cases hconcrete

theorem declares_effective (h : schema.Closed) (ht : schema.Declares t) :
    schema.Declares ((schema.concreteType t).getD t) := by
  cases hconcrete : schema.concreteType t with
  | none => exact ht
  | some concrete => exact (h.kindOf?_concrete hconcrete).2

/-- A declared type may lack a field, but nothing about its fields is unknown. -/
theorem fieldType_yields (h : schema.Closed) {owner : String} {kind : Kind}
    (howner : schema.kindOf? owner = some kind) (field : String) :
    Yields (schema.fieldType owner field) (fun f => schema.Declares f.declared)
      (fun e => e = .unknownField owner field) := by
  obtain ⟨declared, hdeclared, -⟩ := Option.map_eq_some_iff.mp howner
  simp only [fieldType, hdeclared]
  cases hfield : declared.fields.lookup field with
  | none => rfl
  | some type =>
    exact h.fields _ (Ordered.mem_of_lookup hdeclared) _ (Ordered.mem_of_lookup hfield)

end Closed

end Schema
end ChainMapping
