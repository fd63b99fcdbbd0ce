import ChainMapping.Proofs.Value.Making

/-!
# Values that conform to their types

A document that converts becomes a value of the declared type: every object on the way down has
exactly the type that the schema expects where it stands, and every container is of the kind of its
field.  Objects are made after what they hold, so their numbers go down along the fields, and
nothing leads back to where it came from.

Only documents that leave the types to the schema are meant here.  A member `$type` may name any
type at all.
-/

namespace ChainMapping

/-- A value that fits a declared type, as deep as types are known.  The objects in it are numbered
below `bound`. -/
inductive Conforms (schema : Schema) (store : Store) : TypeRef → (bound : Nat) → Value → Prop where
  | null {type : TypeRef} {bound : Nat} : Conforms schema store type bound .null
  | scalar {type : TypeRef} {bound : Nat} {v : Value} (kind : type.kind = .scalar)
      (plain : v.isHandle = false) : Conforms schema store type bound v
  | object {type : TypeRef} {bound id : Nat} {o : ObjectInstance} (below : id < bound)
      (made : store.object? id = some o) (typed : schema.instanceOf? type = some o.typeName)
      (fields : ∀ {name : String} {field : FieldType} {v : Value},
        schema.fieldType o.typeName name = .ok field → o.get? name = some v →
        Conforms schema store field.declared id v) :
      Conforms schema store type bound (.object id)
  | sequence {type : TypeRef} {bound id : Nat} {contents : List Value}
      (kind : type.isCollection = true) (made : store.sequences[id]? = some contents)
      (items : ∀ {element : TypeRef} {v : Value}, type.args[0]? = some element → v ∈ contents →
        Conforms schema store element bound v) :
      Conforms schema store type bound (.sequence id)
  -- Keys are texts or numbers whatever their type, so only the values conform.
  | map {type : TypeRef} {bound id : Nat} {contents : List (Value × Value)}
      (kind : type.isMap = true) (made : store.maps[id]? = some contents)
      (values : ∀ {element : TypeRef} {k v : Value}, type.args[1]? = some element →
        (k, v) ∈ contents → Conforms schema store element bound v) :
      Conforms schema store type bound (.map id)

namespace Schema

variable {schema : Schema} {owner name : String} {field : FieldType}

/-- A field has the owner and the name under which it was looked up, and its declared type. -/
theorem fieldType_eq_ok (h : schema.fieldType owner name = .ok field) :
    field.owner = owner ∧ field.name = name ∧ ∀ declared, schema.fieldsOf? owner = some declared →
      declared.lookup name = some field.declared := by
  unfold fieldType at h
  unfold fieldsOf?
  split at h
  next => cases h
  next type htype =>
    split at h
    next => cases h
    next declared hdeclared =>
      cases h
      refine ⟨rfl, rfl, fun fields hfields => ?_⟩
      rw [htype, Option.map_some, Option.some.injEq] at hfields
      rw [← hfields]
      exact hdeclared

end Schema

namespace Document

mutual

/-- No table of the document names its type. -/
def isUntagged : Document → Bool
  | list items => isUntaggedItems items
  | table members =>
    (members.lookup Conversion.typeKey).isNone && isUntaggedMembers members
  | _ => true

def isUntaggedItems : List Document → Bool
  | [] => true
  | item :: rest => item.isUntagged && isUntaggedItems rest

def isUntaggedMembers : List (String × Document) → Bool
  | [] => true
  | (_, value) :: rest => value.isUntagged && isUntaggedMembers rest

end

theorem isUntagged_of_mem {parts : List Document} (h : isUntaggedItems parts = true) {d : Document}
    (hmem : d ∈ parts) : d.isUntagged = true := by
  induction parts with
  | nil => cases hmem
  | cons first rest ih =>
    obtain ⟨hfirst, hrest⟩ := Bool.and_eq_true_iff.mp h
    rcases List.mem_cons.mp hmem with rfl | hmem
    · exact hfirst
    · exact ih hrest hmem

theorem isUntagged_of_member {members : List (String × Document)}
    (h : isUntaggedMembers members = true) {name : String} {d : Document}
    (hmem : (name, d) ∈ members) : d.isUntagged = true := by
  induction members with
  | nil => cases hmem
  | cons first rest ih =>
    obtain ⟨hfirst, hrest⟩ := Bool.and_eq_true_iff.mp h
    rcases List.mem_cons.mp hmem with rfl | hmem
    · exact hfirst
    · exact ih hrest hmem

theorem tag?_of_isUntagged {members : List (String × Document)}
    (h : (table members).isUntagged = true) : (table members).tag? = none := by
  have hnone := Option.isNone_iff_eq_none.mp (Bool.and_eq_true_iff.mp h).1
  rw [tag?, member?, hnone, Option.bind_none]

end Document

namespace Made

variable {schema : Schema} {store : Store} {type : TypeRef} {bound : Nat} {d : Document} {v : Value}

/-- What a document is made into that leaves the types to the schema conforms to the type that it
was made under. -/
theorem conforms {asked : Option TypeRef} (h : Made schema store asked bound d v)
    (huntagged : d.isUntagged = true) (hasked : asked = some type) :
    Conforms schema store type bound v := by
  induction h generalizing type with
  | plain => cases hasked
  | null => exact .null
  | scalar kind _ read =>
    cases hasked
    exact .scalar kind (Conversion.isHandle_of_scalar? read)
  | @object _ _ _ _ _ declared kind named declares below made set _ ih =>
    cases hasked
    rw [Schema.takes?, Document.tag?_of_isUntagged huntagged, Option.none_or] at named
    refine .object below made named fun {name field v} hfield hset => ?_
    have hdeclared := (Schema.fieldType_eq_ok hfield).2.2 declared declares
    obtain ⟨-, d, -, hmember⟩ := set.exists_member hset
    have huntagged' := Document.isUntagged_of_member (Bool.and_eq_true_iff.mp huntagged).2
      (Ordered.mem_of_lookup hmember)
    exact ih hdeclared hmember hset huntagged' rfl
  | sequence kind made length _ ih =>
    subst hasked
    refine .sequence (kind type rfl) made fun {element v} helement hmem => ?_
    obtain ⟨i, hitem⟩ := List.mem_iff_getElem?.mp hmem
    obtain ⟨d, hpart⟩ := exists_getElem?_of_length_eq length hitem
    have huntagged' := Document.isUntagged_of_mem huntagged (List.mem_of_getElem? hpart)
    exact ih hpart hitem huntagged' helement
  | map kind made keys _ ih =>
    subst hasked
    refine .map (kind type rfl) made fun {element k v} helement hmem => ?_
    obtain ⟨i, hentry⟩ := List.mem_iff_getElem?.mp hmem
    obtain ⟨⟨name, d⟩, hmember⟩ := exists_getElem?_of_length_eq (length_eq_of_keys keys) hentry
    have huntagged' := Document.isUntagged_of_member (Bool.and_eq_true_iff.mp huntagged).2
      (List.mem_of_getElem? hmember)
    exact ih hmember hentry huntagged' helement

/-- Where an object is expected, only null is made into null. -/
theorem isNull_eq (h : Made schema store (some type) bound d v)
    (hkind : type.kind = .object ∨ type.kind = .abstract) : v.isNull = d.isNull := by
  cases h with
  | null => rfl
  | scalar kind => rcases hkind with hkind | hkind <;> rw [kind] at hkind <;> cases hkind
  | object => rfl
  | sequence => rfl
  | map => rfl

end Made

namespace Value

variable {schema : Schema} {d : Document} {type : TypeRef} {before store : Store} {v : Value}

/-- A document that does not name types becomes a value that conforms to the declared type. -/
theorem conforms_ofDocument (huntagged : d.isUntagged = true)
    (h : ofDocument schema d type before = .ok (v, store)) :
    Conforms schema store type store.objects.size v :=
  (made_ofDocument h).conforms huntagged rfl

theorem isNull_of_ofDocument {typeName : String} (htype : schema.instanceOf? type = some typeName)
    (hnull : d.isNull = false) (h : ofDocument schema d type before = .ok (v, store)) :
    v.isNull = false := by
  rw [(made_ofDocument h).isNull_eq (Schema.kind_of_instanceOf? htype), hnull]

end Value
end ChainMapping
