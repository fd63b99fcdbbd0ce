import Mathlib.Logic.Relation
import ChainMapping.Proofs.Value.Making

/-!
# Places in a document

The type declared for a whole document decides where in it which types are expected.  A conversion
visits a part of a document exactly if it is at such a place, so what a document is made into leads
down to the same places: each of them has its value, and every instance below comes from one.
-/

namespace ChainMapping

open Relation

/-- One step down from a value: to a field of an object, to an item of a sequence, or to the key or
the value of an entry of a map. -/
inductive Store.Leads (s : Store) : Value → Value → Prop where
  | field {id : Nat} {o : ObjectInstance} {name : String} {v : Value}
      (found : s.object? id = some o) (set : o.get? name = some v) : s.Leads (.object id) v
  | item {id : Nat} {v : Value} (mem : v ∈ s.items id) : s.Leads (.sequence id) v
  | key {id : Nat} {key value : Value} (mem : (key, value) ∈ s.entries id) : s.Leads (.map id) key
  | value {id : Nat} {key value : Value} (mem : (key, value) ∈ s.entries id) :
      s.Leads (.map id) value

/-- A document where a type is expected, or none in particular. -/
structure Place where
  type : Option TypeRef
  document : Document

theorem Store.Leads.isHandle {s : Store} {v u : Value} (h : s.Leads v u) : v.isHandle = true := by
  cases h <;> rfl

namespace Schema

/-- One step down from a place: to an item, to the member of a map, or to a field. -/
inductive Holds (schema : Schema) : Place → Place → Prop where
  | item {type : Option TypeRef} {parts : List Document} {i : Nat} {d : Document}
      (kind : ∀ t, type = some t → t.isCollection = true) (part : parts[i]? = some d) :
      schema.Holds ⟨type, .list parts⟩ ⟨type.bind (·.args[0]?), d⟩
  | value {type : Option TypeRef} {members : List (String × Document)} {i : Nat} {name : String}
      {d : Document} (kind : ∀ t, type = some t → t.isMap = true)
      (member : members[i]? = some (name, d)) :
      schema.Holds ⟨type, .table members⟩ ⟨type.bind (·.args[1]?), d⟩
  | field {type : TypeRef} {members : List (String × Document)} {typeName name : String}
      {declared : List (String × TypeRef)} {field : TypeRef} {d : Document}
      (kind : type.kind = .object ∨ type.kind = .abstract)
      (named : schema.takes? type (.table members) = some typeName)
      (declares : schema.fieldsOf? typeName = some declared)
      (expected : declared.lookup name = some field) (member : members.lookup name = some d) :
      schema.Holds ⟨some type, .table members⟩ ⟨some field, d⟩

/-- Something is true at a place and at all places below. -/
def Throughout (schema : Schema) (P : Place → Prop) (x : Place) : Prop :=
  ∀ y, ReflTransGen schema.Holds x y → P y

variable {schema : Schema} {P : Place → Prop} {x : Place}

theorem throughout_iff :
    schema.Throughout P x ↔ P x ∧ ∀ y, schema.Holds x y → schema.Throughout P y := by
  refine ⟨fun h => ⟨h x .refl, fun y hxy z hyz => h z (.head hxy hyz)⟩, fun h y hxy => ?_⟩
  rcases ReflTransGen.cases_head hxy with rfl | ⟨z, hxz, hzy⟩
  · exact h.1
  · exact h.2 z hxz y hzy

theorem throughout_of_whole (hwhole : x.document.hasParts = false) (h : P x) :
    schema.Throughout P x := by
  refine throughout_iff.mpr ⟨h, fun y hxy => ?_⟩
  cases hxy <;> cases hwhole

end Schema

theorem not_object_and_map {type : TypeRef} (hobject : type.kind = .object ∨ type.kind = .abstract)
    (hmap : ∀ t, some type = some t → t.isMap = true) : False := by
  have hkind := hmap type rfl
  rw [TypeRef.isMap] at hkind
  rcases hobject with h | h <;> rw [h] at hkind <;> cases hkind

namespace Schema

variable {schema : Schema} {P : Place → Prop} {type : Option TypeRef}

theorem throughout_list {parts : List Document}
    (kind : ∀ t, type = some t → t.isCollection = true) :
    schema.Throughout P ⟨type, .list parts⟩ ↔ P ⟨type, .list parts⟩
      ∧ ∀ (i : Nat) d, parts[i]? = some d →
        schema.Throughout P ⟨type.bind (·.args[0]?), d⟩ := by
  rw [throughout_iff]
  refine and_congr_right fun _ => ⟨fun h i d hpart => h _ (.item kind hpart), fun h y hy => ?_⟩
  cases hy with
  | item _ hpart => exact h _ _ hpart

theorem throughout_map {members : List (String × Document)}
    (kind : ∀ t, type = some t → t.isMap = true) :
    schema.Throughout P ⟨type, .table members⟩ ↔ P ⟨type, .table members⟩
      ∧ ∀ (i : Nat) name d, members[i]? = some (name, d) →
        schema.Throughout P ⟨type.bind (·.args[1]?), d⟩ := by
  rw [throughout_iff]
  refine and_congr_right fun _ =>
    ⟨fun h i name d hmember => h _ (.value kind hmember), fun h y hy => ?_⟩
  cases hy with
  | value _ hmember => exact h _ _ _ hmember
  | field hobject => exact (not_object_and_map hobject kind).elim

theorem throughout_object {type : TypeRef} {members : List (String × Document)} {typeName : String}
    {declared : List (String × TypeRef)} (kind : type.kind = .object ∨ type.kind = .abstract)
    (named : schema.takes? type (.table members) = some typeName)
    (declares : schema.fieldsOf? typeName = some declared) :
    schema.Throughout P ⟨some type, .table members⟩ ↔ P ⟨some type, .table members⟩
      ∧ ∀ name field d, declared.lookup name = some field → members.lookup name = some d →
        schema.Throughout P ⟨some field, d⟩ := by
  rw [throughout_iff]
  refine and_congr_right fun _ => ⟨fun h name field d hfield hmember =>
    h _ (.field kind named declares hfield hmember), fun h y hy => ?_⟩
  cases hy with
  | value hmap => exact (not_object_and_map kind hmap).elim
  | field _ named' declares' hfield hmember =>
    obtain rfl := Option.some.inj (named.symm.trans named')
    obtain rfl := Option.some.inj (declares.symm.trans declares')
    exact h _ _ _ hfield hmember

end Schema

namespace Made

variable {schema : Schema} {store : Store} {type : Option TypeRef} {bound : Nat} {d : Document}
  {v u : Value}

/-- One step down in a document is one step down in its value. -/
theorem exists_value (h : Made schema store type bound d v) {y : Place}
    (hy : schema.Holds ⟨type, d⟩ y) :
    ∃ bound' u, store.Leads v u ∧ Made schema store y.type bound' y.document u := by
  cases hy with
  | item kind part =>
    cases h with
    | plain whole => cases whole
    | scalar _ whole => cases whole
    | sequence _ made length items =>
      obtain ⟨u, hitem⟩ := exists_getElem?_of_length_eq length.symm part
      refine ⟨bound, u, .item ?_, items part hitem⟩
      rw [Store.items, made]
      exact List.mem_of_getElem? hitem
  | value kind member =>
    cases h with
    | plain whole => cases whole
    | scalar _ whole => cases whole
    | object hobject => exact (not_object_and_map hobject kind).elim
    | @map _ _ id _ _ _ made keys values =>
      obtain ⟨⟨k, u⟩, hentry⟩ := exists_getElem?_of_length_eq (length_eq_of_keys keys).symm member
      have hmem : (k, u) ∈ store.entries id := by
        rw [Store.entries, made]
        exact List.mem_of_getElem? hentry
      exact ⟨bound, u, .value hmem, values member hentry⟩
  | field kind named declares expected member =>
    cases h with
    | scalar _ whole => cases whole
    | @object _ _ id _ _ _ _ named' declares' _ made set fields =>
      obtain rfl := Option.some.inj (named'.symm.trans named)
      obtain rfl := Option.some.inj (declares'.symm.trans declares)
      obtain ⟨u, hu⟩ := set.exists_value expected member
      exact ⟨id, u, .field made hu, fields expected member hu⟩
    | map hmap => exact (not_object_and_map kind hmap).elim

/-- An instance one step down from the value of a document is the value of a part of it. -/
theorem exists_place (h : Made schema store type bound d v) (hu : store.Leads v u)
    (hhandle : u.isHandle = true) :
    ∃ y bound', schema.Holds ⟨type, d⟩ y ∧ Made schema store y.type bound' y.document u := by
  cases h with
  | plain =>
    have hplain := hu.isHandle
    rw [Conversion.isHandle_plain] at hplain
    cases hplain
  | null => cases hu
  | scalar _ _ read =>
    have hplain := hu.isHandle
    rw [Conversion.isHandle_of_scalar? read] at hplain
    cases hplain
  | object kind named declares _ made set fields =>
    cases hu with
    | field found hset =>
      obtain rfl := Option.some.inj (made.symm.trans found)
      obtain ⟨field, d, hfield, hmember⟩ := set.exists_member hset
      exact ⟨_, _, .field kind named declares hfield hmember, fields hfield hmember hset⟩
  | sequence kind made length items =>
    cases hu with
    | item mem =>
      rw [Store.items, made] at mem
      obtain ⟨i, hitem⟩ := List.mem_iff_getElem?.mp mem
      obtain ⟨d, hpart⟩ := exists_getElem?_of_length_eq length hitem
      exact ⟨_, _, .item kind hpart, items hpart hitem⟩
  | @map _ _ _ _ contents kind made keys values =>
    cases hu with
    | key mem =>
      rw [Store.entries, made] at mem
      have hkey : some u ∈ contents.map (some ·.1) := List.mem_map.mpr ⟨_, mem, rfl⟩
      rw [keys] at hkey
      obtain ⟨member, -, hkey⟩ := List.mem_map.mp hkey
      rw [Conversion.isHandle_of_keyOf? hkey] at hhandle
      cases hhandle
    | value mem =>
      rw [Store.entries, made] at mem
      obtain ⟨i, hentry⟩ := List.mem_iff_getElem?.mp mem
      obtain ⟨⟨name, d⟩, hmember⟩ := exists_getElem?_of_length_eq (length_eq_of_keys keys) hentry
      exact ⟨_, _, .value kind hmember, values hmember hentry⟩

theorem exists_value_below (h : Made schema store type bound d v) {y : Place}
    (hy : ReflTransGen schema.Holds ⟨type, d⟩ y) :
    ∃ bound' u, ReflTransGen store.Leads v u ∧ Made schema store y.type bound' y.document u := by
  induction hy with
  | refl => exact ⟨bound, v, .refl, h⟩
  | tail _ hstep ih =>
    obtain ⟨bound', u, hreach, hmade⟩ := ih
    obtain ⟨bound'', u', hlead, hmade'⟩ := hmade.exists_value hstep
    exact ⟨bound'', u', hreach.tail hlead, hmade'⟩

theorem exists_place_below (h : Made schema store type bound d v)
    (hu : ReflTransGen store.Leads v u) (hhandle : u.isHandle = true) :
    ∃ y bound', ReflTransGen schema.Holds ⟨type, d⟩ y
      ∧ Made schema store y.type bound' y.document u := by
  induction hu with
  | refl => exact ⟨⟨type, d⟩, bound, .refl, h⟩
  | tail _ hstep ih =>
    -- Whatever leads further is an instance itself.
    obtain ⟨y, bound', hreach, hmade⟩ := ih hstep.isHandle
    obtain ⟨z, bound'', hholds, hmade'⟩ := hmade.exists_place hstep hhandle
    exact ⟨z, bound'', hreach.tail hholds, hmade'⟩

end Made
end ChainMapping
