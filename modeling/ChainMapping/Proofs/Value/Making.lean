import Mathlib.Data.List.Basic
import Mathlib.Data.Option.Basic
import ChainMapping.Proofs.Document.Sorting
import ChainMapping.Proofs.Ending
import ChainMapping.Proofs.Ordered
import ChainMapping.Value.Conversion

/-!
# What a document is made into

A conversion walks down a document and the types declared for its parts, and adds an instance to the
store for every list and table that it leaves.  `Made` relates the value that comes out to the
document and the type that went in.  It says all that the conversion does with them, without the
order in which instances are made: whatever is made later leaves what exists as it is.

An object is made after everything that it holds, so its number bounds those of the objects below
it.
-/

namespace ChainMapping

/-! ## Stores that grow -/

namespace Store

/-- A store with the same instances and perhaps more. -/
structure Extends (s s' : Store) : Prop where
  objects : ∀ {id : Nat} {o : ObjectInstance}, s.objects[id]? = some o → s'.objects[id]? = some o
  sequences : ∀ {id : Nat} {contents : List Value}, s.sequences[id]? = some contents →
    s'.sequences[id]? = some contents
  maps : ∀ {id : Nat} {contents : List (Value × Value)}, s.maps[id]? = some contents →
    s'.maps[id]? = some contents

namespace Extends

variable {s s' s'' : Store}

theorem refl (s : Store) : s.Extends s := ⟨id, id, id⟩

theorem trans (h : s.Extends s') (h' : s'.Extends s'') : s.Extends s'' :=
  ⟨fun ho => h'.objects (h.objects ho), fun hq => h'.sequences (h.sequences hq),
    fun hm => h'.maps (h.maps hm)⟩

theorem size_le (h : s.Extends s') : s.objects.size ≤ s'.objects.size := by
  by_contra hlt
  have hlast : s'.objects.size < s.objects.size := by omega
  have hkept := h.objects (Array.getElem?_eq_getElem hlast)
  simp at hkept

end Extends

theorem getElem?_push_of_some {α : Type} {xs : Array α} {id : Nat} {x y : α}
    (h : xs[id]? = some x) : (xs.push y)[id]? = some x := by
  obtain ⟨hlt, -⟩ := Array.getElem?_eq_some_iff.mp h
  rw [Array.getElem?_push_lt hlt, ← h, Array.getElem?_eq_getElem hlt]

theorem extends_addObject (s : Store) (o : ObjectInstance) : s.Extends (s.addObject o).2 :=
  ⟨getElem?_push_of_some, id, id⟩

theorem extends_addSequence (s : Store) (items : List Value) : s.Extends (s.addSequence items).2 :=
  ⟨id, getElem?_push_of_some, id⟩

theorem extends_addMap (s : Store) (entries : List (Value × Value)) :
    s.Extends (s.addMap entries).2 :=
  ⟨id, id, getElem?_push_of_some⟩

end Store

/-! ## Making values -/

theorem exists_getElem?_of_length_eq {α β : Type} {xs : List α} {ys : List β}
    (hlength : xs.length = ys.length) {i : Nat} {x : α} (hx : xs[i]? = some x) :
    ∃ y, ys[i]? = some y := by
  obtain ⟨hi, -⟩ := List.getElem?_eq_some_iff.mp hx
  exact ⟨_, List.getElem?_eq_getElem (hlength ▸ hi)⟩

/-- From a store, whatever is made stands in a store with the same instances and more. -/
def Making.Gives {α : Type} (m : Making α) (s : Store) (post : α → Store → Prop) : Prop :=
  ∀ a s', m s = .ok (a, s') → s.Extends s' ∧ post a s'

namespace Making

variable {α β : Type} {s : Store}

theorem gives_pure {a : α} {post : α → Store → Prop} (h : post a s) :
    Gives (pure a : Making α) s post := by
  intro a' s' hrun
  cases hrun
  exact ⟨.refl s, h⟩

theorem gives_throw {e : IndexingError} {post : α → Store → Prop} :
    Gives (throw e : Making α) s post := by
  intro a s' hrun
  cases hrun

theorem Gives.bind {m : Making α} {f : α → Making β} {mid : α → Store → Prop}
    {post : β → Store → Prop} (h : m.Gives s mid)
    (hf : ∀ a s', s.Extends s' → mid a s' → (f a).Gives s' post) : (m >>= f).Gives s post := by
  intro b s'' hrun
  have hsteps : (m s >>= fun made => f made.1 made.2) = .ok (b, s'') := hrun
  obtain ⟨⟨a, s'⟩, hm, hrest⟩ := bind_eq_ok hsteps
  obtain ⟨he, hmid⟩ := h a s' hm
  obtain ⟨he', hpost⟩ := hf a s' he hmid b s'' hrest
  exact ⟨he.trans he', hpost⟩

end Making

/-! ## What is asked of a document -/

namespace Document

/-- The type that a table names. -/
def tag? (d : Document) : Option String := (d.member? Conversion.typeKey).bind text?

end Document

namespace Schema

/-- The type of an object under a declared type, if the object does not name one. -/
def instanceOf? (s : Schema) (declared : TypeRef) : Option String :=
  match declared.kind with
  | .object => some declared.name
  | .abstract => (s.concreteType declared).map (·.name)
  | _ => none

/-- The type that a table under a declared type takes. -/
def takes? (s : Schema) (declared : TypeRef) (d : Document) : Option String :=
  d.tag?.or (s.instanceOf? declared)

variable {schema : Schema} {type : TypeRef} {typeName : String}

theorem kind_of_instanceOf? (h : schema.instanceOf? type = some typeName) :
    type.kind = .object ∨ type.kind = .abstract := by
  unfold instanceOf? at h
  split at h
  next hkind => exact .inl hkind
  next hkind => exact .inr hkind
  next => cases h

theorem isContainer_of_instanceOf? (h : schema.instanceOf? type = some typeName) :
    type.isContainer = false := by
  rw [TypeRef.isContainer]
  rcases kind_of_instanceOf? h with hkind | hkind
  · rw [hkind]
    rfl
  · rw [hkind]
    rfl

end Schema

/-- An object has the declared fields for which a table has members, and no others. -/
def ObjectInstance.Fills (o : ObjectInstance) (declared : List (String × TypeRef))
    (members : List (String × Document)) : Prop :=
  ∀ name, (o.get? name).isSome
    = ((declared.lookup name).isSome && (members.lookup name).isSome)

namespace ObjectInstance.Fills

variable {o : ObjectInstance} {declared : List (String × TypeRef)}
  {members : List (String × Document)} {name : String}

theorem exists_value (h : o.Fills declared members) {field : TypeRef} {d : Document}
    (hfield : declared.lookup name = some field) (hmember : members.lookup name = some d) :
    ∃ v, o.get? name = some v := by
  have hboth := h name
  rw [hfield, hmember] at hboth
  exact Option.isSome_iff_exists.mp hboth

theorem exists_member (h : o.Fills declared members) {v : Value} (hset : o.get? name = some v) :
    ∃ field d, declared.lookup name = some field ∧ members.lookup name = some d := by
  have hboth := h name
  rw [hset, Option.isSome_some, eq_comm, Bool.and_eq_true_iff] at hboth
  obtain ⟨field, hfield⟩ := Option.isSome_iff_exists.mp hboth.1
  obtain ⟨d, hmember⟩ := Option.isSome_iff_exists.mp hboth.2
  exact ⟨field, d, hfield, hmember⟩

end ObjectInstance.Fills

namespace Conversion

/-- The keys of a map are the names of the members themselves, unless they are integers. -/
def keepsText (type : Option TypeRef) : Bool :=
  type.all fun t => !integerNames.contains t.name

/-- The key under which a member of a table stands in a map, none if its name is no such key. -/
def keyOf? (type : Option TypeRef) (name : String) : Option Value :=
  if keepsText type then some (.text name) else (parseInt? name).map .int

theorem isHandle_plain (d : Document) : (plain d).isHandle = false := by
  cases d with
  | int n =>
    rw [plain]
    split <;> rfl
  | _ => rfl

theorem isHandle_of_scalar? {name : String} {d : Document} {v : Value}
    (h : scalar? name d = some v) : v.isHandle = false := by
  have hmap {α : Type} {f : α → Value} {read : Option α} (hf : ∀ a, (f a).isHandle = false)
      (hv : read.map f = some v) : v.isHandle = false := by
    obtain ⟨a, -, rfl⟩ := Option.map_eq_some_iff.mp hv
    exact hf a
  unfold scalar? at h
  split_ifs at h
  · exact hmap (fun _ => rfl) h
  · exact hmap (fun _ => rfl) h
  · exact hmap (fun _ => rfl) h
  · rcases (Option.orElse_eq_some _ _ _).mp h with h | ⟨-, h⟩
    · exact hmap (fun _ => rfl) h
    · exact hmap (fun _ => rfl) h
  · exact hmap (fun _ => rfl) h
  · split at h
    · cases h
    · cases h
    · cases h
      exact isHandle_plain d

theorem isHandle_of_keyOf? {type : Option TypeRef} {name : String} {k : Value}
    (h : keyOf? type name = some k) : k.isHandle = false := by
  unfold keyOf? at h
  split at h
  · cases h
    rfl
  · obtain ⟨n, -, rfl⟩ := Option.map_eq_some_iff.mp h
    rfl

end Conversion

/-- A document is made into a value under a declared type, or under none.  The objects in the value
are numbered below `bound`. -/
inductive Made (schema : Schema) (store : Store) :
    Option TypeRef → (bound : Nat) → Document → Value → Prop where
  | plain {bound : Nat} {d : Document} (whole : d.hasParts = false) :
      Made schema store none bound d (Conversion.plain d)
  | null {type : TypeRef} {bound : Nat} : Made schema store (some type) bound .null .null
  | scalar {type : TypeRef} {bound : Nat} {d : Document} {v : Value} (kind : type.kind = .scalar)
      (whole : d.hasParts = false) (read : Conversion.scalar? type.name d = some v) :
      Made schema store (some type) bound d v
  | object {type : TypeRef} {bound id : Nat} {members : List (String × Document)}
      {o : ObjectInstance} {declared : List (String × TypeRef)}
      (kind : type.kind = .object ∨ type.kind = .abstract)
      (named : schema.takes? type (.table members) = some o.typeName)
      (declares : schema.fieldsOf? o.typeName = some declared)
      (below : id < bound) (made : store.object? id = some o)
      (set : o.Fills declared members)
      (fields : ∀ {name : String} {field : TypeRef} {d : Document} {v : Value},
        declared.lookup name = some field → members.lookup name = some d →
        o.get? name = some v → Made schema store (some field) id d v) :
      Made schema store (some type) bound (.table members) (.object id)
  | sequence {type : Option TypeRef} {bound id : Nat} {parts : List Document}
      {contents : List Value} (kind : ∀ t, type = some t → t.isCollection = true)
      (made : store.sequences[id]? = some contents) (length : contents.length = parts.length)
      (items : ∀ {i : Nat} {d : Document} {v : Value}, parts[i]? = some d →
        contents[i]? = some v → Made schema store (type.bind (·.args[0]?)) bound d v) :
      Made schema store type bound (.list parts) (.sequence id)
  | map {type : Option TypeRef} {bound id : Nat} {members : List (String × Document)}
      {contents : List (Value × Value)} (kind : ∀ t, type = some t → t.isMap = true)
      (made : store.maps[id]? = some contents)
      (keys : contents.map (some ·.1)
        = members.map fun member => Conversion.keyOf? (type.bind (·.args[0]?)) member.1)
      (values : ∀ {i : Nat} {name : String} {d : Document} {k v : Value},
        members[i]? = some (name, d) → contents[i]? = some (k, v) →
        Made schema store (type.bind (·.args[1]?)) bound d v) :
      Made schema store type bound (.table members) (.map id)

namespace Made

theorem length_eq_of_keys {type : Option TypeRef} {members : List (String × Document)}
    {contents : List (Value × Value)} (keys : contents.map (some ·.1)
      = members.map fun member => Conversion.keyOf? type member.1) :
    contents.length = members.length := by
  simpa using congrArg List.length keys

variable {schema : Schema} {store store' : Store} {type : Option TypeRef} {bound bound' : Nat}
  {d : Document} {v : Value}

theorem mono (h : Made schema store type bound d v) (he : store.Extends store')
    (hle : bound ≤ bound') : Made schema store' type bound' d v := by
  induction h generalizing bound' with
  | plain whole => exact .plain whole
  | null => exact .null
  | scalar kind whole read => exact .scalar kind whole read
  | object kind named declares below made set _ ih =>
    exact .object kind named declares (Nat.lt_of_lt_of_le below hle) (he.objects made) set
      fun hfield hmember hset => ih hfield hmember hset (Nat.le_refl _)
  | sequence kind made length _ ih =>
    exact .sequence kind (he.sequences made) length fun hpart hitem => ih hpart hitem hle
  | map kind made keys _ ih =>
    exact .map kind (he.maps made) keys fun hmember hentry => ih hmember hentry hle

end Made

namespace Conversion

open Making (Gives gives_pure gives_throw)

variable {schema : Schema} {s : Store} {type : TypeRef} {place : String}

/-- Whatever type is asked for, the conversion makes a document into a value. -/
def Makes (schema : Schema) (d : Document) (conversion : Conversion) : Prop :=
  ∀ type place s, (conversion type place).Gives s fun v s' =>
    Made schema s' type s'.objects.size d v

theorem gives_mismatch {α : Type} {expected : String} {d : Document} {post : α → Store → Prop} :
    (mismatch place expected d : Making α).Gives s post := gives_throw

theorem gives_addSequence {items : List Value} {post : Value → Store → Prop}
    (h : post (s.addSequence items).1 (s.addSequence items).2) :
    (addSequence items).Gives s post := by
  intro v s' hrun
  cases hrun
  exact ⟨s.extends_addSequence items, h⟩

theorem gives_addMap {entries : List (Value × Value)} {post : Value → Store → Prop}
    (h : post (s.addMap entries).1 (s.addMap entries).2) : (addMap entries).Gives s post := by
  intro v s' hrun
  cases hrun
  exact ⟨s.extends_addMap entries, h⟩

theorem gives_addObject {o : ObjectInstance} {post : Value → Store → Prop}
    (h : post (s.addObject o).1 (s.addObject o).2) : (addObject o).Gives s post := by
  intro v s' hrun
  cases hrun
  exact ⟨s.extends_addObject o, h⟩

theorem gives_key {type : Option TypeRef} {name place : String} :
    (key type name place).Gives s fun k _ => keyOf? type name = some k := by
  unfold key keyOf? keepsText
  cases type with
  | none => exact gives_pure rfl
  | some type =>
    by_cases hinteger : integerNames.contains type.name = true
    · simp only [hinteger, if_true, Option.all_some, Bool.not_true, Bool.false_eq_true, if_false]
      cases parseInt? name with
      | none => exact gives_throw
      | some n => exact gives_pure rfl
    · simp only [hinteger, Bool.false_eq_true, if_false, Option.all_some, Bool.not_false, if_true]
      exact gives_pure rfl

theorem gives_items {element : Option TypeRef} {parts : List Document}
    (hparts : ∀ d ∈ parts, Makes schema d (ofDocument schema d)) (i : Nat) :
    (items element place i (ofList schema parts)).Gives s fun vs s' =>
      vs.length = parts.length ∧ ∀ (j : Nat) d v, parts[j]? = some d → vs[j]? = some v →
        Made schema s' element s'.objects.size d v := by
  induction parts generalizing i s with
  | nil => exact gives_pure ⟨rfl, fun j d v hpart => by simp at hpart⟩
  | cons d rest ih =>
    rw [ofList, items]
    refine Gives.bind (hparts d List.mem_cons_self element _ s) fun v s₁ _ hv => ?_
    have hrest := ih (fun d hmem => hparts d (List.mem_cons_of_mem _ hmem)) (i + 1) (s := s₁)
    refine Gives.bind hrest fun vs s₂ he hvs => ?_
    obtain ⟨hlength, hmade⟩ := hvs
    refine gives_pure ⟨by simp [hlength], fun j d' v' hpart hitem => ?_⟩
    cases j with
    | zero =>
      cases hpart
      cases hitem
      exact hv.mono he he.size_le
    | succ j => exact hmade j d' v' hpart hitem

theorem gives_entries {keyType valueType : Option TypeRef} {members : List (String × Document)}
    (hmembers : ∀ member ∈ members, Makes schema member.2 (ofDocument schema member.2)) :
    (entries keyType valueType place (ofTable schema members)).Gives s fun es s' =>
      es.map (some ·.1) = members.map (fun member => keyOf? keyType member.1)
        ∧ ∀ (i : Nat) name d k v, members[i]? = some (name, d) → es[i]? = some (k, v) →
          Made schema s' valueType s'.objects.size d v := by
  induction members generalizing s with
  | nil => exact gives_pure ⟨rfl, fun i name d k v hmember => by simp at hmember⟩
  | cons member rest ih =>
    obtain ⟨name, d⟩ := member
    rw [ofTable, entries]
    refine Gives.bind gives_key fun k s₁ _ hk => ?_
    refine Gives.bind (hmembers _ List.mem_cons_self valueType _ s₁) fun v s₂ _ hv => ?_
    have hrest := ih (fun member hmem => hmembers member (List.mem_cons_of_mem _ hmem)) (s := s₂)
    refine Gives.bind hrest fun es s₃ he hes => ?_
    obtain ⟨hkeys, hmade⟩ := hes
    refine gives_pure ⟨?_, fun i name' d' k' v' hmember hentry => ?_⟩
    · rw [List.map_cons, List.map_cons, hk, hkeys]
    · cases i with
      | zero =>
        cases hmember
        cases hentry
        exact hv.mono he he.size_le
      | succ i => exact hmade i name' d' k' v' hmember hentry

theorem lookup_ofTable (members : List (String × Document)) (name : String) :
    (ofTable schema members).lookup name = (members.lookup name).map (ofDocument schema) := by
  induction members with
  | nil => rfl
  | cons member rest ih =>
    obtain ⟨first, d⟩ := member
    rw [ofTable, List.lookup_cons, List.lookup_cons]
    split
    · rfl
    · exact ih

/-- The fields that are declared and have a member are set, and no others. -/
theorem gives_fields {members : List (String × Document)}
    (hmembers : ∀ member ∈ members, Makes schema member.2 (ofDocument schema member.2))
    (typeName : String) (declared : List (String × TypeRef)) :
    (fields (ofTable schema members) place declared).Gives s fun set s' =>
      ObjectInstance.Fills ⟨typeName, set⟩ declared members
      ∧ ∀ name field d v, declared.lookup name = some field → members.lookup name = some d →
        set.lookup name = some v → Made schema s' (some field) s'.objects.size d v := by
  induction declared generalizing s with
  | nil => exact gives_pure ⟨fun name => rfl, fun name field d v hfield => by simp at hfield⟩
  | cons first rest ih =>
    obtain ⟨first, type⟩ := first
    rw [fields, lookup_ofTable]
    cases hlookup : members.lookup first with
    | none =>
      intro set s' hrun
      obtain ⟨he, hset, hmade⟩ := ih set s' hrun
      refine ⟨he, fun name => ?_, fun name field d v hfield hmember => ?_⟩
      · rw [hset name, List.lookup_cons]
        by_cases hname : name = first
        · rw [hname, hlookup, Option.isSome_none, Bool.and_false, Bool.and_false]
        · rw [beq_eq_false_iff_ne.mpr hname]
      · have hne : name ≠ first := by
          rintro rfl
          rw [hlookup] at hmember
          cases hmember
        rw [List.lookup_cons, beq_eq_false_iff_ne.mpr hne] at hfield
        exact hmade name field d v hfield hmember
    | some d =>
      have hd := hmembers _ (Ordered.mem_of_lookup hlookup)
      refine Gives.bind (hd (some type) _ s) fun v s₁ _ hv => ?_
      refine Gives.bind (ih (s := s₁)) fun set s₂ he hset => ?_
      obtain ⟨hset, hmade⟩ := hset
      refine gives_pure ⟨fun name => ?_, fun name field d' v' hfield hmember hvalue => ?_⟩
      · show (List.lookup name ((first, v) :: set)).isSome = _
        rw [List.lookup_cons, List.lookup_cons]
        by_cases hname : name = first
        · rw [hname, beq_self_eq_true, hlookup]
          rfl
        · rw [beq_eq_false_iff_ne.mpr hname]
          exact hset name
      · rw [List.lookup_cons] at hfield hvalue
        by_cases hname : name = first
        · subst hname
          rw [beq_self_eq_true] at hfield hvalue
          rw [hlookup] at hmember
          cases hfield
          cases hvalue
          cases hmember
          exact hv.mono he he.size_le
        · rw [beq_eq_false_iff_ne.mpr hname] at hfield hvalue
          exact hmade name field d' v' hfield hmember hvalue

theorem gives_objectType (hkind : type.kind = .object ∨ type.kind = .abstract) (d : Document) :
    (objectType schema type d.tag? place).Gives s fun typeName _ =>
      schema.takes? type d = some typeName := by
  unfold objectType Schema.takes? Schema.instanceOf?
  cases d.tag? with
  | some tag => exact gives_pure rfl
  | none =>
    rcases hkind with hkind | hkind
    · simp only [hkind, reduceCtorEq, if_false]
      exact gives_pure rfl
    · simp only [hkind, if_true]
      cases schema.concreteType type with
      | none => exact gives_throw
      | some concrete => exact gives_pure rfl

theorem gives_object (hkind : type.kind = .object ∨ type.kind = .abstract)
    {members : List (String × Document)}
    (hmembers : ∀ member ∈ members, Makes schema member.2 (ofDocument schema member.2)) :
    (object schema type (Document.table members).tag? (ofTable schema members) place).Gives s
      fun v s' => Made schema s' (some type) s'.objects.size (.table members) v := by
  unfold object
  refine Gives.bind (gives_objectType hkind _) fun typeName s₁ _ htaken => ?_
  cases hdeclared : schema.fieldsOf? typeName with
  | none => exact gives_throw
  | some declared =>
    refine Gives.bind (gives_fields hmembers typeName declared) fun set s₂ _ hset => ?_
    obtain ⟨hset, hmade⟩ := hset
    -- The object gets its number last, so all that it holds is numbered below.
    refine gives_addObject (.object (o := ⟨typeName, set⟩) hkind htaken hdeclared ?_ ?_ hset ?_)
    · simp [Store.addObject]
    · simp [Store.addObject, Store.object?]
    · exact fun hfield hmember hvalue =>
        (hmade _ _ _ _ hfield hmember hvalue).mono (s₂.extends_addObject _) (Nat.le_refl _)

theorem gives_sequence (type : Option TypeRef) {parts : List Document}
    (hkind : ∀ t, type = some t → t.isCollection = true)
    (hparts : ∀ d ∈ parts, Makes schema d (ofDocument schema d)) :
    (do addSequence (← items (type.bind (·.args[0]?)) place 0 (ofList schema parts))
      : Making Value).Gives s fun v s' => Made schema s' type s'.objects.size (.list parts) v := by
  refine Gives.bind (gives_items hparts 0) fun vs s₁ _ hvs => ?_
  obtain ⟨hlength, hmade⟩ := hvs
  have hadded : (s₁.addSequence vs).2.sequences[s₁.sequences.size]? = some vs := by
    simp [Store.addSequence]
  refine gives_addSequence (.sequence hkind hadded hlength fun hpart hitem => ?_)
  exact (hmade _ _ _ hpart hitem).mono (s₁.extends_addSequence vs) (Nat.le_refl _)

theorem gives_map (type : Option TypeRef) {members : List (String × Document)}
    (hkind : ∀ t, type = some t → t.isMap = true)
    (hmembers : ∀ member ∈ members, Makes schema member.2 (ofDocument schema member.2)) :
    (do addMap (← entries (type.bind (·.args[0]?)) (type.bind (·.args[1]?)) place
        (ofTable schema members)) : Making Value).Gives s fun v s' =>
      Made schema s' type s'.objects.size (.table members) v := by
  refine Gives.bind (gives_entries hmembers) fun es s₁ _ hes => ?_
  obtain ⟨hkeys, hmade⟩ := hes
  have hadded : (s₁.addMap es).2.maps[s₁.maps.size]? = some es := by simp [Store.addMap]
  refine gives_addMap (.map hkind hadded hkeys fun hmember hentry => ?_)
  exact (hmade _ _ _ _ _ hmember hentry).mono (s₁.extends_addMap es) (Nat.le_refl _)

theorem makes_ofItems {parts : List Document}
    (hparts : ∀ d ∈ parts, Makes schema d (ofDocument schema d)) :
    Makes schema (.list parts) (ofItems (.list parts) (ofList schema parts)) := by
  intro type place s
  cases type with
  | none => exact gives_sequence none (fun t ht => by cases ht) hparts
  | some type =>
    cases hkind : type.kind with
    | list | set | queue | array =>
      simp only [ofItems, hkind]
      refine gives_sequence (some type) (fun t ht => ?_) hparts
      cases ht
      rw [TypeRef.isCollection, hkind]
      rfl
    | scalar | object | abstract | map =>
      simp only [ofItems, hkind]
      exact gives_mismatch

theorem makes_ofMembers {members : List (String × Document)}
    (hmembers : ∀ member ∈ members, Makes schema member.2 (ofDocument schema member.2)) :
    Makes schema (.table members)
      (ofMembers schema (.table members) (ofTable schema members)) := by
  intro type place s
  cases type with
  | none => exact gives_map none (fun t ht => by cases ht) hmembers
  | some type =>
    cases hkind : type.kind with
    | object | abstract =>
      simp only [ofMembers, hkind]
      exact gives_object (by simp [hkind]) hmembers
    | map =>
      simp only [ofMembers, hkind]
      refine gives_map (some type) (fun t ht => ?_) hmembers
      cases ht
      rw [TypeRef.isMap, hkind]
      rfl
    | scalar | list | set | queue | array =>
      simp only [ofMembers, hkind]
      exact gives_mismatch

theorem makes_ofPlain {d : Document} (hwhole : d.hasParts = false) :
    Makes schema d (ofPlain d) := by
  intro type place s
  cases type with
  | none => exact gives_pure (.plain hwhole)
  | some type =>
    rw [ofPlain]
    cases hnull : d.isNull with
    | true =>
      obtain rfl : d = .null := by cases d <;> simp [Document.isNull] at hnull ⊢
      exact gives_pure .null
    | false =>
      cases hkind : type.kind with
      | scalar =>
        cases hscalar : scalar? type.name d with
        | none => exact gives_mismatch
        | some v => exact gives_pure (.scalar hkind hwhole hscalar)
      | object | abstract | list | set | queue | array | map => exact gives_mismatch

mutual

theorem makes_ofDocument : (d : Document) → Makes schema d (ofDocument schema d)
  | .list parts => makes_ofItems (makes_ofList parts)
  | .table members => makes_ofMembers (makes_ofTable members)
  | .null | .bool _ | .int _ | .float _ | .text _ | .moment _ | .unreadable => makes_ofPlain rfl

theorem makes_ofList : (parts : List Document) →
    ∀ d ∈ parts, Makes schema d (ofDocument schema d)
  | [] => fun d hmem => absurd hmem List.not_mem_nil
  | first :: rest => by
    intro d hmem
    rcases List.mem_cons.mp hmem with heq | hmem
    · exact heq ▸ makes_ofDocument first
    · exact makes_ofList rest d hmem

theorem makes_ofTable : (members : List (String × Document)) →
    ∀ member ∈ members, Makes schema member.2 (ofDocument schema member.2)
  | [] => fun member hmem => absurd hmem List.not_mem_nil
  | (name, d) :: rest => by
    intro member hmem
    rcases List.mem_cons.mp hmem with rfl | hmem
    · exact makes_ofDocument d
    · exact makes_ofTable rest member hmem

end

end Conversion

namespace Value

variable {schema : Schema} {d : Document} {type : TypeRef} {before store : Store} {v : Value}

/-- The value of a document is made of it under the declared type. -/
theorem made_ofDocument (h : ofDocument schema d type before = .ok (v, store)) :
    Made schema store (some type) store.objects.size d v :=
  (Conversion.makes_ofDocument d (some type) "$" before v store h).2

end Value
end ChainMapping
