import ChainMapping.Proofs.Schema.Loading
import ChainMapping.Proofs.Value.Places

/-!
# Values that are faithful to their documents

A value is faithful to a document and a declared type if it is the document again, item by item and
member by member, and if everything in it has the type that is declared where it stands.  Only a
member `$type` can bring in another type: it is believed wherever an object is expected, and its
type may be any that is declared.  So conversion is faithful exactly if every `$type` that it comes
across is honest.
-/

namespace ChainMapping

open Conversion

/-! ## What a value must be -/

/-- What a document without parts denotes: the same as a value, or a float for a whole number. -/
inductive Document.Denotes : Document → Value → Prop where
  | plain {d : Document} (whole : d.hasParts = false) : d.Denotes (plain d)
  | number {n : Int} : (Document.int n).Denotes (.float (Decimal.toFloat (n < 0) n.natAbs 0))

/-- The kinds of value that a scalar type has.  A scalar type of another name takes whatever the
document says. -/
def Value.scalarKinds : String → List String
  | "Bool" | "Boolean" => ["bool"]
  | "Byte" | "Short" | "Int" | "Integer" | "Long" => ["int"]
  | "Float" | "Double" => ["float"]
  | "Decimal" => ["float", "text"]
  | "String" | "Char" | "Date" | "DateTime" | "Uuid" => ["text"]
  | _ => ["null", "bool", "int", "float", "text"]

/-- The types that an object may have under a declared type: that type itself, or any type that is
declared and not abstract in place of an abstract one. -/
def Schema.Admits (schema : Schema) (declared : TypeRef) (typeName : String) : Prop :=
  match declared.kind with
  | .object => typeName = declared.name
  | .abstract => schema.kindOf? typeName = some .object
  | _ => False

/-- A value that is faithful to a document and a type, if any is declared. -/
inductive Faithful (schema : Schema) (store : Store) :
    Option TypeRef → Document → Value → Prop where
  | null {type : Option TypeRef} : Faithful schema store type .null .null
  | scalar {type : Option TypeRef} {d : Document} {v : Value}
      (kind : ∀ t, type = some t → t.kind = .scalar ∧ v.kind ∈ Value.scalarKinds t.name)
      (denotes : d.Denotes v) : Faithful schema store type d v
  | object {type : TypeRef} {members : List (String × Document)} {id : Nat} {o : ObjectInstance}
      {declared : List (String × TypeRef)} (made : store.object? id = some o)
      (admitted : schema.Admits type o.typeName)
      (declares : schema.fieldsOf? o.typeName = some declared) (set : o.Fills declared members)
      (fields : ∀ {name : String} {field : TypeRef} {d : Document} {v : Value},
        declared.lookup name = some field → members.lookup name = some d →
        o.get? name = some v → Faithful schema store (some field) d v) :
      Faithful schema store (some type) (.table members) (.object id)
  | sequence {type : Option TypeRef} {parts : List Document} {id : Nat} {contents : List Value}
      (kind : ∀ t, type = some t → t.isCollection = true)
      (made : store.sequences[id]? = some contents) (length : contents.length = parts.length)
      (items : ∀ {i : Nat} {d : Document} {v : Value}, parts[i]? = some d →
        contents[i]? = some v → Faithful schema store (type.bind (·.args[0]?)) d v) :
      Faithful schema store type (.list parts) (.sequence id)
  | map {type : Option TypeRef} {members : List (String × Document)} {id : Nat}
      {contents : List (Value × Value)} (kind : ∀ t, type = some t → t.isMap = true)
      (made : store.maps[id]? = some contents)
      (keys : contents.map (some ·.1)
        = members.map fun member => keyOf? (type.bind (·.args[0]?)) member.1)
      (values : ∀ {i : Nat} {name : String} {d : Document} {k v : Value},
        members[i]? = some (name, d) → contents[i]? = some (k, v) →
        Faithful schema store (type.bind (·.args[1]?)) d v) :
      Faithful schema store type (.table members) (.map id)

/-! ## Scalars -/

namespace Conversion

variable {name : String} {d : Document} {v : Value}

theorem denotes_of_scalar? (hwhole : d.hasParts = false) (h : scalar? name d = some v) :
    d.Denotes v := by
  have hbool (h : d.bool?.map .bool = some v) : d.Denotes v := by
    cases d <;> cases h
    exact .plain rfl
  have htext (h : d.text?.map .text = some v) : d.Denotes v := by
    cases d <;> cases h
    exact .plain rfl
  have hint (h : (int? d).map .int = some v) : d.Denotes v := by
    obtain ⟨n, hn, rfl⟩ := Option.map_eq_some_iff.mp h
    cases d with
    | int m =>
      have hplain : plain (.int m) = .int n := by rw [plain, hn]
      exact hplain ▸ .plain rfl
    | _ => cases hn
  have hfloat (h : (float? d).map .float = some v) : d.Denotes v := by
    cases d <;> cases h
    · exact .number
    · exact .plain rfl
  unfold scalar? at h
  split_ifs at h
  · exact hbool h
  · exact hint h
  · exact hfloat h
  · rcases (Option.orElse_eq_some _ _ _).mp h with h | ⟨-, h⟩
    · exact hfloat h
    · exact htext h
  · exact htext h
  · cases d <;> cases h <;> exact .plain rfl

theorem kind_of_scalar? (h : scalar? name d = some v) : v.kind ∈ Value.scalarKinds name := by
  have hmap {α : Type} {f : α → Value} {kind : String} {read : Option α}
      (hf : ∀ a, (f a).kind = kind) (hv : read.map f = some v) : v.kind ∈ [kind] := by
    obtain ⟨a, -, rfl⟩ := Option.map_eq_some_iff.mp hv
    exact List.mem_singleton.mpr (hf a)
  unfold Value.scalarKinds
  split
  case h_1 | h_2 | h_3 | h_4 | h_5 | h_6 | h_7 | h_8 | h_9 | h_11 | h_12 | h_13 | h_14 | h_15 =>
    exact hmap (fun _ => rfl) h
  case h_10 =>
    rcases (Option.orElse_eq_some _ _ _).mp h with h | ⟨-, h⟩
    · have hfloat : v.kind ∈ ["float"] := hmap (fun _ => rfl) h
      exact List.mem_append_left ["text"] hfloat
    · exact List.mem_cons_of_mem _ (hmap (fun _ => rfl) h)
  case h_16 =>
    have hhandle := isHandle_of_scalar? h
    cases v with
    | object | sequence | map => cases hhandle
    | _ => simp [Value.kind]

end Conversion

/-! ## Types -/

/-- Where an object is expected, the type that a table names is one that the object may have. -/
def Schema.Honest (schema : Schema) (x : Place) : Prop :=
  ∀ type tag, x.type = some type → type.kind = .object ∨ type.kind = .abstract →
    x.document.tag? = some tag → schema.Admits type tag

namespace Schema

variable {document : SchemaDocument} {schema : Schema} {type : TypeRef} {typeName : String}
  {members : List (String × Document)}

theorem LoadedFrom.admits_of_instanceOf? (loaded : schema.LoadedFrom document)
    (h : schema.instanceOf? type = some typeName) : schema.Admits type typeName := by
  rcases kind_of_instanceOf? h with hkind | hkind
  · simp only [instanceOf?, hkind, Option.some.injEq] at h
    simp only [Admits, hkind]
    exact h.symm
  · simp only [instanceOf?, hkind, concreteType, if_true, Option.map_map] at h
    simp only [Admits, hkind]
    obtain ⟨name, hname, rfl⟩ := Option.map_eq_some_iff.mp h
    exact loaded.concrete _ (Ordered.mem_of_lookup hname)

/-- The type that a table takes is one that it may have exactly if it names no other. -/
theorem LoadedFrom.admits_iff_honest (loaded : schema.LoadedFrom document)
    (hkind : type.kind = .object ∨ type.kind = .abstract)
    (h : schema.takes? type (.table members) = some typeName) :
    schema.Admits type typeName ↔ schema.Honest ⟨some type, .table members⟩ := by
  unfold takes? at h
  cases htag : (Document.table members).tag? with
  | none =>
    rw [htag, Option.none_or] at h
    refine ⟨fun _ type' tag _ _ hnamed => ?_, fun _ => loaded.admits_of_instanceOf? h⟩
    rw [htag] at hnamed
    cases hnamed
  | some tag =>
    rw [htag, Option.some_or, Option.some.injEq] at h
    subst h
    refine ⟨fun hadmits type' tag' htype _ hnamed => ?_, fun hhonest => hhonest _ _ rfl hkind htag⟩
    cases htype
    rw [htag, Option.some.injEq] at hnamed
    exact hnamed ▸ hadmits

theorem honest_of_tag? {x : Place} (h : x.document.tag? = none) : schema.Honest x := by
  intro type tag _ _ htag
  rw [h] at htag
  cases htag

theorem honest_of_isMap {x : Place} (h : ∀ t, x.type = some t → t.isMap = true) :
    schema.Honest x := by
  intro type tag htype hkind _
  exact (not_object_and_map hkind fun t ht => h t (htype.trans ht)).elim

end Schema

theorem Document.tag?_of_whole {d : Document} (h : d.hasParts = false) : d.tag? = none := by
  cases d with
  | table => cases h
  | _ => rfl

/-! ## Conversion -/

section

variable {document : SchemaDocument} {schema : Schema} {store : Store} {bound : Nat} {d : Document}
  {v : Value}

theorem throughout_honest_of_whole {type : Option TypeRef} (h : d.hasParts = false) :
    schema.Throughout schema.Honest ⟨type, d⟩ :=
  Schema.throughout_of_whole h (Schema.honest_of_tag? (Document.tag?_of_whole h))

/-- Below a table without lists and tables in it there is nothing to be dishonest. -/
theorem throughout_honest_of_flat {type : TypeRef} {members : List (String × Document)}
    {typeName : String} {declared : List (String × TypeRef)} (loaded : schema.LoadedFrom document)
    (kind : type.kind = .object ∨ type.kind = .abstract)
    (named : schema.takes? type (.table members) = some typeName)
    (declares : schema.fieldsOf? typeName = some declared)
    (admitted : schema.Admits type typeName)
    (hflat : ∀ member ∈ members, member.2.hasParts = false) :
    schema.Throughout schema.Honest ⟨some type, .table members⟩ := by
  refine (Schema.throughout_object kind named declares).mpr
    ⟨(loaded.admits_iff_honest kind named).mp admitted, fun name field d _ hmember => ?_⟩
  exact throughout_honest_of_whole (hflat _ (Ordered.mem_of_lookup hmember))

theorem Made.faithful {type : Option TypeRef} (loaded : schema.LoadedFrom document)
    (h : Made schema store type bound d v)
    (hhonest : schema.Throughout schema.Honest ⟨type, d⟩) : Faithful schema store type d v := by
  induction h with
  | plain whole => exact .scalar (fun t ht => by cases ht) (.plain whole)
  | null => exact .null
  | scalar kind whole read =>
    refine .scalar (fun t ht => ?_) (denotes_of_scalar? whole read)
    cases ht
    exact ⟨kind, kind_of_scalar? read⟩
  | object kind named declares _ made set _ ih =>
    obtain ⟨hhere, hbelow⟩ := (Schema.throughout_object kind named declares).mp hhonest
    have hadmits := (loaded.admits_iff_honest kind named).mpr hhere
    exact .object made hadmits declares set fun hfield hmember hset =>
      ih hfield hmember hset (hbelow _ _ _ hfield hmember)
  | sequence kind made length _ ih =>
    obtain ⟨-, hbelow⟩ := (Schema.throughout_list kind).mp hhonest
    exact .sequence kind made length fun hpart hitem => ih hpart hitem (hbelow _ _ hpart)
  | map kind made keys _ ih =>
    obtain ⟨-, hbelow⟩ := (Schema.throughout_map kind).mp hhonest
    exact .map kind made keys fun hmember hentry => ih hmember hentry (hbelow _ _ _ hmember)

theorem Made.honest {type : Option TypeRef} (loaded : schema.LoadedFrom document)
    (h : Made schema store type bound d v) (hfaithful : Faithful schema store type d v) :
    schema.Throughout schema.Honest ⟨type, d⟩ := by
  -- The induction is on what was made, since only that shows which type a table has taken.
  induction h with
  | plain whole | scalar _ whole => exact throughout_honest_of_whole whole
  | null => exact throughout_honest_of_whole rfl
  | object kind named declares _ made set _ ih =>
    cases hfaithful with
    | scalar _ denotes => cases denotes
    | object made' admitted declares' _ fields =>
      obtain rfl := Option.some.inj (made.symm.trans made')
      obtain rfl := Option.some.inj (declares.symm.trans declares')
      have hhere := (loaded.admits_iff_honest kind named).mp admitted
      refine (Schema.throughout_object kind named declares).mpr
        ⟨hhere, fun _ _ _ hfield hmember => ?_⟩
      obtain ⟨v, hset⟩ := set.exists_value hfield hmember
      exact ih hfield hmember hset (fields hfield hmember hset)
  | sequence kind made length _ ih =>
    cases hfaithful with
    | scalar _ denotes => cases denotes
    | sequence _ made' _ items =>
      obtain rfl := Option.some.inj (made.symm.trans made')
      refine (Schema.throughout_list kind).mpr ⟨Schema.honest_of_tag? rfl, fun _ _ hpart => ?_⟩
      obtain ⟨u, hitem⟩ := exists_getElem?_of_length_eq length.symm hpart
      exact ih hpart hitem (items hpart hitem)
  | map kind made keys _ ih =>
    cases hfaithful with
    | scalar _ denotes => cases denotes
    | map _ made' _ values =>
      obtain rfl := Option.some.inj (made.symm.trans made')
      refine (Schema.throughout_map kind).mpr
        ⟨Schema.honest_of_isMap kind, fun _ _ _ hmember => ?_⟩
      obtain ⟨⟨k, u⟩, hentry⟩ := exists_getElem?_of_length_eq (length_eq_of_keys keys).symm hmember
      exact ih hmember hentry (values hmember hentry)

/-- A document that is converted gives a value that is faithful to it and to the declared type,
exactly if every `$type` that the conversion comes across names a type that may stand there. -/
theorem Value.faithful_iff {type : TypeRef} {before : Store}
    (hloaded : Schema.ofDocument document = .ok schema)
    (h : Value.ofDocument schema d type before = .ok (v, store)) :
    Faithful schema store (some type) d v ↔ schema.Throughout schema.Honest ⟨some type, d⟩ := by
  have loaded := Schema.loadedFrom_of_ofDocument hloaded
  have hmade := made_ofDocument h
  exact ⟨hmade.honest loaded, hmade.faithful loaded⟩

end

/-- A till with the person who owns it and with the payments made there, by card if nothing else is
said. -/
def till : SchemaDocument where
  types :=
    [("Till", { fields := [("owner", "Person"), ("payments", "List<Payment>")] }),
     ("Person", { fields := [("name", "String")] }),
     ("Payment", { isAbstract := true }),
     ("Card", { fields := [("number", "String")] }),
     ("Cash", { fields := [("cents", "Int")] })]
  concreteTypes := [("Payment", "Card")]

def tillSchema : Schema where
  types :=
    [("Till", ⟨.object, [("owner", ⟨"Person", .object, []⟩),
       ("payments", ⟨"List", .list, [⟨"Payment", .abstract, []⟩]⟩)]⟩),
     ("Person", ⟨.object, [("name", ⟨"String", .scalar, []⟩)]⟩),
     ("Payment", ⟨.abstract, []⟩),
     ("Card", ⟨.object, [("number", ⟨"String", .scalar, []⟩)]⟩),
     ("Cash", ⟨.object, [("cents", ⟨"Int", .scalar, []⟩)]⟩)]
  concreteTypes := [("Payment", "Card")]

theorem ofDocument_till : Schema.ofDocument till = .ok tillSchema := by
  decide +kernel

def tillType : TypeRef := ⟨"Till", .object, []⟩

/-- A payment in cash and one that does not say how it was made. -/
def honestTill : Document :=
  .table
    [("owner", .table [("$type", .text "Person"), ("name", .text "Ada")]),
     ("payments", .list [.table [("$type", .text "Cash"), ("cents", .int 5)], .table []])]

def honestStore : Store where
  objects :=
    #[⟨"Person", [("name", .text "Ada")]⟩, ⟨"Cash", [("cents", .int 5)]⟩, ⟨"Card", []⟩,
      ⟨"Till", [("owner", .object 0), ("payments", .sequence 0)]⟩]
  sequences := #[[.object 1, .object 2]]

theorem honest_honestTill :
    tillSchema.Throughout tillSchema.Honest ⟨some tillType, honestTill⟩ := by
  refine (Schema.throughout_object (.inl rfl) rfl rfl).mpr
    ⟨Schema.honest_of_tag? rfl, fun name field d hfield hmember => ?_⟩
  have hmem := Ordered.mem_of_lookup hfield
  simp only [List.mem_cons, Prod.mk.injEq, List.not_mem_nil, or_false] at hmem
  have loaded := Schema.loadedFrom_of_ofDocument ofDocument_till
  rcases hmem with ⟨rfl, rfl⟩ | ⟨rfl, rfl⟩
  · obtain rfl := Option.some.inj hmember
    exact throughout_honest_of_flat loaded (.inl rfl) rfl rfl rfl (by decide)
  · obtain rfl := Option.some.inj hmember
    refine (Schema.throughout_list fun t ht => by cases ht; rfl).mpr
      ⟨Schema.honest_of_tag? rfl, fun i d hpart => ?_⟩
    have hmem := List.mem_of_getElem? hpart
    simp only [List.mem_cons, List.not_mem_nil, or_false] at hmem
    rcases hmem with rfl | rfl
    · exact throughout_honest_of_flat loaded (.inr rfl) rfl rfl rfl (by decide)
    · exact throughout_honest_of_flat loaded (.inr rfl) rfl rfl rfl (by decide)

/-- The owner is a person and the payments are what they are said to be. -/
theorem Value.faithful_iff_honestTill :
    Schema.ofDocument till = .ok tillSchema
      ∧ Value.ofDocument tillSchema honestTill tillType {} = .ok (.object 3, honestStore)
      ∧ Faithful tillSchema honestStore (some tillType) honestTill (.object 3) := by
  have hmade : ofDocument tillSchema honestTill tillType {} = .ok (.object 3, honestStore) := rfl
  exact ⟨ofDocument_till, hmade, (faithful_iff ofDocument_till hmade).mpr honest_honestTill⟩

/-- A till that is owned by a payment. -/
def dishonestTill : Document :=
  .table [("owner", .table [("$type", .text "Cash"), ("cents", .int 5), ("name", .text "Ada")])]

def dishonestStore : Store where
  objects := #[⟨"Cash", [("cents", .int 5)]⟩, ⟨"Till", [("owner", .object 0)]⟩]

/-- A person is expected, and there is a payment with what is known of payments. -/
theorem Value.not_faithful_dishonestTill :
    Schema.ofDocument till = .ok tillSchema
      ∧ tillSchema.fieldType "Till" "owner" = .ok ⟨"Till", "owner", ⟨"Person", .object, []⟩⟩
      ∧ Value.ofDocument tillSchema dishonestTill tillType {} = .ok (.object 1, dishonestStore)
      ∧ dishonestStore.typeName? (.object 0) = some "Cash"
      ∧ ¬ Faithful tillSchema dishonestStore (some tillType) dishonestTill (.object 1) := by
  refine ⟨ofDocument_till, rfl, rfl, rfl, fun hfaithful => ?_⟩
  cases hfaithful with
  | scalar _ denotes => cases denotes
  | object made _ declares _ fields =>
    obtain rfl := Option.some.inj made
    obtain rfl := Option.some.inj declares
    have howner := @fields "owner" _ _ _ rfl rfl rfl
    cases howner with
    | scalar _ denotes => cases denotes
    | object made admitted =>
      obtain rfl := Option.some.inj made
      have hsame : "Cash" = "Person" := admitted
      exact absurd hsame (by decide)

end ChainMapping
