import ChainMapping.Proofs.Index.Walk
import ChainMapping.Proofs.Value.Conforming

/-!
# Levels that fit a type

A chain whose levels read what the schema declares finds its way in every value that conforms to the
type at its start: each field is read from an object of the type that owns it, and each container is
of the kind of its field.  The numbers of the objects that are entered go down, so none of them is
met a second time.
-/

namespace ChainMapping

/-- Fields that are read in a row from an instance of a declared type, up to one of type `last`. -/
inductive Schema.Reads (schema : Schema) : TypeRef → List FieldType → (last : TypeRef) → Prop where
  | nil {type : TypeRef} : Reads schema type [] type
  | cons {type last : TypeRef} {owner : String} {field : FieldType} {rest : List FieldType}
      (owned : schema.instanceOf? type = some owner)
      (declared : schema.fieldType owner field.name = .ok field)
      (further : Reads schema field.declared rest last) : Reads schema type (field :: rest) last

/-- The type of the elements of a container from which a chain can go on: none for the keys of a
map, which are never objects. -/
def TypeRef.elementOn (container : TypeRef) : Option MapSide → Option TypeRef
  | none => container.args[0]?
  | some .key => none
  | some .value => container.args[1]?

namespace ChainLevel

/-- A level that leads from a declared type to a container of another one. -/
structure Declared (level : ChainLevel) (schema : Schema) (type container : TypeRef) : Prop where
  nonempty : level.fields ≠ []
  reads : schema.Reads type level.fields container
  isContainer : container.isContainer = true
  role : level.descriptor.isMap = container.isMap

/-- Levels that fit an instance of a declared type. -/
inductive Typed (schema : Schema) : TypeRef → List ChainLevel → Prop where
  | nil {type : TypeRef} : Typed schema type []
  | last {level : ChainLevel} {type container : TypeRef}
      (declared : level.Declared schema type container) : Typed schema type [level]
  | onward {level : ChainLevel} {rest : List ChainLevel} {type container element : TypeRef}
      (declared : level.Declared schema type container)
      (held : container.elementOn level.side = some element) (further : Typed schema element rest) :
      Typed schema type (level :: rest)

end ChainLevel

namespace Conforms

variable {schema : Schema} {store : Store} {type : TypeRef} {bound : Nat} {v : Value}

/-- Where an object is expected and something is set, there is an object of that type. -/
theorem object_of_instanceOf? (h : Conforms schema store type bound v) (hnull : v.isNull = false)
    {owner : String} (howner : schema.instanceOf? type = some owner) :
    ∃ id o, v = .object id ∧ id < bound ∧ store.object? id = some o ∧ o.typeName = owner
      ∧ ∀ {name : String} {field : FieldType} {u : Value},
        schema.fieldType owner name = .ok field → o.get? name = some u →
        Conforms schema store field.declared id u := by
  have hkind := Schema.kind_of_instanceOf? howner
  have hplain : (type.isCollection || type.isMap) = false :=
    Schema.isContainer_of_instanceOf? howner
  cases h with
  | null => cases hnull
  | scalar kind _ => simp [kind] at hkind
  | sequence kind _ _ => simp [kind] at hplain
  | map kind _ _ => simp [kind] at hplain
  | @object _ _ id o below made typed fields =>
    rw [typed, Option.some.injEq] at howner
    subst howner
    exact ⟨id, o, rfl, below, made, rfl, fields⟩

theorem check_of_declared (h : Conforms schema store type bound v) (hnull : v.isNull = false)
    {level : ChainLevel} (hcontainer : type.isContainer = true)
    (hrole : level.descriptor.isMap = type.isMap) : level.check v = .ok () := by
  cases h with
  | null => cases hnull
  | scalar kind _ =>
    rw [TypeRef.isContainer, kind] at hcontainer
    cases hcontainer
  | object _ _ typed _ =>
    rw [Schema.isContainer_of_instanceOf? typed] at hcontainer
    cases hcontainer
  | sequence kind _ _ =>
    have hmap : type.isMap = false := by
      cases hkind : type.kind <;>
        simp [TypeRef.isCollection, TypeRef.isMap, hkind, Kind.isCollection, Kind.isMap] at kind ⊢
    unfold ChainLevel.check
    rw [hrole, hmap]
  | map kind _ _ =>
    unfold ChainLevel.check
    rw [hrole, kind]

/-- The elements that a chain can go on from conform to the type of the elements. -/
theorem element (h : Conforms schema store type bound v) {id : String} {side : Option MapSide}
    {u : Value} (hplace : Index.ElementAt store v id side u) {element : TypeRef}
    (helement : type.elementOn side = some element) : Conforms schema store element bound u := by
  cases hplace with
  | @item handle i _ hitem =>
    cases h with
    | scalar _ plain => cases plain
    | @sequence _ _ _ contents _ made items =>
      have hcontents : store.items handle = contents := by rw [Store.items, made, Option.getD_some]
      rw [hcontents] at hitem
      exact items helement (List.mem_of_getElem? hitem)
  | key => cases helement
  | @value handle i _ _ hentry =>
    cases h with
    | scalar _ plain => cases plain
    | @map _ _ _ contents _ made values =>
      have hcontents : store.entries handle = contents := by
        rw [Store.entries, made, Option.getD_some]
      rw [hcontents] at hentry
      exact values helement (List.mem_of_getElem? hentry)

/-- Each field that is read leads to objects with smaller numbers. -/
theorem readAlong (h : Conforms schema store type bound v) (hnull : v.isNull = false)
    {fields : List FieldType} {last : TypeRef} (hreads : schema.Reads type fields last) :
    ∃ found, store.readAlong fields v = .ok found ∧ ∀ u, found = some u →
      u.isNull = false ∧ ∃ bound', bound' + fields.length ≤ bound
        ∧ Conforms schema store last bound' u := by
  induction hreads generalizing bound v with
  | nil =>
    refine ⟨some v, rfl, fun u hu => ?_⟩
    cases hu
    exact ⟨hnull, bound, Nat.le_refl _, h⟩
  | @cons type last owner field rest howned hdeclared _ ih =>
    obtain ⟨id, o, rfl, hlt, hmade, htype, hfields⟩ := h.object_of_instanceOf? hnull howned
    have howner : field.owner = owner := (Schema.fieldType_eq_ok hdeclared).1
    have hread : store.readField field (.object id)
        = .ok ((o.get? field.name).filter fun u => !u.isNull) := by
      rw [Store.readField]
      simp only [Value.object?, Option.bind_some, hmade, htype, howner, ne_eq, not_true_eq_false,
        if_false]
    rw [Store.readAlong, hread]
    cases hset : (o.get? field.name).filter fun u => !u.isNull with
    | none => exact ⟨none, rfl, fun u hu => by cases hu⟩
    | some u =>
      obtain ⟨hget, hnull'⟩ := Option.filter_eq_some_iff.mp hset
      have hu := hfields hdeclared hget
      obtain ⟨found, hfound, hlast⟩ := ih hu (by simpa using hnull')
      refine ⟨found, hfound, fun w hw => ?_⟩
      obtain ⟨hnull'', bound', hle, hconforms⟩ := hlast w hw
      exact ⟨hnull'', bound', by rw [List.length_cons]; omega, hconforms⟩

end Conforms

namespace Index

variable {schema : Schema} {source : IndexSource} {type : TypeRef} {bound : Nat} {v : Value}
  {path : List Nat}

/-- Nothing on the way down is met again, if all of it has larger numbers. -/
theorem enter_of_conforms (h : Conforms schema source.store type bound v)
    (hpath : ∀ id ∈ path, bound ≤ id) :
    ∃ path' bound', enter source path v = .ok path' ∧ Conforms schema source.store type bound' v
      ∧ ∀ id ∈ path', bound' ≤ id + 1 := by
  have hstays : ∀ id ∈ path, bound ≤ id + 1 := fun id hid => Nat.le_succ_of_le (hpath id hid)
  unfold enter
  split
  next id _ =>
    cases h with
    | scalar _ plain => cases plain
    | object below made typed fields =>
      have hnew : id ∉ path := by
        intro hmem
        have hle := hpath id hmem
        omega
      rw [if_neg (by simpa using hnew)]
      refine ⟨id :: path, id + 1, rfl, .object (Nat.lt_succ_self id) made typed fields, ?_⟩
      intro other hmem
      rcases List.mem_cons.mp hmem with rfl | hmem
      · exact Nat.le_refl _
      · have hother := hpath other hmem
        omega
  next => exact ⟨path, bound, rfl, h, hstays⟩

theorem gather_of_all {nested : Option (Value → Except IndexingError (List IndexNode))}
    {els : List (String × Value × Bool)}
    (h : ∀ id u addressed, (id, u, addressed) ∈ els →
      ∃ own, fromElement nested id u addressed = .ok own) :
    ∃ kept, gather nested els = .ok kept := by
  induction els with
  | nil => exact ⟨[], rfl⟩
  | cons el rest ih =>
    obtain ⟨id, u, addressed⟩ := el
    obtain ⟨own, hown⟩ := h id u addressed List.mem_cons_self
    obtain ⟨kept, hkept⟩ := ih fun id u addressed hmem =>
      h id u addressed (List.mem_cons_of_mem _ hmem)
    refine ⟨own ++ kept, ?_⟩
    rw [gather, hown, hkept]
    rfl

theorem walk_of_elements {level : ChainLevel} {rest : List ChainLevel} {container : TypeRef}
    (hlevel : level.Declared schema type container)
    (h : Conforms schema source.store type bound v) (hnull : v.isNull = false)
    (helements : ∀ {bound' : Nat} {c : Value}, bound' < bound →
      Conforms schema source.store container bound' c →
      ∀ id u addressed, (id, u, addressed) ∈ elements source.store c level.side →
        ∃ own, fromElement (nestedWalk source rest path) id u addressed = .ok own) :
    ∃ nodes, walk source (level :: rest) path v = .ok nodes := by
  obtain ⟨found, hread, hfound⟩ := h.readAlong hnull hlevel.reads
  cases found with
  | none => exact ⟨[], by rw [walk, hread]; rfl⟩
  | some c =>
    obtain ⟨hnull', bound', hle, hc⟩ := hfound c rfl
    -- At least one field was read, so the numbers in the container are smaller.
    have hpos := List.length_pos_iff.mpr hlevel.nonempty
    obtain ⟨kept, hkept⟩ := gather_of_all (helements (by omega) hc)
    have hcheck := hc.check_of_declared hnull' hlevel.isContainer hlevel.role
    have hwalk : walk source (level :: rest) path v
        = if source.store.isEmptyContainer c then .ok []
          else (do
            level.check c
            let kept ← gather (nestedWalk source rest path) (elements source.store c level.side)
            return keep level.key c kept) := by
      rw [walk, hread]
      rfl
    rw [hwalk, hcheck, hkept]
    split
    · exact ⟨[], rfl⟩
    · exact ⟨keep level.key c kept, rfl⟩

/-- A chain whose levels fit finds its way in every value that conforms. -/
theorem walk_of_typed {levels : List ChainLevel} (htyped : ChainLevel.Typed schema type levels)
    (h : Conforms schema source.store type bound v) (hnull : v.isNull = false)
    (hpath : ∀ id ∈ path, bound ≤ id + 1) : ∃ nodes, walk source levels path v = .ok nodes := by
  induction htyped generalizing bound v path with
  | nil => exact ⟨[], rfl⟩
  | last hlevel =>
    refine walk_of_elements hlevel h hnull ?_
    intro bound' c _ _ id u addressed _
    exact ⟨[⟨id, u, []⟩], by cases addressed <;> rfl⟩
  | @onward level rest type container element hlevel helement _ ih =>
    -- An element that the chain goes on from is entered, and any other is only kept.
    refine walk_of_elements hlevel h hnull ?_
    intro bound' c hlt hc id u addressed hmem
    obtain ⟨placed, hplace, hset, rfl⟩ := mem_elements.mp hmem
    by_cases hgoes : placed = level.side ∧ rest ≠ []
    · obtain ⟨rfl, hrest⟩ := hgoes
      have hu := hc.element hplace helement
      have hbelow : ∀ id ∈ path, bound' ≤ id := by
        intro id hid
        have hle := hpath id hid
        omega
      obtain ⟨path', bound'', henter, hu', hpath'⟩ := enter_of_conforms hu hbelow
      obtain ⟨nodes, hwalk⟩ := ih hu' hset hpath'
      refine ⟨keep id u nodes, ?_⟩
      simp only [fromElement, nestedWalk, List.isEmpty_iff, hrest, if_false, decide_true, henter]
      show (walk source rest path' u).map (keep id u) = _
      rw [hwalk]
      rfl
    · refine ⟨[⟨id, u, []⟩], ?_⟩
      rw [not_and_or, not_not] at hgoes
      rcases hgoes with hother | rfl
      · simp only [fromElement, decide_eq_false hother]
      · cases decide (placed = level.side) <;> rfl

end Index
end ChainMapping
