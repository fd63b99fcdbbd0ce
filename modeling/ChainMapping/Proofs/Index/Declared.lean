import ChainMapping.Proofs.Index.Typing
import ChainMapping.Proofs.Tree.Founded

/-!
# Levels of a chain over a schema

A tree that was made over a schema, by chains without hints and without overrides, agrees with the
schema about every type: below a node stands what the schema declares for the type that objects have
there.  So the levels of a chain that leads somewhere in the tree fit the root type.

The keys of a map are left out.  A chain may go on from them, but not to another container.
-/

namespace ChainMapping

/-- The concrete type of a node is the one configured for its declared type. -/
def Portrait.Configured (p : Portrait) (i : Introspector) : Prop :=
  p.concrete = i.concreteType p.declared

namespace Basis

variable {b : Basis} {chain : String} {token : Token} {parent : Option Portrait}

/-- The declared type of what segments are looked up on. -/
def declaredAt (b : Basis) (parent : Option Portrait) : TypeRef :=
  (parent.map (·.declared)).getD b.root

theorem named_of_none {path : String} (hover : b.overrides = []) : b.named path none = none := by
  rw [named, hover]
  rfl

theorem member_of_none {up p : Portrait} {key : String} {role : Descriptor}
    {element : Option TypeRef} (hover : b.overrides = [])
    (h : b.member chain token up key role none element = .ok p) :
    element = some p.declared ∧ p.Configured b.source := by
  obtain ⟨types, htypes, rfl⟩ := map_eq_ok h
  unfold memberTypes at htypes
  cases element with
  | some element =>
    obtain ⟨concrete, hconcrete, rfl⟩ := map_eq_ok htypes
    rw [Basis.concrete, named_of_none hover] at hconcrete
    exact ⟨rfl, (Except.ok.inj hconcrete).symm⟩
  | none =>
    rw [named_of_none hover] at htypes
    cases htypes

/-- Without a hint and without overrides, a segment leads to what the field declares. -/
theorem Drafted.stop_declared {d : Draft} {field : FieldType} {concrete : Option TypeRef}
    (h : b.Drafted chain token parent d field concrete) (hover : b.overrides = [])
    (hhint : token.hint = none) :
    (d.stop token).Configured b.source
      ∧ (((Descriptor.ofKind field.declared.kind).isContainer = true
          ∧ (b.source.genericArguments field)[token.shape.position]? = some (d.stop token).declared)
        ∨ ((Descriptor.ofKind field.declared.kind).isContainer = false
          ∧ (d.stop token).declared = field.declared)) := by
  rcases h.stop_cases with ⟨hcontainer, key, role, hmember⟩ | ⟨hplain, hstop⟩
  · rw [hhint] at hmember
    obtain ⟨helement, hconfigured⟩ := member_of_none hover hmember
    exact ⟨hconfigured, .inl ⟨hcontainer, helement⟩⟩
  · have hconcrete := h.concreteOf_eq
    rw [concreteOf, if_neg (by simp [hplain]), hhint, Basis.concrete, named_of_none hover]
      at hconcrete
    rw [hstop, h.field_eq]
    exact ⟨(Except.ok.inj hconcrete).symm, .inr ⟨hplain, rfl⟩⟩

theorem owner_cases {type : TypeRef} (h : b.owner chain token parent = .ok type) :
    ∃ effective, effective = (parent.map Portrait.effectiveType).getD b.root
      ∧ ((effective.kind = .object ∧ type = effective)
        ∨ (effective.kind = .abstract ∧ b.source.concreteType effective = some type)) := by
  refine ⟨_, rfl, ?_⟩
  unfold owner at h
  simp only at h
  split at h
  next hkind =>
    cases h
    exact .inl ⟨hkind, rfl⟩
  next hkind =>
    split at h
    next concrete hconcrete =>
      cases h
      exact .inr ⟨hkind, (Option.filter_eq_some_iff.mp hconcrete).1⟩
    next => cases h
  next => cases h
  next => cases h

end Basis

namespace Schema

variable {schema : Schema} {type owner : TypeRef}

theorem instanceOf?_of_owner (h : (type.kind = .object ∧ owner = type)
      ∨ (type.kind = .abstract ∧ schema.concreteType type = some owner)) :
    schema.instanceOf? type = some owner.name := by
  unfold instanceOf?
  rcases h with ⟨hkind, rfl⟩ | ⟨hkind, hconcrete⟩
  · simp only [hkind]
  · simp only [hkind, hconcrete, Option.map_some]

theorem concreteType_eq_some (h : schema.concreteType type = some owner) :
    type.kind = .abstract ∧ owner.kind = .object := by
  unfold concreteType at h
  split at h
  next hkind =>
    obtain ⟨name, -, rfl⟩ := Option.map_eq_some_iff.mp h
    exact ⟨hkind, rfl⟩
  next => cases h

end Schema

namespace Basis

variable {b : Basis} {schema : Schema} {chain : String} {token : Token} {parent : Option Portrait}

/-- A segment is looked up on the type that objects have where it stands. -/
theorem instanceOf?_declaredAt (hsource : b.source = schema.introspector)
    (hparent : ∀ p, parent = some p → p.Configured schema.introspector) {type : TypeRef}
    (h : b.owner chain token parent = .ok type) :
    schema.instanceOf? (b.declaredAt parent) = some type.name := by
  obtain ⟨effective, heffective, howner⟩ := owner_cases h
  rw [hsource] at howner
  cases parent with
  | none =>
    rw [heffective] at howner
    exact Schema.instanceOf?_of_owner howner
  | some p =>
    have hconcrete : p.concrete = schema.concreteType p.declared := hparent p rfl
    have heffective : effective = (schema.concreteType p.declared).getD p.declared := by
      rw [heffective, ← hconcrete]
      rfl
    show schema.instanceOf? p.declared = some type.name
    cases hconfigured : schema.concreteType p.declared with
    | none =>
      rw [hconfigured] at heffective
      subst heffective
      exact Schema.instanceOf?_of_owner howner
    | some concrete =>
      obtain ⟨hkind, hobject⟩ := Schema.concreteType_eq_some hconfigured
      rw [hconfigured] at heffective
      subst heffective
      rcases howner with ⟨-, rfl⟩ | ⟨habstract, -⟩
      · exact Schema.instanceOf?_of_owner (.inr ⟨hkind, hconfigured⟩)
      · have hobject' : effective.kind = .object := hobject
        rw [habstract] at hobject'
        cases hobject'

end Basis

/-- No segment after one that addresses the keys of a map is written as a container. -/
def Chain.EndsAtKeys (tokens : List Token) : Prop :=
  tokens.Pairwise fun earlier later => earlier.shape.side? = some .key → later.isContainer = false

namespace ChainLevel

variable {schema : Schema} {type : TypeRef}

/-- A field read before levels that fit its type. -/
theorem Typed.afterField {levels : List ChainLevel} {owner : String} {field : FieldType}
    (howned : schema.instanceOf? type = some owner)
    (hdeclared : schema.fieldType owner field.name = .ok field)
    (h : Typed schema field.declared levels) (name : String) :
    Typed schema type (levels.modifyHead (ChainLevel.afterField name field)) := by
  have hlevel {level : ChainLevel} {container : TypeRef}
      (hd : level.Declared schema field.declared container) :
      (level.afterField name field).Declared schema type container :=
    ⟨List.cons_ne_nil _ _, .cons howned hdeclared hd.reads, hd.isContainer, hd.role⟩
  cases h with
  | nil => exact .nil
  | last hd => exact .last (hlevel hd)
  | onward hd held further => exact .onward (hlevel hd) held further

end ChainLevel

theorem Descriptor.isMap_ofKind (kind : Kind) : (ofKind kind).isMap = kind.isMap := by
  cases kind <;> rfl

theorem Descriptor.isContainer_ofKind (kind : Kind) :
    (ofKind kind).isContainer = kind.isContainer := by
  cases kind <;> rfl

theorem TypeRef.elementOn_eq (container : TypeRef) {shape : Shape} (h : shape.side? ≠ some .key) :
    container.elementOn shape.side? = container.args[shape.position]? := by
  unfold Shape.position
  cases hside : shape.side? with
  | none => rfl
  | some side =>
    cases side with
    | key => exact absurd hside h
    | value => rfl

namespace Tree

variable {t : Tree} {schema : Schema}

/-- In a founded tree, a segment that leads somewhere finds what it would make. -/
theorem WellFormed.drafted_of_stop? {i : Introspector} (h : t.WellFormed)
    (hf : (t.basis i).Founded t.portraits) {current : Option Nat} {token : Token}
    (hat : t.At current token.index) (hhint : token.hint = none) {id : Nat} {n : Node}
    (hc : t.childOf? current token.name = some id) (hn : t.node? id = some n)
    (hstop : t.stop? current token = some (t.onward id token)) :
    ∃ d concrete, (t.basis i).Drafted "" token (current.bind t.portrait?) d n.field concrete
      ∧ n.descriptor = Descriptor.ofKind n.field.declared.kind
      ∧ t.portrait? (t.onward id token) = some (d.stop token) := by
  obtain ⟨id', n', hc', hn', hfits, -⟩ := stop?_eq_some hstop
  rw [hc, Option.some.injEq] at hc'
  subst hc'
  rw [hn, Option.some.injEq] at hn'
  subst hn'
  obtain ⟨d, hd, hfield, hmem⟩ : ∃ d, t.draft i "" current token
        = (Basis.checkNotation "" token n.descriptor).map (fun _ => d)
      ∧ d.field = t.portraitOf n ∧ ∀ p ∈ d.all, p ∈ t.portraits :=
    h.draft_of_child hf hat hhint hc hn
  rw [Basis.checkNotation, hfits] at hd
  have hok : t.draft i "" current token = .ok d := hd
  obtain ⟨field, concrete, hdrafted⟩ := Basis.drafted_of_ok hok
  have hsame : (t.basis i).portrait token _ field concrete = t.portraitOf n :=
    hdrafted.field_eq.symm.trans hfield
  obtain rfl : field = n.field := congrArg Portrait.field hsame
  rw [bind_portrait?] at hdrafted
  exact ⟨d, concrete, hdrafted, (congrArg Portrait.descriptor hsame).symm,
    h.portrait?_stop (.refl t) hat hstop hok hmem⟩

/-- The levels of segments that lead somewhere fit the type where they start. -/
theorem WellFormed.typed_levels (h : t.WellFormed)
    (hf : (t.basis schema.introspector).Founded t.portraits) (hover : t.overrides = [])
    {tokens : List Token} {current last : Option Nat} {index : Nat} (hat : t.At current index)
    (hnumbered : Chain.NumberedFrom index tokens) (hhints : ∀ token ∈ tokens, token.hint = none)
    (hkeys : Chain.EndsAtKeys tokens) (hfollow : t.follow? current tokens = some last)
    (hcurrent : ∀ p, current.bind t.portrait? = some p → p.Configured schema.introspector) :
    ChainLevel.Typed schema
      ((t.basis schema.introspector).declaredAt (current.bind t.portrait?))
      (t.levels current tokens) := by
  induction tokens generalizing current index with
  | nil => exact .nil
  | cons token rest ih =>
    obtain ⟨rfl, hnumbered'⟩ := hnumbered
    obtain ⟨hafter, hkeys'⟩ := List.pairwise_cons.mp hkeys
    obtain ⟨next, hstop, hfollow'⟩ := Option.bind_eq_some_iff.mp hfollow
    obtain ⟨id, n, hc, hn, -, hnext⟩ := stop?_eq_some hstop
    obtain rfl : next = t.onward id token := hnext
    obtain ⟨d, concrete, hdrafted, hrole, hportrait⟩ :=
      h.drafted_of_stop? hf hat (hhints token List.mem_cons_self) hc hn hstop
    obtain ⟨hconfigured, hdeclared⟩ :=
      hdrafted.stop_declared hover (hhints token List.mem_cons_self)
    obtain ⟨owner, howner, hlookup⟩ := bind_eq_ok hdrafted.lookup
    have hsource : (t.basis schema.introspector).source = schema.introspector := rfl
    have howned := Basis.instanceOf?_declaredAt hsource hcurrent howner
    have hfield : schema.fieldType owner.name token.name = .ok n.field := mapError_eq_ok hlookup
    obtain ⟨-, hname, -⟩ := Schema.fieldType_eq_ok hfield
    rw [← hname] at hfield
    have hbind : (some (t.onward id token)).bind t.portrait? = some (d.stop token) := hportrait
    have hrest : ChainLevel.Typed schema (d.stop token).declared
        (t.levels (some (t.onward id token)) rest) := by
      have hconfigured' : ∀ p, (some (t.onward id token)).bind t.portrait? = some p →
          p.Configured schema.introspector := by
        intro p hp
        rw [hbind, Option.some.injEq] at hp
        exact hp ▸ hconfigured
      have hfits := ih (h.at_of_stop? hat hstop) hnumbered'
        (fun token hmem => hhints token (List.mem_cons_of_mem _ hmem)) hkeys' hfollow' hconfigured'
      rwa [hbind] at hfits
    rw [levels_cons hc hn, Node.isContainer, hrole]
    rcases hdeclared with ⟨hcontainer, helement⟩ | ⟨hplain, hsame⟩
    · rw [if_pos hcontainer]
      have hlevel : ChainLevel.Declared
          ⟨[n.field], [token.name], n.path, Descriptor.ofKind n.field.declared.kind,
            token.shape.side?⟩
          schema ((t.basis schema.introspector).declaredAt (current.bind t.portrait?))
          n.field.declared :=
        ⟨List.cons_ne_nil _ _, .cons howned hfield .nil,
          (Descriptor.isContainer_ofKind _).symm.trans hcontainer, Descriptor.isMap_ofKind _⟩
      by_cases hkey : token.shape.side? = some .key
      · have hnone : rest.any Token.isContainer = false := by
          rw [List.any_eq_false]
          intro later hmem
          simp [hafter later hmem hkey]
        rw [show t.levels (some (t.onward id token)) rest = []
          from (levels_eq_nil_iff hfollow').mpr hnone]
        exact .last hlevel
      · exact .onward hlevel ((TypeRef.elementOn_eq _ hkey).trans helement) hrest
    · rw [if_neg (by simp [hplain])]
      rw [hsame] at hrest
      exact hrest.afterField howned hfield token.name

end Tree
end ChainMapping
