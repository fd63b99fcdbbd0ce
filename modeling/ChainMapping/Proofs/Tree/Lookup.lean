import ChainMapping.Proofs.Index.Declared
import ChainMapping.Proofs.Schema.Closed
import ChainMapping.Proofs.Tree.Transparency

/-!
# What resolution looks up

Over a loaded schema, a chain without hints may name a field that its type does not have, but it
never comes to a type that the schema does not know.  Segments are looked up on the root type, on
what fields and containers hold, and on concrete types; a closed schema declares all of them.
-/

namespace ChainMapping

/-- The error is that some name or expression denotes no type. -/
def ChainError.namesNoType : ChainError → Bool
  | .types _ (.unknownType _) => true
  | .types _ (.invalidExpression _ _) => true
  | _ => false

namespace Basis

/-- Nodes are made over a closed schema, from a type that it declares, and nothing overrides it. -/
structure OverClosed (b : Basis) (schema : Schema) : Prop where
  source : b.source = schema.introspector
  overrides : b.overrides = []
  closed : schema.Closed
  root : schema.Declares b.root

/-- What segments are looked up on is declared. -/
def StandsOn (parent : Option Portrait) (schema : Schema) : Prop :=
  ∀ p, parent = some p → schema.Declares p.effectiveType

variable {b : Basis} {schema : Schema} {chain : String} {token : Token} {parent : Option Portrait}

namespace OverClosed

theorem owner_yields (h : b.OverClosed schema) (hparent : StandsOn parent schema) :
    Yields (b.owner chain token parent) (fun type => ∃ kind, schema.kindOf? type.name = some kind)
      (fun e => e.namesNoType = false) := by
  have hstands : schema.Declares ((parent.map Portrait.effectiveType).getD b.root) := by
    cases parent with
    | none => exact h.root
    | some p => exact hparent p rfl
  unfold owner
  simp only
  split
  next hkind => exact ⟨_, hstands _ .whole (.inl hkind)⟩
  next =>
    split
    next concrete hconcrete =>
      rw [h.source] at hconcrete
      have hconfigured := (Option.filter_eq_some_iff.mp hconcrete).1
      exact ⟨_, (h.closed.kindOf?_concrete hconfigured).1⟩
    next => rfl
  next => rfl
  next => rfl

theorem fieldOf_yields (h : b.OverClosed schema) (hparent : StandsOn parent schema) :
    Yields (b.fieldOf chain token parent) (fun field => schema.Declares field.declared)
      (fun e => e.namesNoType = false) := by
  refine (h.owner_yields hparent).bind fun owner howner => ?_
  obtain ⟨kind, hkind⟩ := howner
  have hfield := h.closed.fieldType_yields hkind token.name
  rw [h.source]
  show Yields ((schema.fieldType owner.name token.name).mapError _) _ _
  cases hlookup : schema.fieldType owner.name token.name with
  | ok field =>
    rw [hlookup] at hfield
    exact hfield
  | error e =>
    rw [hfield.of_error hlookup]
    rfl

theorem concrete_eq (h : b.OverClosed schema) (path : String) (declared : TypeRef) :
    b.concrete chain path none declared = .ok (schema.concreteType declared) := by
  rw [concrete, named_of_none h.overrides, h.source]
  rfl

theorem member_yields (h : b.OverClosed schema) {up : Portrait} {key : String} {role : Descriptor}
    {element : Option TypeRef} (helement : ∀ t, element = some t → schema.Declares t) :
    Yields (b.member chain token up key role none element)
      (fun p => schema.Declares p.effectiveType) (fun e => e.namesNoType = false) := by
  unfold member memberTypes
  cases element with
  | some element =>
    simp only [h.concrete_eq]
    exact h.closed.declares_effective (helement element rfl)
  | none =>
    simp only [named_of_none h.overrides]
    rfl

theorem members_yields (h : b.OverClosed schema) (hhint : token.hint = none) {up : Portrait}
    (hfield : schema.Declares up.field.declared) :
    Yields (b.members chain token up) (fun ms => ∀ m ∈ ms, schema.Declares m.effectiveType)
      (fun e => e.namesNoType = false) := by
  have harg (i : Nat) : ∀ t, (b.source.genericArguments up.field)[i]? = some t →
      schema.Declares t := by
    intro t ht
    rw [h.source] at ht
    exact (Schema.declares_iff.mp hfield).2 t (List.mem_of_getElem? ht)
  unfold members
  split_ifs
  · rw [hhint]
    exact (h.member_yields (harg 0)).bind fun m hm => List.forall_mem_singleton.mpr hm
  · rw [hintFor_of_none hhint, hintFor_of_none hhint]
    refine (h.member_yields (harg 0)).bind fun key hkey => ?_
    refine (h.member_yields (harg 1)).bind fun value hvalue => ?_
    exact List.forall_mem_cons.mpr ⟨hkey, List.forall_mem_singleton.mpr hvalue⟩
  · exact fun m hm => absurd hm List.not_mem_nil

/-- A segment without a hint makes nodes of declared types, or fails for another reason. -/
theorem draft_yields (h : b.OverClosed schema) (hparent : StandsOn parent schema)
    (hhint : token.hint = none) :
    Yields (b.draft chain token parent) (fun d => ∀ p ∈ d.all, schema.Declares p.effectiveType)
      (fun e => e.namesNoType = false) := by
  refine (h.fieldOf_yields hparent).bind fun field hfield => ?_
  have hnotation : Yields (checkNotation chain token (Descriptor.ofKind field.declared.kind))
      (fun _ => True) (fun e => e.namesNoType = false) := by
    unfold checkNotation
    split
    next => rfl
    next => trivial
  refine hnotation.bind fun _ _ => ?_
  have hconcrete : Yields (b.concreteOf chain token parent field)
      (fun concrete => schema.Declares (concrete.getD field.declared))
      (fun e => e.namesNoType = false) := by
    unfold concreteOf
    split
    next => exact hfield
    next =>
      rw [hhint, h.concrete_eq]
      exact h.closed.declares_effective hfield
  refine hconcrete.bind fun concrete hdeclares => ?_
  refine (h.members_yields hhint
    (show schema.Declares (b.portrait token parent field concrete).field.declared from hfield)).bind
    fun ms hms => ?_
  exact List.forall_mem_cons.mpr ⟨hdeclares, hms⟩

theorem along_yields (h : b.OverClosed schema) (hparent : StandsOn parent schema)
    {tokens : List Token} (hhints : ∀ token ∈ tokens, token.hint = none) :
    Yields (b.along chain parent tokens) (fun _ => True) (fun e => e.namesNoType = false) := by
  induction tokens generalizing parent with
  | nil => trivial
  | cons token rest ih =>
    refine (h.draft_yields hparent (hhints token List.mem_cons_self)).bind fun d hd => ?_
    have hnext : StandsOn (some (d.stop token)) schema := by
      rintro p hp
      obtain rfl := Option.some.inj hp
      exact hd _ (d.stop_mem token)
    exact (ih hnext fun token hmem => hhints token (List.mem_cons_of_mem _ hmem)).bind
      fun _ _ => trivial

theorem survey_yields (h : b.OverClosed schema) {text : String} (hhints : Chain.HintFree text) :
    Yields (b.survey text) (fun _ => True) (fun e => e.namesNoType = false) := by
  unfold survey
  split
  next => rfl
  next c hparse =>
    split
    next => rfl
    next =>
      have hroot : StandsOn none schema := fun p hp => by cases hp
      cases hfound : b.along c.text none c.tokens with
      | ok found => trivial
      | error e => exact (h.along_yields hroot (hhints c hparse)).of_error hfound

end OverClosed

end Basis

namespace Tree

variable {t : Tree} {i : Introspector} {schema : Schema} {text : String}

theorem WellFormed.namesNoType_resolveText (h : t.WellFormed)
    (hf : (t.basis schema.introspector).Founded t.portraits)
    (hover : (t.basis schema.introspector).OverClosed schema) (hhints : Chain.HintFree text)
    {e : ChainError} (he : (t.resolveText schema.introspector text).outcome = .error e) :
    e.namesNoType = false := by
  rcases h.resolveText_survey hf hhints with ⟨c, leaf, made, hok, -⟩ | ⟨e', he', hcase⟩
  · rw [hok] at he
    cases he
  · obtain rfl : e' = e := Except.error.inj (he'.symm.trans he)
    rcases hcase with hsurvey | ⟨-, limit, rfl⟩
    · exact (hover.survey_yields hhints).of_error hsurvey
    · rfl

theorem WellFormed.founded_afterAll (h : t.WellFormed) (hf : (t.basis i).Founded t.portraits)
    {texts : List String} (hhints : ∀ text ∈ texts, Chain.HintFree text) :
    ((t.afterAll i texts).basis i).Founded (t.afterAll i texts).portraits := by
  induction texts generalizing t with
  | nil => exact hf
  | cons text rest ih =>
    exact ih (h.apply (.resolve i text))
      (h.founded_resolveText hf (hhints text List.mem_cons_self))
      fun text hmem => hhints text (List.mem_cons_of_mem _ hmem)

/-- A loaded schema is closed, so that no chain without hints ever comes to an unknown type, on
whatever root type and after whatever other chains without hints. -/
theorem typesKnown_of_ofDocument {document : SchemaDocument}
    (hloaded : Schema.ofDocument document = .ok schema) :
    schema.Closed
      ∧ ∀ expression root, schema.typeRef expression = .ok root →
        ∀ side texts text, (∀ earlier ∈ texts, Chain.HintFree earlier) → Chain.HintFree text →
        ∀ e, (((fresh side root []).afterAll schema.introspector texts).resolveText
            schema.introspector text).outcome = .error e → e.namesNoType = false := by
  have hclosed := (Schema.loadedFrom_of_ofDocument hloaded).closed
  refine ⟨hclosed, fun expression root hroot side texts text hearlier hhints e he => ?_⟩
  have hfresh := wellFormed_fresh side root []
  have hf := hfresh.founded_afterAll (founded_fresh side root [] schema.introspector) hearlier
  refine (hfresh.after _).namesNoType_resolveText hf ?_ hhints he
  rw [show Tree.after _ _ = (fresh side root []).afterAll schema.introspector texts from rfl,
    hfresh.basis_afterAll]
  exact ⟨rfl, rfl, hclosed, Schema.declares_of_typeRef hroot⟩

/-- Parties are mentioned inside containers only, and nothing but persons are parties. -/
def ledger : SchemaDocument where
  types :=
    [("Ledger",
       { fields := [("parties", "List<Party>"), ("byCity", "Map<String, Set<Party>[]>")] }),
     ("Party", { isAbstract := true }),
     ("Person", { fields := [("name", "String")] })]
  concreteTypes := [("Party", "Person")]

def ledgerSchema : Schema where
  types :=
    [("Ledger", ⟨.object, [("parties", ⟨"List", .list, [⟨"Party", .abstract, []⟩]⟩),
       ("byCity", ⟨"Map", .map,
         [⟨"String", .scalar, []⟩, .arrayOf ⟨"Set", .set, [⟨"Party", .abstract, []⟩]⟩]⟩)]⟩),
     ("Party", ⟨.abstract, []⟩),
     ("Person", ⟨.object, [("name", ⟨"String", .scalar, []⟩)]⟩)]
  concreteTypes := [("Party", "Person")]

theorem ofDocument_ledger : Schema.ofDocument ledger = .ok ledgerSchema := by decide +kernel

/-- Persons have no age, but they are known. -/
theorem typesKnown_of_ofDocument_ledger :
    Schema.ofDocument ledger = .ok ledgerSchema ∧ ledgerSchema.Closed
      ∧ ∃ e, (((fresh .source ⟨"Ledger", .object, []⟩ []).afterAll ledgerSchema.introspector
            ["parties[*].name", "byCity<V>"]).resolveText
          ledgerSchema.introspector "parties[*].age").outcome = .error e
        ∧ e.namesNoType = false ∧ e = .types "parties[*].age" (.unknownField "Person" "age") := by
  obtain ⟨hclosed, hknown⟩ := typesKnown_of_ofDocument ofDocument_ledger
  have hroot : ledgerSchema.typeRef "Ledger" = .ok ⟨"Ledger", .object, []⟩ := by decide +kernel
  have herror : (((fresh .source ⟨"Ledger", .object, []⟩ []).afterAll ledgerSchema.introspector
        ["parties[*].name", "byCity<V>"]).resolveText
      ledgerSchema.introspector "parties[*].age").outcome
        = .error (.types "parties[*].age" (.unknownField "Person" "age")) := by decide +kernel
  refine ⟨ofDocument_ledger, hclosed, _, herror, ?_, rfl⟩
  exact hknown "Ledger" _ hroot .source ["parties[*].name", "byCity<V>"] "parties[*].age"
    (by decide +kernel) (by decide +kernel) _ herror

end Tree
end ChainMapping
