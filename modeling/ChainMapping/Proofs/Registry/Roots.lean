import ChainMapping.Proofs.Index.Declared
import ChainMapping.Proofs.Registry.Rehydration
import ChainMapping.Proofs.Schema.Names

/-!
# The root types of deployments

A deployment keeps the root types of a mapping by their names only.  A name leads back to the type
exactly if the type has no arguments and no declared type goes by the name of a container or scalar;
then, and only then, the deployment gives back its mapping.  An object type is told by its name, so
every side in which a chain was resolved is restored.
-/

namespace ChainMapping

namespace Schema

variable {document : SchemaDocument} {schema : Schema} {expression : String} {t : TypeRef}

/-- A type without arguments whose name no declared type of another kind has. -/
structure ToldByName (schema : Schema) (t : TypeRef) : Prop where
  args : t.args = []
  unhidden : schema.kindOf? t.name ≠ none → t.kind = .object ∨ t.kind = .abstract

theorem ToldByName.eq (h : schema.ToldByName t) : (⟨t.name, t.kind, []⟩ : TypeRef) = t := by
  obtain ⟨name, kind, args⟩ := t
  obtain rfl : args = [] := h.args
  rfl

/-- The name of a type leads back to it exactly if the type is told by its name. -/
theorem typeRef_name_iff (loaded : schema.LoadedFrom document)
    (h : schema.typeRef expression = .ok t) :
    schema.typeRef t.name = .ok t ↔ schema.ToldByName t := by
  cases hexpression : schema.kindOf? expression with
  | some kind =>
    have htype := typeRef_of_kindOf? hexpression
    rw [h] at htype
    cases htype
    exact ⟨fun _ => ⟨rfl, fun _ => loaded.kind_cases hexpression⟩, fun _ => h⟩
  | none =>
    rw [typeRef_of_undeclared hexpression] at h
    obtain ⟨hname, -, hplain⟩ := TypeRef.parse_eq_ok h
    cases hdeclared : schema.kindOf? t.name with
    | some kind =>
      rw [typeRef_of_kindOf? hdeclared]
      constructor
      · intro heq
        have htype := Except.ok.inj heq
        rw [← htype]
        exact ⟨rfl, fun _ => loaded.kind_cases hdeclared⟩
      · intro htold
        have hkind := (hplain htold.args).2
        have hordinary :=
          TypeRef.isOrdinary_of_kindOf? hname hkind (htold.unhidden (by simp [hdeclared]))
        rw [hordinary.kindOf?_eq, hdeclared, Option.some.injEq] at hkind
        rw [hkind, htold.eq]
    | none =>
      rw [typeRef_of_undeclared hdeclared, TypeRef.parse_name_iff hname]
      constructor
      · rintro ⟨-, heq⟩
        exact ⟨by rw [heq], fun hne => absurd hdeclared hne⟩
      · intro htold
        exact ⟨(hplain htold.args).2, htold.eq.symm⟩

/-- Only a type that is told by its name has fields. -/
theorem toldByName_of_kind (h : schema.typeRef expression = .ok t)
    (hkind : t.kind = .object ∨ t.kind = .abstract) : schema.ToldByName t := by
  refine ⟨?_, fun _ => hkind⟩
  cases hexpression : schema.kindOf? expression with
  | some kind =>
    rw [typeRef_of_kindOf? hexpression] at h
    cases h
    rfl
  | none =>
    rw [typeRef_of_undeclared hexpression] at h
    obtain ⟨-, hcontainer, -⟩ := TypeRef.parse_eq_ok h
    by_contra hargs
    have hheld := hcontainer hargs
    rw [TypeRef.isContainer] at hheld
    rcases hkind with hkind | hkind <;> rw [hkind] at hheld <;> cases hheld

end Schema

/-! ## Sides in which a chain was resolved -/

/-- A tree that has nodes stands on a type with fields. -/
def Tree.Rooted (t : Tree) : Prop :=
  t.size ≠ 0 → t.rootType.kind = .object ∨ t.rootType.kind = .abstract

namespace Resolve

variable {w : Work} {i : Introspector} {chain : String}

/-- The first node of all is looked up on the root type. -/
theorem ends_steps_rooted {tokens : List Token} {current : Option Nat} {index : Nat}
    (h : w.tree.WellFormed) (hrooted : w.tree.Rooted) (hat : w.tree.At current index)
    (hnumbered : Chain.NumberedFrom index tokens)
    (hnames : ∀ token ∈ tokens, Chain.IsName token.name) :
    Ends (steps i chain current tokens) w (fun _ w' => w'.tree.Rooted) (fun _ _ => True) := by
  induction tokens generalizing w current index with
  | nil => exact Ends.pure hrooted
  | cons token rest ih =>
    obtain ⟨rfl, hrest⟩ := hnumbered
    have hname := hnames token List.mem_cons_self
    have hnames' : ∀ token ∈ rest, Chain.IsName token.name :=
      fun token hmem => hnames token (List.mem_cons_of_mem _ hmem)
    refine Ends.bind (Ends.mono (Ends.and (ends_step h.toSound h (.refl _) hat hname)
      (drafts_step h hat hname)) (fun _ _ hok => hok) (fun _ _ _ => trivial)) ?_
    rintro next w₁ ⟨⟨hwf, he, -, -, hnext⟩, ⟨hsame, -⟩ | ⟨-, d, hd, -⟩⟩
    · exact ih hwf (hsame ▸ hrooted) hnext hrest hnames'
    · refine ih hwf (fun _ => ?_) hnext hrest hnames'
      rw [he.rootType_eq]
      cases current with
      | some q =>
        obtain ⟨n, hn, -⟩ := hat
        have hlt := Tree.node?_lt hn
        exact hrooted (by omega)
      | none =>
        obtain ⟨field, concrete, hdrafted⟩ := Basis.drafted_of_ok hd
        obtain ⟨owner, howner, -⟩ := bind_eq_ok hdrafted.lookup
        obtain ⟨effective, heffective, htype⟩ := Basis.owner_cases howner
        obtain rfl : effective = w.tree.rootType := heffective
        exact htype.imp And.left And.left

end Resolve

namespace Tree

variable {t : Tree} {i : Introspector}

theorem WellFormed.rooted_resolveText (h : t.WellFormed) (hrooted : t.Rooted) (text : String) :
    (t.resolveText i text).tree.Rooted := by
  cases hout : (t.resolveText i text).outcome with
  | error e => rwa [h.tree_eq_of_error hout]
  | ok found =>
    obtain ⟨hparse, -, w, hrun, htree⟩ := resolveText_ok hout
    have hproper := (Chain.proper_of_parse hparse).2
    have hends : Ends (Resolve.steps i found.1.text none found.1.tokens) { tree := t } _ _ :=
      Resolve.ends_steps_rooted h hrooted (show t.At none 0 from rfl) hproper.numbered
        hproper.names
    rw [htree]
    exact hends.of_ok hrun

end Tree

theorem Compiler.rooted_of_compile {c : Compiler} {script : Script} {m : Mapping}
    (h : (c.compile script).1.mapping = some m) (side : Side) : (m.tree side).Rooted := by
  have hkeeps : c.Keeps (fun _ tree => tree.WellFormed ∧ tree.Rooted) script.commands := by
    rintro command - side text - tree ⟨hwf, hrooted⟩
    exact ⟨hwf.apply (.resolve c.introspector text), hwf.rooted_resolveText hrooted text⟩
  have hempty (side : Side) (root : TypeRef) :
      (script.emptyTree side root).WellFormed ∧ (script.emptyTree side root).Rooted :=
    ⟨Tree.wellFormed_fresh side root _, fun hsize => absurd rfl hsize⟩
  exact (c.origins_of_compile h hkeeps hempty side).1.2

/-! ## Root names -/

/-- The expression that a script gives for the type at the root of a side. -/
def Script.rootExpression (s : Script) : Side → String
  | .source => s.sourceType
  | .target => s.targetType

theorem Compiler.typeRef_of_compile {c : Compiler} {script : Script} {m : Mapping}
    (h : (c.compile script).1.mapping = some m) (side : Side) :
    c.introspector.typeRef (script.rootExpression side) = .ok (m.tree side).rootType := by
  obtain ⟨-, -, hroots, -⟩ := Deployment.starts_of_compile h
  obtain ⟨source, hsource, hrest⟩ := bind_eq_ok hroots
  obtain ⟨target, htarget, heq⟩ := bind_eq_ok hrest
  obtain ⟨rfl, rfl⟩ := Prod.mk.inj (Except.ok.inj heq)
  cases side with
  | source => exact hsource
  | target => exact htarget

namespace Deployment

/-- The name that a deployment keeps of the type at the root of a side. -/
def rootName (d : Deployment) : Side → String
  | .source => d.sourceType
  | .target => d.targetType

theorem rootName_ofMapping (m : Mapping) (deployedAt : Moment) (side : Side) :
    (ofMapping m deployedAt).rootName side = (m.tree side).rootType.name := by
  cases side <;> rfl

/-- A mapping is only given back if the names that are kept lead back to its root types. -/
theorem typeRef_of_rehydrate {i : Introspector} {m : Mapping} {deployedAt : Moment}
    (h : ((ofMapping m deployedAt).rehydrate i).1 = .ok m) (side : Side) :
    i.typeRef (m.tree side).rootType.name = .ok (m.tree side).rootType := by
  obtain ⟨m', hcompile, -, hm⟩ := rehydrate_eq_ok_iff.mp h
  have htree : m'.tree side = m.tree side := by
    rw [hm]
    cases side <;> rfl
  have hname : (ofMapping m deployedAt).script.rootExpression side
      = (m.tree side).rootType.name := by
    cases side <;> rfl
  have hroot := Compiler.typeRef_of_compile hcompile side
  rwa [hname, htree] at hroot

/-- The name that a deployment keeps of a root type leads back to it exactly if the type is told by
its name, and if both are, the mapping is given back.  Wherever a chain was resolved, the root type
is told by its name. -/
theorem rootsRestored_iff {document : SchemaDocument} {schema : Schema}
    (hloaded : Schema.ofDocument document = .ok schema) {names : Naming.Registry} {script : Script}
    {m : Mapping}
    (h : (Compiler.compile { introspector := schema.introspector, names } script).1.mapping
      = some m)
    (deployedAt : Moment) :
    (∀ side, schema.typeRef ((ofMapping m deployedAt).rootName side) = .ok (m.tree side).rootType
        ↔ schema.ToldByName (m.tree side).rootType)
      ∧ (((ofMapping m deployedAt).rehydrate schema.introspector).1 = .ok m
        ↔ ∀ side, schema.ToldByName (m.tree side).rootType)
      ∧ ∀ side, (m.tree side).size ≠ 0 → schema.ToldByName (m.tree side).rootType := by
  have hroot (side : Side) : schema.typeRef (m.tree side).rootType.name = .ok (m.tree side).rootType
      ↔ schema.ToldByName (m.tree side).rootType :=
    Schema.typeRef_name_iff (Schema.loadedFrom_of_ofDocument hloaded)
      (Compiler.typeRef_of_compile h side)
  refine ⟨fun side => ?_, ⟨fun hrestored side => ?_, fun htold => ?_⟩, fun side hsize => ?_⟩
  · rw [rootName_ofMapping]
    exact hroot side
  · exact (hroot side).mp (typeRef_of_rehydrate hrestored side)
  · exact restores_of_roots h (fun side => (hroot side).mpr (htold side)) deployedAt
  · exact Schema.toldByName_of_kind (Compiler.typeRef_of_compile h side)
      (Compiler.rooted_of_compile h side hsize)

/-- Orders that have a code. -/
def orders : SchemaDocument where
  types := [("Order", { fields := [("code", "String")] })]

def ordersSchema : Schema where
  types := [("Order", ⟨.object, [("code", ⟨"String", .scalar, []⟩)]⟩)]

theorem ofDocument_orders : Schema.ofDocument orders = .ok ordersSchema := by
  decide +kernel

/-- Orders from orders, with blanks around the name of their type. -/
def copying : Script where
  id := "copy"
  sourceType := " Order "
  targetType := "Order"
  commands := [{ id := "code", source := some "code", target := "code" }]

/-- A code that comes from none of the orders given. -/
def stamping : Script where
  id := "stamp"
  sourceType := "Order[]"
  targetType := "Order"
  commands := [{ id := "code", target := "code" }]

def copyingMapping : Mapping :=
  (({ introspector := ordersSchema.introspector } : Compiler).compile copying).1.mapping.get
    (by decide +kernel)

def stampingMapping : Mapping :=
  (({ introspector := ordersSchema.introspector } : Compiler).compile stamping).1.mapping.get
    (by decide +kernel)

theorem rootsRestored_iff_copying :
    Schema.ofDocument orders = .ok ordersSchema
      ∧ (({ introspector := ordersSchema.introspector } : Compiler).compile copying).1.mapping
        = some copyingMapping
      ∧ ((ofMapping copyingMapping ⟨0, 0, 0⟩).rehydrate ordersSchema.introspector).1
        = .ok copyingMapping := by
  have hcompile : (({ introspector := ordersSchema.introspector } : Compiler).compile
      copying).1.mapping = some copyingMapping := (Option.some_get _).symm
  obtain ⟨-, hrestored, hresolved⟩ := rootsRestored_iff ofDocument_orders hcompile ⟨0, 0, 0⟩
  refine ⟨ofDocument_orders, hcompile, hrestored.mpr fun side => hresolved side ?_⟩
  cases side with
  | source => decide +kernel
  | target => decide +kernel

/-- No type goes by the name that is kept of a list of orders, so nothing is given back. -/
theorem not_rootsRestored_stamping :
    (({ introspector := ordersSchema.introspector } : Compiler).compile stamping).1.mapping
        = some stampingMapping
      ∧ stampingMapping.sourceTree.rootType = .arrayOf ⟨"Order", .object, []⟩
      ∧ (ofMapping stampingMapping ⟨0, 0, 0⟩).sourceType = "Array"
      ∧ ordersSchema.typeRef "Array" = .error (.unknownType "Array")
      ∧ ((ofMapping stampingMapping ⟨0, 0, 0⟩).rehydrate ordersSchema.introspector).1
        = .error (.compilationFailed "stamp" 1) :=
  ⟨(Option.some_get _).symm, by decide +kernel, by decide +kernel, by decide +kernel,
    by decide +kernel⟩

end Deployment
end ChainMapping
