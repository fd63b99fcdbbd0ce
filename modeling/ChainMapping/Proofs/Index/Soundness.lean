import ChainMapping.Proofs.Index.Declared
import ChainMapping.Proofs.Index.Union
import ChainMapping.Proofs.Mapping.Origins
import ChainMapping.Proofs.Tree.Transparency

/-!
# Documents that fit are indexed

A schema is read three times: when chains are resolved, when a document is converted, and when
fields are read along a chain.  Where a script leaves all types to the schema, the three agree.
Every document that converts at the root type of a mapping is indexed for it, and the one thing that
can come between is the limit on nodes.
-/

namespace ChainMapping

/-- A text that goes on from the keys of a map to no other container, if it is a chain at all. -/
def Chain.KeysLast (text : String) : Prop :=
  ∀ c, Chain.parse text = .ok c → Chain.EndsAtKeys c.tokens

instance (tokens : List Token) : Decidable (Chain.EndsAtKeys tokens) :=
  inferInstanceAs (Decidable (tokens.Pairwise fun earlier later =>
    earlier.shape.side? = some .key → later.isContainer = false))

instance (text : String) : Decidable (Chain.KeysLast text) :=
  Chain.decidableOfParse text fun c => Chain.EndsAtKeys c.tokens

namespace Script

/-- A script without overrides and hints, in which no container follows the keys of a map. -/
structure LeavesTypes (s : Script) : Prop where
  overrides : s.overrides = []
  hintFree : ∀ text ∈ s.texts, Chain.HintFree text
  keysLast : ∀ text ∈ s.texts, Chain.KeysLast text

theorem overrides_emptyTree {s : Script} (h : s.overrides = []) (side : Side) (root : TypeRef) :
    (s.emptyTree side root).overrides = [] := by
  simp [emptyTree, overridesFor, h, Ordered.ofList]

end Script

/-- A tree that was made without hints and overrides. -/
structure Tree.MadePlainly (t : Tree) (i : Introspector) : Prop where
  wellFormed : t.WellFormed
  founded : (t.basis i).Founded t.portraits
  overrides : t.overrides = []

namespace Compiler

variable {compiler : Compiler} {script : Script} {m : Mapping}

theorem madePlainly_of_compile (hm : (compiler.compile script).1.mapping = some m)
    (h : script.LeavesTypes) (side : Side) :
    (m.tree side).MadePlainly compiler.introspector := by
  have hkeeps : compiler.Keeps (fun _ tree => tree.MadePlainly compiler.introspector)
      script.commands := by
    intro command hmem side text htext tree htree
    have hhints := h.hintFree text (Script.text_mem_texts hmem htext)
    have hbasis := htree.wellFormed.basis_resolveText compiler.introspector text
    exact ⟨htree.wellFormed.apply (.resolve compiler.introspector text),
      htree.wellFormed.founded_resolveText htree.founded hhints,
      (congrArg Basis.overrides hbasis).trans htree.overrides⟩
  have hempty (side : Side) (root : TypeRef) :
      (script.emptyTree side root).MadePlainly compiler.introspector :=
    ⟨Tree.wellFormed_fresh side root _, Tree.founded_fresh side root _ compiler.introspector,
      Script.overrides_emptyTree h.overrides side root⟩
  exact (origins_of_compile hm hkeeps hempty side).1

theorem written_of_compile (hm : (compiler.compile script).1.mapping = some m) {side : Side}
    {c : Chain} (hc : c ∈ m.chains side) : Written script.commands side c :=
  (origins_of_compile (P := fun _ _ => True) hm (fun _ _ _ _ _ _ _ => trivial)
    (fun _ _ => trivial) side).2 c hc

/-- The levels of every chain of a mapping fit its root type. -/
theorem typed_levels_of_compile {schema : Schema}
    (hschema : compiler.introspector = schema.introspector)
    (hm : (compiler.compile script).1.mapping = some m) (h : script.LeavesTypes) {side : Side}
    {c : Chain} (hc : c ∈ m.chains side) :
    ChainLevel.Typed schema (m.tree side).rootType ((m.tree side).levels none c.tokens) := by
  have htree := madePlainly_of_compile hm h side
  rw [hschema] at htree
  obtain ⟨command, hmem, text, htext, hparse⟩ := written_of_compile hm hc
  have htexts := Script.text_mem_texts hmem htext
  obtain ⟨hproper, last, hleads⟩ := (ready_of_compile hm).resolves hc
  exact htree.wellFormed.typed_levels htree.founded htree.overrides
    (show (m.tree side).At none 0 from rfl) hproper.numbered (h.hintFree text htexts c hparse)
    (h.keysLast text htexts c hparse) hleads (fun p hp => by cases hp)

end Compiler

namespace ChainLevel

theorem Typed.instanceOf? {schema : Schema} {type : TypeRef} {level : ChainLevel}
    {rest : List ChainLevel} (h : Typed schema type (level :: rest)) :
    ∃ owner, schema.instanceOf? type = some owner := by
  have hreads {container : TypeRef} (hd : level.Declared schema type container) :
      ∃ owner, schema.instanceOf? type = some owner := by
    have hr := hd.reads
    cases hfields : level.fields with
    | nil => exact absurd hfields hd.nonempty
    | cons field fields =>
      rw [hfields] at hr
      cases hr with
      | cons owned _ _ => exact ⟨_, owned⟩
  cases h with
  | last hd => exact hreads hd
  | onward hd _ _ => exact hreads hd

end ChainLevel

namespace Index

/-- From a value that conforms, a chain whose levels fit ends without an error. -/
theorem found_of_typed {schema : Schema} {source : IndexSource} {tree : Tree} {c : Chain}
    {type : TypeRef} {bound : Nat} {v : Value}
    (htyped : ChainLevel.Typed schema type (tree.levels none c.tokens))
    (h : Conforms schema source.store type bound v)
    (hset : ∀ owner, schema.instanceOf? type = some owner → v.isNull = false) :
    ∃ nodes, found source tree c v = .ok nodes := by
  have hroot : ∀ id ∈ ([] : List Nat), bound ≤ id := fun id hid => absurd hid List.not_mem_nil
  obtain ⟨path, bound', henter, h', hpath⟩ := enter_of_conforms h hroot
  have hwalk : ∃ nodes, walk source (tree.levels none c.tokens) path v = .ok nodes := by
    cases hlevels : tree.levels none c.tokens with
    | nil => exact ⟨[], rfl⟩
    | cons level rest =>
      rw [hlevels] at htyped
      obtain ⟨owner, howner⟩ := htyped.instanceOf?
      exact walk_of_typed htyped h' (hset owner howner) hpath
  obtain ⟨nodes, hnodes⟩ := hwalk
  refine ⟨nodes, ?_⟩
  rw [found, henter]
  exact hnodes

/-- A document that fits the root type of a mapping over a schema is indexed without an error, the
limit on nodes aside. -/
theorem object_of_fitting_document {schema : Schema} {compiler : Compiler} {script : Script}
    {m : Mapping} (hschema : compiler.introspector = schema.introspector)
    (hscript : script.LeavesTypes) (hm : (compiler.compile script).1.mapping = some m) (side : Side)
    {d : Document} (hnull : d.isNull = false) (huntagged : d.isUntagged = true)
    {before store : Store} {v : Value}
    (hv : Value.ofDocument schema d (m.tree side).rootType before = .ok (v, store))
    (settings : IndexerSettings) :
    (∃ index, (object settings store m side v).1 = .ok index)
      ∨ ∃ e, (object settings store m side v).1 = .error e ∧ e.cause = .nodeLimitExceeded := by
  have hfound : ∀ c ∈ m.chains side, 0 < c.containerCount →
      ∃ nodes, foundIn settings store m side v c = .ok nodes := by
    intro c hc _
    have htyped := Compiler.typed_levels_of_compile hschema hm hscript hc
    have hconforms := Value.conforms_ofDocument huntagged hv
    exact found_of_typed htyped hconforms fun owner howner =>
      Value.isNull_of_ofDocument howner hnull hv
  rcases object_cases (Compiler.ready_of_compile hm) with ⟨e, hresult, hcause⟩
    | ⟨c, cause, hfirst, -⟩ | ⟨nodes, -, -, hresult⟩
  · exact .inr ⟨e, hresult, hcause⟩
  · rw [forall_foundIn_iff.mpr hfound] at hfirst
    cases hfirst
  · exact .inl ⟨_, hresult⟩

/-- A fleet with a lead, who is a captain if nothing else is said, and with vessels by name. -/
def harbour : Schema where
  types :=
    [("Fleet", ⟨.object, [("lead", ⟨"Officer", .abstract, []⟩),
      ("vessels", ⟨"Map", .map, [⟨"String", .scalar, []⟩, ⟨"Vessel", .object, []⟩]⟩)]⟩),
     ("Officer", ⟨.abstract, []⟩),
     ("Captain", ⟨.object, [("voyages", ⟨"List", .list, [⟨"Voyage", .object, []⟩]⟩)]⟩),
     ("Voyage", ⟨.object, [("ports", ⟨"Array", .array, [⟨"String", .scalar, []⟩]⟩)]⟩),
     ("Vessel", ⟨.object, [("lead", ⟨"Officer", .abstract, []⟩)]⟩)]
  concreteTypes := [("Officer", "Captain")]

def voyages : Script where
  id := "voyages"
  sourceType := "Fleet"
  targetType := "Fleet"
  commands :=
    [{ id := "lead", source := some "lead.voyages[*].ports[*]", target := "lead" },
     { id := "others", source := some "vessels<V>.lead.voyages[*]", target := "vessels<K>" }]

/-- Two vessels, one of them without a lead, and voyages that are null or have no ports. -/
def fleet : Document :=
  .table
    [("lead", .table [("voyages", .list [.table [("ports", .list [.text "Oslo"])], .null])]),
     ("vessels", .table [("Ran", .table [("lead", .null)]),
      ("Sif", .table [("lead", .table [("voyages", .list [.table []])])])])]

def voyagesMapping : Mapping :=
  (({ introspector := harbour.introspector } : Compiler).compile voyages).1.mapping.get
    (by decide +kernel)

theorem compile_voyages :
    (({ introspector := harbour.introspector } : Compiler).compile voyages).1.mapping
      = some voyagesMapping :=
  (Option.some_get _).symm

/-- The fleet becomes a value, and the value is indexed. -/
theorem fleet_indexed :
    (Value.ofDocument harbour fleet (voyagesMapping.tree .source).rootType {}).toOption.any
      (fun made => (object {} made.2 voyagesMapping .source made.1).1.isOk) = true := by
  decide +kernel

/-- The leads are captains because the schema says so, and what is null is passed over. -/
theorem object_of_fitting_document_fleet :
    voyages.LeavesTypes ∧ fleet.isNull = false ∧ fleet.isUntagged = true
      ∧ ∃ v store index, Value.ofDocument harbour fleet (voyagesMapping.tree .source).rootType {}
          = .ok (v, store)
        ∧ (object {} store voyagesMapping .source v).1 = .ok index := by
  have hscript : voyages.LeavesTypes := ⟨rfl, by decide +kernel, by decide +kernel⟩
  have hnull : fleet.isNull = false := rfl
  have huntagged : fleet.isUntagged = true := by decide +kernel
  refine ⟨hscript, hnull, huntagged, ?_⟩
  have hindexed := fleet_indexed
  cases hv : Value.ofDocument harbour fleet (voyagesMapping.tree .source).rootType {} with
  | error e =>
    rw [hv] at hindexed
    cases hindexed
  | ok made =>
    obtain ⟨v, store⟩ := made
    rw [hv, Except.toOption, Option.any_some] at hindexed
    rcases object_of_fitting_document rfl hscript compile_voyages .source hnull huntagged hv {} with
      ⟨index, hindex⟩ | ⟨e, herror, -⟩
    · exact ⟨v, store, index, rfl, hindex⟩
    · -- The fleet is far from the limit of nodes.
      rw [herror] at hindexed
      cases hindexed

end Index
end ChainMapping
