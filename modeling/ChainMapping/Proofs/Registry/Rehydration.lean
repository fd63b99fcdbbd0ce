import ChainMapping.Proofs.Mapping.Drafts
import ChainMapping.Proofs.Mapping.Origins
import ChainMapping.Proofs.Ordered
import ChainMapping.Proofs.Tree.Paths
import ChainMapping.Registry.Deployment
import ChainMapping.Schema.Basic

/-!
# Deployments give back what was deployed

A deployment keeps texts and roles only.  Its script is nevertheless the script that was compiled,
as far as compiling looks at it: each chain keeps the text it was read from, a script that compiles
has all its commands resolved in order, and the overrides of a tree are those of the script with
repetitions gone.  So compiling it again under the same types builds the same draft.

Under other types a deployment is restored exactly if it compiles and every node has the role it
was deployed with.  Paths name nodes, so the table of roles that is compared is a function.
-/

namespace ChainMapping

/-! ## The commands of a deployment -/

theorem DeployedCommand.script_ofCommand {r : ResolvedCommand} (h : r.Spelled)
    (sourceTree targetTree : Tree) :
    (ofCommand (Compiler.command sourceTree targetTree r)).script = r.script := by
  have hsource : (r.source.map (·.chain.text)) = r.script.source := h.source
  rw [ofCommand, DeployedCommand.script, Compiler.command]
  simp only [hsource, h.target]

/-! ## The script of a deployment -/

namespace Deployment

theorem commands_script (m : Mapping) (deployedAt : Moment) :
    (ofMapping m deployedAt).script.commands
      = m.unnamed.commands.map fun c => (DeployedCommand.ofCommand c).script := by
  rw [script, ofMapping, Mapping.unnamed, List.map_map, List.map_map]
  rfl

theorem overridesFor_script (m : Mapping) (deployedAt : Moment) (side : Side) :
    (ofMapping m deployedAt).script.overridesFor side
      = (m.tree side).overrides.map fun (path, concrete) => ⟨side, path, concrete⟩ := by
  cases side <;>
    simp [Script.overridesFor, script, ofMapping, Mapping.overrideTable, List.filter_map,
      Function.comp_def]

theorem emptyTree_script {m : Mapping} {script : Script} {side : Side} {root : TypeRef}
    (h : (script.emptyTree side root).Extends (m.tree side)) (deployedAt : Moment) :
    (ofMapping m deployedAt).script.emptyTree side root = script.emptyTree side root := by
  have hoverrides : (m.tree side).overrides
      = Ordered.ofList ((script.overridesFor side).map fun o => (o.path, o.concrete)) :=
    h.overrides_eq
  rw [Script.emptyTree, Script.emptyTree, overridesFor_script, List.map_map, hoverrides]
  simp only [Function.comp_def, List.map_id_fun', id_eq, Ordered.ofList_ofList]

theorem rootTypes_script {m : Mapping} {i : Introspector}
    (h : ∀ side, i.typeRef (m.tree side).rootType.name = .ok (m.tree side).rootType)
    (deployedAt : Moment) :
    (ofMapping m deployedAt).script.rootTypes i
      = .ok (m.sourceTree.rootType, m.targetTree.rootType) := by
  have hsource : i.typeRef m.sourceTree.rootType.name = .ok m.sourceTree.rootType := h .source
  have htarget : i.typeRef m.targetTree.rootType.name = .ok m.targetTree.rootType := h .target
  simp [Script.rootTypes, script, ofMapping, hsource, htarget, bind, Except.bind, pure, Except.pure]

/-- The trees of a mapping grew out of the empty trees of its script, whose roots have their
types. -/
theorem starts_of_compile {c : Compiler} {script : Script} {m : Mapping}
    (h : (c.compile script).1.mapping = some m) :
    (∀ side, (script.emptyTree side (m.tree side).rootType).Extends (m.tree side))
      ∧ script.fault? c.grammar = none
      ∧ script.rootTypes c.introspector = .ok (m.sourceTree.rootType, m.targetTree.rootType)
      ∧ (c.resolveAll script m.sourceTree.rootType m.targetTree.rootType).reports = []
      ∧ m = ((c.draft script (c.resolveAll script m.sourceTree.rootType
          m.targetTree.rootType)).assignNames c.names).1 := by
  obtain ⟨source, target, hfault, hroots, hreports, hm⟩ := Compiler.mapping_eq_some_iff.mp h
  have hgrown := c.grown_resolveCommands script.id
    (Tree.wellFormed_empty (t := script.emptyTree .source source) rfl rfl)
    (Tree.wellFormed_empty (t := script.emptyTree .target target) rfl rfl) [] script.commands
  have hsource : (script.emptyTree .source source).Extends m.sourceTree := by
    rw [hm]; exact hgrown.sourceExtends
  have htarget : (script.emptyTree .target target).Extends m.targetTree := by
    rw [hm]; exact hgrown.targetExtends
  have hsourceRoot : m.sourceTree.rootType = source := hsource.rootType_eq
  have htargetRoot : m.targetTree.rootType = target := htarget.rootType_eq
  refine ⟨fun side => ?_, hfault, by rw [hsourceRoot, htargetRoot]; exact hroots,
    by rw [hsourceRoot, htargetRoot]; exact hreports, by rw [hsourceRoot, htargetRoot]; exact hm⟩
  cases side with
  | source => show (script.emptyTree .source m.sourceTree.rootType).Extends _; rwa [hsourceRoot]
  | target => show (script.emptyTree .target m.targetTree.rootType).Extends _; rwa [htargetRoot]

/-- A deployment spells the commands of the script. -/
theorem commands_of_compile {c : Compiler} {script : Script} {m : Mapping}
    (h : (c.compile script).1.mapping = some m) (deployedAt : Moment) :
    (ofMapping m deployedAt).script.commands = script.commands := by
  obtain ⟨-, -, -, hreports, hm⟩ := starts_of_compile h
  obtain ⟨hscripts, hspelled⟩ := c.spelled_of_reports script.id hreports
  generalize hr : c.resolveAll script m.sourceTree.rootType m.targetTree.rootType = r at hm
  rw [← Compiler.resolveAll, hr] at hscripts hspelled
  have hunnamed : m.unnamed = (c.draft script r).unnamed := by
    rw [hm, Mapping.unnamed_assignNames]
  rw [commands_script, hunnamed, ← hscripts, Mapping.unnamed, List.map_map, Compiler.draft,
    List.map_map]
  exact List.map_congr_left fun resolved hmem =>
    DeployedCommand.script_ofCommand (hspelled resolved hmem) r.sourceTree r.targetTree

/-- Compiling the script of a deployment under the types it was compiled under comes to the same
draft, if the names of the root types lead back to them. -/
theorem recompile {c : Compiler} {script : Script} {m : Mapping}
    (h : (c.compile script).1.mapping = some m)
    (hroots : ∀ side,
      c.introspector.typeRef (m.tree side).rootType.name = .ok (m.tree side).rootType)
    (deployedAt : Moment) :
    ∃ m', (c.fresh.compile (ofMapping m deployedAt).script).1.mapping = some m'
      ∧ m'.unnamed = m.unnamed := by
  obtain ⟨hstarts, hfault, -, hreports, hm⟩ := starts_of_compile h
  have hcommands := commands_of_compile h deployedAt
  have hid : m.id = script.id := by rw [hm]; rfl
  have hspace : m.space = script.space.getD c.grammar.defaultNamespace := by rw [hm]; rfl
  have hall : c.fresh.resolveAll (ofMapping m deployedAt).script m.sourceTree.rootType
      m.targetTree.rootType
      = c.resolveAll script m.sourceTree.rootType m.targetTree.rootType := by
    have hsource : (ofMapping m deployedAt).script.emptyTree .source m.sourceTree.rootType
        = script.emptyTree .source m.sourceTree.rootType :=
      emptyTree_script (hstarts .source) deployedAt
    have htarget : (ofMapping m deployedAt).script.emptyTree .target m.targetTree.rootType
        = script.emptyTree .target m.targetTree.rootType :=
      emptyTree_script (hstarts .target) deployedAt
    rw [Compiler.resolveAll_fresh, Compiler.resolveAll, Compiler.resolveAll, hcommands, hsource,
      htarget, ← hid]
    rfl
  generalize c.resolveAll script m.sourceTree.rootType m.targetTree.rootType = r at *
  have hdraft : c.fresh.draft (ofMapping m deployedAt).script r = c.draft script r := by
    show ({ id := m.id, space := m.space, .. } : Mapping) = _
    rw [hid, hspace]
    rfl
  refine ⟨_, Compiler.mapping_eq_some_iff.mpr
    ⟨_, _, ?_, rootTypes_script hroots deployedAt, by rw [hall, hreports], rfl⟩, ?_⟩
  · rw [← hfault, Script.fault?, Script.fault?, Script.invalidId?, Script.invalidId?, hcommands,
      ← hid]
    rfl
  · rw [hall, hdraft, Mapping.unnamed_assignNames, hm, Mapping.unnamed_assignNames]

/-! ## Comparing roles -/

/-- A table that gives every node one role. -/
def IsFunction (table : List DeployedNode) : Prop :=
  ∀ n ∈ table, ∀ n' ∈ table, n.side = n'.side → n.path = n'.path → n = n'

theorem role?_eq_some_iff {table : List DeployedNode} (h : IsFunction table) {n : DeployedNode} :
    role? table n.side n.path = some n.descriptor ↔ n ∈ table := by
  rw [role?, Option.map_eq_some_iff]
  constructor
  · rintro ⟨found, hfound, hrole⟩
    have hmem := List.mem_reverse.mp (List.mem_of_find?_eq_some hfound)
    have hplace : found.side = n.side ∧ found.path = n.path := by
      simpa using List.find?_some hfound
    have heq : found = n := by
      cases found; cases n
      simp only at hplace hrole
      rw [hplace.1, hplace.2, hrole]
    exact heq ▸ hmem
  · intro hmem
    cases hfind : table.reverse.find? fun other => other.side = n.side ∧ other.path = n.path with
    | none =>
      have hnot := List.find?_eq_none.mp hfind n (List.mem_reverse.mpr hmem)
      simp at hnot
    | some found =>
      have hfound := List.mem_reverse.mp (List.mem_of_find?_eq_some hfind)
      have hplace : found.side = n.side ∧ found.path = n.path := by
        simpa using List.find?_some hfind
      exact ⟨found, rfl, by rw [h found hfound n hmem hplace.1 hplace.2]⟩

theorem changed?_eq_none_iff {deployed rebuilt : List DeployedNode} (hd : IsFunction deployed)
    (hr : IsFunction rebuilt) : changed? deployed rebuilt = none ↔ rebuilt ⊆ deployed := by
  rw [changed?, List.find?_eq_none]
  refine forall₂_congr fun n hn => ?_
  rw [(role?_eq_some_iff hr).mpr hn, ← role?_eq_some_iff hd]
  simp

/-- No difference is found exactly if the tables have the same entries. -/
theorem mismatch?_eq_none_iff {deployed rebuilt : List DeployedNode} (hd : IsFunction deployed)
    (hr : IsFunction rebuilt) :
    mismatch? deployed rebuilt = none ↔ ∀ n, n ∈ rebuilt ↔ n ∈ deployed := by
  unfold mismatch?
  cases hchanged : changed? deployed rebuilt with
  | some n =>
    have hnot : ¬ rebuilt ⊆ deployed := fun h => by
      rw [(changed?_eq_none_iff hd hr).mpr h] at hchanged
      cases hchanged
    simp only [reduceCtorEq, false_iff]
    exact fun h => hnot fun n hn => (h n).mp hn
  | none =>
    have hsubset := (changed?_eq_none_iff hd hr).mp hchanged
    simp only [ite_eq_left_iff, reduceCtorEq, imp_false, Decidable.not_not, List.all_eq_true]
    constructor
    · intro hall n
      refine ⟨fun hn => hsubset hn, fun hn => ?_⟩
      obtain ⟨d, hrole⟩ := Option.isSome_iff_exists.mp (hall n hn)
      have hmem : (⟨n.side, n.path, d⟩ : DeployedNode) ∈ rebuilt := (role?_eq_some_iff hr).mp hrole
      rwa [hd n hn _ (hsubset hmem) rfl rfl]
    · intro h n hn
      rw [(role?_eq_some_iff hr).mpr ((h n).mpr hn)]
      rfl

end Deployment

namespace Mapping

/-- The nodes of two mappings have the same paths and the same roles, on either side. -/
def SameRoles (m m' : Mapping) : Prop :=
  ∀ side path descriptor, (path, descriptor) ∈ (m.tree side).summary
    ↔ (path, descriptor) ∈ (m'.tree side).summary

theorem mem_nodeTable {m : Mapping} {n : DeployedNode} :
    n ∈ m.nodeTable ↔ (n.path, n.descriptor) ∈ (m.tree n.side).summary := by
  obtain ⟨side, path, descriptor⟩ := n
  cases side <;> simp [nodeTable]

theorem sameRoles_iff {m m' : Mapping} :
    m.SameRoles m' ↔ ∀ n, n ∈ m.nodeTable ↔ n ∈ m'.nodeTable := by
  simp only [mem_nodeTable]
  constructor
  · intro h n
    exact h n.side n.path n.descriptor
  · intro h side path descriptor
    exact h ⟨side, path, descriptor⟩

/-- Paths name the nodes of a side, so each has one role. -/
theorem Ready.isFunction {m : Mapping} (h : m.Ready) : Deployment.IsFunction m.nodeTable := by
  intro n hn n' hn' hside hpath
  obtain ⟨side, path, d⟩ := n
  obtain ⟨_, _, d'⟩ := n'
  simp only at hside hpath
  subst hside hpath
  rw [mem_nodeTable, Tree.summary, List.mem_map] at hn hn'
  obtain ⟨node, hnode, heq⟩ := hn
  obtain ⟨node', hnode', heq'⟩ := hn'
  obtain ⟨a, ha⟩ := List.mem_iff_getElem?.mp hnode
  obtain ⟨b, hb⟩ := List.mem_iff_getElem?.mp hnode'
  rw [Array.getElem?_toList] at ha hb
  have hid : a = b := (h.wellFormed side).path_inj ha hb
    ((Prod.mk.inj heq).1.trans (Prod.mk.inj heq').1.symm)
  subst hid
  have hnodes : node = node' := Option.some.inj (ha.symm.trans hb)
  have hrole : node.descriptor = d := (Prod.mk.inj heq).2
  have hrole' : node'.descriptor = d' := (Prod.mk.inj heq').2
  rw [← hrole, ← hrole', hnodes]

end Mapping

namespace Deployment

/-- Commands that differ in their names only are the same under the names deployed. -/
theorem restoreNames_of_unnamed {commands deployed : List Command}
    (h : commands.map Command.unnamed = deployed.map Command.unnamed) :
    restoreNames commands (deployed.map DeployedCommand.ofCommand) = deployed := by
  induction commands generalizing deployed with
  | nil =>
    cases deployed with
    | nil => rfl
    | cons d rest => cases h
  | cons c rest ih =>
    cases deployed with
    | nil => cases h
    | cons d others =>
      obtain ⟨hfirst, hothers⟩ := List.cons.inj h
      have hnamed : { c with generatedType := d.generatedType } = d :=
        congrArg (fun x : Command => { x with generatedType := d.generatedType }) hfirst
      show { c with generatedType := d.generatedType } :: restoreNames rest _ = d :: others
      rw [hnamed, ih hothers]

theorem restore_of_unnamed {m m' : Mapping} (h : m'.unnamed = m.unnamed) (deployedAt : Moment) :
    { m' with commands := restoreNames m'.commands (ofMapping m deployedAt).commands } = m := by
  obtain ⟨hid, hspace, hsource, htarget, hcommands⟩ := Mapping.mk.inj h
  show Mapping.mk m'.id m'.space m'.sourceTree m'.targetTree
    (restoreNames m'.commands (m.commands.map DeployedCommand.ofCommand)) = m
  rw [hid, hspace, hsource, htarget, restoreNames_of_unnamed hcommands]

theorem rehydrate_eq_ok_iff {d : Deployment} {i : Introspector} {restored : Mapping} :
    (d.rehydrate i).1 = .ok restored
      ↔ ∃ m', (Compiler.compile { introspector := i } d.script).1.mapping = some m'
        ∧ mismatch? d.nodes m'.nodeTable = none
        ∧ restored = { m' with commands := restoreNames m'.commands d.commands } := by
  rw [rehydrate]
  cases hcompile : (Compiler.compile { introspector := i } d.script).1.mapping with
  | none => simp [hcompile]
  | some m' =>
    cases hmismatch : mismatch? d.nodes m'.nodeTable with
    | some detail => simp [hcompile, hmismatch]
    | none => simp [hcompile, hmismatch, eq_comm]

theorem restores_iff {m : Mapping} (h : m.Ready) (deployedAt : Moment) (i : Introspector)
    (restored : Mapping) :
    ((ofMapping m deployedAt).rehydrate i).1 = .ok restored
      ↔ ∃ m', (Compiler.compile { introspector := i }
          (ofMapping m deployedAt).script).1.mapping = some m'
        ∧ m'.SameRoles m
        ∧ restored = { m' with
          commands := restoreNames m'.commands (ofMapping m deployedAt).commands } := by
  rw [rehydrate_eq_ok_iff]
  refine exists_congr fun m' => and_congr_right fun hm' => and_congr_left fun _ => ?_
  rw [Mapping.sameRoles_iff]
  exact mismatch?_eq_none_iff h.isFunction (Compiler.ready_of_compile hm').isFunction

/-- Under the same types, a deployment restores the very mapping it was made from if the names of
the root types lead back to them. -/
theorem restores_of_roots {i : Introspector} {names : Naming.Registry} {script : Script}
    {m : Mapping} (h : (Compiler.compile { introspector := i, names } script).1.mapping = some m)
    (hroots : ∀ side, i.typeRef (m.tree side).rootType.name = .ok (m.tree side).rootType)
    (deployedAt : Moment) : ((ofMapping m deployedAt).rehydrate i).1 = .ok m := by
  obtain ⟨m', hm', hunnamed⟩ := recompile h hroots deployedAt
  refine (restores_iff (Compiler.ready_of_compile h) deployedAt i m).mpr
    ⟨m', hm', ?_, (restore_of_unnamed hunnamed deployedAt).symm⟩
  obtain ⟨-, -, hsource, htarget, -⟩ := Mapping.mk.inj hunnamed
  intro side path descriptor
  cases side with
  | source => rw [Mapping.tree, Mapping.tree, hsource]
  | target => rw [Mapping.tree, Mapping.tree, htarget]

/-- A depot whose boxes are open to be of any kind. -/
def depot : Schema where
  types :=
    [("Depot", ⟨.object, [("racks", ⟨"List", .list, [⟨"Rack", .object, []⟩]⟩)]⟩),
     ("Rack", ⟨.object, [("box", ⟨"Box", .abstract, []⟩)]⟩),
     ("Box", ⟨.abstract, []⟩),
     ("Crate", ⟨.object, [("weight", ⟨"Int", .scalar, []⟩)]⟩)]

end Deployment
end ChainMapping
