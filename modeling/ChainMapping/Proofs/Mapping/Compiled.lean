import ChainMapping.Mapping.Compile
import ChainMapping.Proofs.Tree.Resolution

/-!
# Compiled mappings

What compiling a script guarantees to everyone who works with the mapping: both trees are well
formed, and every chain of a command leads somewhere in the tree of its side.  The trees grow while
the commands are gone through, so a chain has to go on leading where it led when it was resolved.
-/

namespace ChainMapping

/-- Both trees are well formed, and all chains lead somewhere. -/
structure Mapping.Ready (m : Mapping) : Prop where
  wellFormed : ∀ side, (m.tree side).WellFormed
  resolves : ∀ {side : Side} {c : Chain}, c ∈ m.chains side → (m.tree side).Resolves c

namespace Compiler

variable (c : Compiler) (mappingId : String)

/-- A tree that a chain was resolved in: it grew, and the chain leads somewhere in it. -/
structure Grows (tree : Tree) (r : ChainResult) : Prop where
  wellFormed : r.tree.WellFormed
  extends_ : tree.Extends r.tree
  resolves : ∀ {chain : ResolvedChain}, r.resolved = some chain → r.tree.Resolves chain.chain

theorem grows_resolveChain {tree : Tree} (h : tree.WellFormed) (commandId chain : String) :
    Grows tree (c.resolveChain mappingId commandId tree chain) := by
  rcases h.resolveText (i := c.introspector) chain with ⟨e, herror, htree⟩
    | ⟨read, leaf, hok, hrest⟩
  · simp only [resolveChain, herror, htree]
    exact ⟨h, .refl tree, fun hr => by simp at hr⟩
  · obtain ⟨hparse, hwf, hextends, hfollow⟩ := hrest
    simp only [resolveChain, hok]
    refine ⟨hwf, hextends, fun hr => ?_⟩
    rw [← Option.some.inj hr]
    exact ⟨(Chain.proper_of_parse hparse).2, _, hfollow⟩

theorem grows_resolveSource {tree : Tree} (h : tree.WellFormed) (commandId : String)
    (chain : Option String) : Grows tree (c.resolveSource mappingId commandId tree chain) := by
  cases chain with
  | none => exact ⟨h, .refl tree, fun hr => by simp [resolveSource] at hr⟩
  | some chain => exact c.grows_resolveChain mappingId h commandId chain

/-- Both trees after commands, and that the chains of the commands lead somewhere there. -/
structure Grown (sourceTree targetTree : Tree) (r : Resolved) : Prop where
  source : r.sourceTree.WellFormed
  target : r.targetTree.WellFormed
  sourceExtends : sourceTree.Extends r.sourceTree
  targetExtends : targetTree.Extends r.targetTree
  sourceResolves : ∀ command ∈ r.commands, ∀ {s : ResolvedChain}, command.source = some s →
    r.sourceTree.Resolves s.chain
  targetResolves : ∀ command ∈ r.commands, r.targetTree.Resolves command.target.chain

theorem trees_resolveCommands {sourceTree targetTree : Tree} (hs : sourceTree.WellFormed)
    (ht : targetTree.WellFormed) (seen : List String) (commands : List ScriptCommand) :
    ((c.resolveCommands mappingId sourceTree targetTree seen commands).sourceTree.WellFormed
        ∧ sourceTree.Extends
          (c.resolveCommands mappingId sourceTree targetTree seen commands).sourceTree)
      ∧ (c.resolveCommands mappingId sourceTree targetTree seen commands).targetTree.WellFormed
        ∧ targetTree.Extends
          (c.resolveCommands mappingId sourceTree targetTree seen commands).targetTree := by
  induction commands generalizing sourceTree targetTree seen with
  | nil => exact ⟨⟨hs, .refl _⟩, ht, .refl _⟩
  | cons command rest ih =>
    rw [resolveCommands]
    split
    · exact ih hs ht seen
    · have hsource := c.grows_resolveSource mappingId hs command.id command.source
      have htarget := c.grows_resolveChain mappingId ht command.id command.target
      simp only
      split
      · obtain ⟨⟨hs', hse⟩, ht', hte⟩ :=
          ih hsource.wellFormed htarget.wellFormed (command.id :: seen)
        exact ⟨⟨hs', hsource.extends_.trans hse⟩, ht', htarget.extends_.trans hte⟩
      · exact ⟨⟨hsource.wellFormed, hsource.extends_⟩, htarget.wellFormed, htarget.extends_⟩

/-- What holds of a chain in the tree it was resolved in, and goes on holding as the tree grows,
holds of the chains of all commands in the trees at the end. -/
theorem resolved_resolveCommands {Q : Tree → ResolvedChain → Prop}
    (hresolved : ∀ {tree : Tree}, tree.WellFormed → ∀ commandId text resolved,
      (c.resolveChain mappingId commandId tree text).resolved = some resolved →
        Q (c.resolveChain mappingId commandId tree text).tree resolved)
    (hextends : ∀ {tree tree' : Tree} {resolved : ResolvedChain}, tree.WellFormed →
      tree.Extends tree' → Q tree resolved → Q tree' resolved)
    {sourceTree targetTree : Tree} (hs : sourceTree.WellFormed) (ht : targetTree.WellFormed)
    (seen : List String) (commands : List ScriptCommand) :
    ∀ command ∈ (c.resolveCommands mappingId sourceTree targetTree seen commands).commands,
      (∀ s, command.source = some s →
          Q (c.resolveCommands mappingId sourceTree targetTree seen commands).sourceTree s)
        ∧ Q (c.resolveCommands mappingId sourceTree targetTree seen commands).targetTree
          command.target := by
  induction commands generalizing sourceTree targetTree seen with
  | nil => exact fun _ hmem => absurd hmem List.not_mem_nil
  | cons command rest ih =>
    rw [resolveCommands]
    split
    · exact ih hs ht seen
    · have hsource := c.grows_resolveSource mappingId hs command.id command.source
      have htarget := c.grows_resolveChain mappingId ht command.id command.target
      simp only
      split
      · obtain ⟨⟨-, hse⟩, -, hte⟩ := c.trees_resolveCommands mappingId hsource.wellFormed
          htarget.wellFormed (command.id :: seen) rest
        intro resolved hmem
        rcases List.mem_append.mp hmem with hmem | hmem
        · split at hmem
          next t _ ht' =>
            obtain rfl := List.mem_singleton.mp hmem
            refine ⟨fun s hs' => hextends hsource.wellFormed hse ?_,
              hextends htarget.wellFormed hte (hresolved ht _ _ t ht')⟩
            simp only at hs'
            cases hchain : command.source with
            | none =>
              rw [hchain] at hs'
              cases hs'
            | some text =>
              rw [hchain] at hs'
              exact hresolved hs _ _ s hs'
          next => cases hmem
        · exact ih hsource.wellFormed htarget.wellFormed (command.id :: seen) resolved hmem
      · exact fun _ hmem => absurd hmem List.not_mem_nil

theorem grown_resolveCommands {sourceTree targetTree : Tree} (hs : sourceTree.WellFormed)
    (ht : targetTree.WellFormed) (seen : List String) (commands : List ScriptCommand) :
    Grown sourceTree targetTree
      (c.resolveCommands mappingId sourceTree targetTree seen commands) := by
  obtain ⟨⟨hs', hse⟩, ht', hte⟩ := c.trees_resolveCommands mappingId hs ht seen commands
  have hresolves := c.resolved_resolveCommands mappingId
    (Q := fun tree resolved => tree.Resolves resolved.chain)
    (fun htree commandId text _ hr =>
      (c.grows_resolveChain mappingId htree commandId text).resolves hr)
    (fun htree he hq => htree.resolves_mono he hq) hs ht seen commands
  exact ⟨hs', ht', hse, hte, fun command hmem s hsource => (hresolves command hmem).1 s hsource,
    fun command hmem => (hresolves command hmem).2⟩

end Compiler

namespace Mapping

theorem chains_assignNames (m : Mapping) (names : Naming.Registry) (side : Side) :
    (m.assignNames names).1.chains side = m.chains side := by
  simp only [assignNames, chains]
  induction m.commands generalizing names with
  | nil => rfl
  | cons c rest ih =>
    have hrest := ih (names.synthesize (nameSpace m.space m.id) c.target.chain.text).2
    cases side with
    | source => cases hc : c.source <;> simpa [nameCommands, hc] using hrest
    | target => simpa [nameCommands] using hrest

end Mapping

namespace Compiler

/-- A script that compiles gives a mapping that is ready. -/
theorem ready_of_compile {c : Compiler} {script : Script} {m : Mapping}
    (h : (c.compile script).1.mapping = some m) : m.Ready := by
  unfold compile at h
  split at h
  · simp [Compilation.rejected] at h
  · split at h
    · simp [Compilation.rejected] at h
    next source target _ =>
      have hgrown := c.grown_resolveCommands script.id
        (Tree.wellFormed_empty (t := script.emptyTree .source source) rfl rfl)
        (Tree.wellFormed_empty (t := script.emptyTree .target target) rfl rfl) [] script.commands
      generalize c.resolveCommands script.id _ _ [] script.commands = r at h hgrown
      unfold finish at h
      split at h
      · simp only [Option.some.injEq] at h
        subst h
        constructor
        · intro side
          cases side
          · exact hgrown.source
          · exact hgrown.target
        · intro side chain hchain
          rw [Mapping.chains_assignNames] at hchain
          simp only [Mapping.chains, List.mem_filterMap, List.mem_map] at hchain
          obtain ⟨_, ⟨resolved, hmem, rfl⟩, hchain⟩ := hchain
          cases side with
          | source =>
            obtain ⟨s, hs, rfl⟩ := Option.map_eq_some_iff.mp hchain
            exact hgrown.sourceResolves resolved hmem hs
          | target =>
            rw [← Option.some.inj hchain]
            exact hgrown.targetResolves resolved hmem
      · simp at h

end Compiler
end ChainMapping
