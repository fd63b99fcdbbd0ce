import ChainMapping.Proofs.Mapping.Compiled
import ChainMapping.Proofs.Tree.Making

/-!
# Where the parts of a mapping come from

The trees of a mapping were empty once, and all that happened to them is that chains of the script
were resolved in them, one after the other.  What the empty trees have and resolution keeps, they
have.  Each chain of the mapping is a text of the script as it was read.
-/

namespace ChainMapping

/-- The text of a command on one side. -/
def ScriptCommand.text? (c : ScriptCommand) : Side → Option String
  | .source => c.source
  | .target => some c.target

namespace Script

/-- The chains of a script as they are written. -/
def texts (s : Script) : List String := s.commands.flatMap fun c => c.source.toList ++ [c.target]

theorem text_mem_texts {s : Script} {command : ScriptCommand} (hmem : command ∈ s.commands)
    {side : Side} {text : String} (h : command.text? side = some text) : text ∈ s.texts := by
  refine List.mem_flatMap.mpr ⟨command, hmem, ?_⟩
  cases side with
  | source =>
    have hsource : command.source = some text := h
    simp [hsource]
  | target =>
    have htarget : command.target = text := Option.some.inj h
    simp [htarget]

end Script

namespace Compiler

variable {c : Compiler} {P : Side → Tree → Prop}

/-- Resolving any of the texts of the commands in a tree keeps what holds of the tree. -/
def Keeps (c : Compiler) (P : Side → Tree → Prop) (commands : List ScriptCommand) : Prop :=
  ∀ command ∈ commands, ∀ side text, command.text? side = some text →
    ∀ tree, P side tree → P side (tree.resolveText c.introspector text).tree

/-- A chain that a command of the list has on one side. -/
def Written (commands : List ScriptCommand) (side : Side) (chain : Chain) : Prop :=
  ∃ command ∈ commands, ∃ text, command.text? side = some text ∧ Chain.parse text = .ok chain

theorem Written.cons {commands : List ScriptCommand} {side : Side} {chain : Chain}
    (h : Written commands side chain) (command : ScriptCommand) :
    Written (command :: commands) side chain := by
  obtain ⟨other, hmem, htext⟩ := h
  exact ⟨other, List.mem_cons_of_mem _ hmem, htext⟩

theorem resolveChain_eq (c : Compiler) (mappingId commandId text : String) (tree : Tree) :
    (c.resolveChain mappingId commandId tree text).tree
        = (tree.resolveText c.introspector text).tree
      ∧ ∀ resolved, (c.resolveChain mappingId commandId tree text).resolved = some resolved →
        Chain.parse text = .ok resolved.chain := by
  cases houtcome : (tree.resolveText c.introspector text).outcome with
  | error e =>
    simp only [resolveChain, houtcome, true_and]
    intro resolved hr
    cases hr
  | ok found =>
    simp only [resolveChain, houtcome, true_and]
    intro resolved hr
    cases hr
    exact (Tree.resolveText_ok houtcome).1

theorem resolveSource_eq (c : Compiler) (mappingId commandId : String) (text : Option String)
    (tree : Tree) :
    (c.resolveSource mappingId commandId tree text).tree
        = (text.map fun text => (tree.resolveText c.introspector text).tree).getD tree
      ∧ ∀ resolved, (c.resolveSource mappingId commandId tree text).resolved = some resolved →
        ∃ written, text = some written ∧ Chain.parse written = .ok resolved.chain := by
  cases text with
  | none => exact ⟨rfl, fun resolved hr => by cases hr⟩
  | some text =>
    obtain ⟨htree, hchain⟩ := c.resolveChain_eq mappingId commandId text tree
    exact ⟨htree, fun resolved hr => ⟨text, rfl, hchain resolved hr⟩⟩

/-- What is known of the trees and chains after commands. -/
structure Traced (P : Side → Tree → Prop) (commands : List ScriptCommand) (r : Resolved) : Prop
    where
  source : P .source r.sourceTree
  target : P .target r.targetTree
  sourceWritten : ∀ command ∈ r.commands, ∀ s, command.source = some s →
    Written commands .source s.chain
  targetWritten : ∀ command ∈ r.commands, Written commands .target command.target.chain

theorem traced_resolveCommands {commands : List ScriptCommand} (hP : c.Keeps P commands)
    {sourceTree targetTree : Tree} (hs : P .source sourceTree) (ht : P .target targetTree)
    (mappingId : String) (seen : List String) :
    Traced P commands (c.resolveCommands mappingId sourceTree targetTree seen commands) := by
  induction commands generalizing sourceTree targetTree seen with
  | nil =>
    exact ⟨hs, ht, fun _ hmem => absurd hmem List.not_mem_nil,
      fun _ hmem => absurd hmem List.not_mem_nil⟩
  | cons command rest ih =>
    have hrest : c.Keeps P rest := fun other hmem => hP other (List.mem_cons_of_mem _ hmem)
    have hkeeps := hP command List.mem_cons_self
    rw [resolveCommands]
    split
    · have h := ih hrest hs ht seen
      exact ⟨h.source, h.target, fun r hr s hs' => (h.sourceWritten r hr s hs').cons command,
        fun r hr => (h.targetWritten r hr).cons command⟩
    · obtain ⟨hsTree, hsChain⟩ :=
        c.resolveSource_eq mappingId command.id command.source sourceTree
      obtain ⟨htTree, htChain⟩ :=
        c.resolveChain_eq mappingId command.id command.target targetTree
      have hs₁ : P .source
          (c.resolveSource mappingId command.id sourceTree command.source).tree := by
        rw [hsTree]
        cases htext : command.source with
        | none => exact hs
        | some text => exact hkeeps .source text htext sourceTree hs
      have ht₁ : P .target
          (c.resolveChain mappingId command.id targetTree command.target).tree := by
        rw [htTree]
        exact hkeeps .target command.target rfl targetTree ht
      simp only
      split
      · have h := ih hrest hs₁ ht₁ (command.id :: seen)
        refine ⟨h.source, h.target, ?_, ?_⟩
        · intro resolved hmem s hs'
          rcases List.mem_append.mp hmem with hmem | hmem
          · split at hmem
            · obtain rfl := List.mem_singleton.mp hmem
              obtain ⟨text, htext, hparse⟩ := hsChain s hs'
              exact ⟨command, List.mem_cons_self, text, htext, hparse⟩
            · cases hmem
          · exact (h.sourceWritten resolved hmem s hs').cons command
        · intro resolved hmem
          rcases List.mem_append.mp hmem with hmem | hmem
          · split at hmem
            next t _ ht' =>
              obtain rfl := List.mem_singleton.mp hmem
              exact ⟨command, List.mem_cons_self, command.target, rfl, htChain t ht'⟩
            next => cases hmem
          · exact (h.targetWritten resolved hmem).cons command
      · exact ⟨hs₁, ht₁, fun _ hmem => absurd hmem List.not_mem_nil,
          fun _ hmem => absurd hmem List.not_mem_nil⟩

/-- What the empty trees have and resolution keeps holds of the trees of a mapping, and its chains
are those of the script. -/
theorem origins_of_compile {script : Script} {m : Mapping}
    (h : (c.compile script).1.mapping = some m) (hP : c.Keeps P script.commands)
    (hempty : ∀ side root, P side (script.emptyTree side root)) (side : Side) :
    P side (m.tree side) ∧ ∀ chain ∈ m.chains side, Written script.commands side chain := by
  unfold compile at h
  split at h
  · cases h
  · split at h
    · cases h
    next source target _ =>
      have htraced := traced_resolveCommands hP (hempty .source source) (hempty .target target)
        script.id []
      generalize c.resolveCommands script.id _ _ [] script.commands = r at h htraced
      unfold finish at h
      split at h
      · simp only [Option.some.injEq] at h
        subst h
        constructor
        · cases side
          · exact htraced.source
          · exact htraced.target
        · intro chain hchain
          rw [Mapping.chains_assignNames] at hchain
          simp only [Mapping.chains, List.mem_filterMap, List.mem_map] at hchain
          obtain ⟨_, ⟨resolved, hmem, rfl⟩, hchain⟩ := hchain
          cases side with
          | source =>
            obtain ⟨s, hs, rfl⟩ := Option.map_eq_some_iff.mp hchain
            exact htraced.sourceWritten resolved hmem s hs
          | target =>
            rw [← Option.some.inj hchain]
            exact htraced.targetWritten resolved hmem
      · cases h

end Compiler

/-! ## All commands resolved -/

/-- The chains of a resolved command are those that the script spells. -/
structure ResolvedCommand.Spelled (r : ResolvedCommand) : Prop where
  source : r.source.map (·.chain.text) = r.script.source
  target : r.target.chain.text = r.script.target

namespace Compiler

variable (c : Compiler) (mappingId : String)

theorem resolved_of_reports {commandId text : String} {tree : Tree}
    (h : (c.resolveChain mappingId commandId tree text).reports = []) :
    ∃ resolved, (c.resolveChain mappingId commandId tree text).resolved = some resolved
      ∧ resolved.chain.text = text := by
  obtain ⟨-, hparse⟩ := c.resolveChain_eq mappingId commandId text tree
  cases houtcome : (tree.resolveText c.introspector text).outcome with
  | error e =>
    simp [resolveChain, houtcome] at h
  | ok found =>
    have hresolved : (c.resolveChain mappingId commandId tree text).resolved
        = some ⟨found.1, found.2⟩ := by
      simp only [resolveChain, houtcome]
    exact ⟨_, hresolved, (Chain.proper_of_parse (hparse _ hresolved)).1⟩

theorem source_of_reports {commandId : String} {text : Option String} {tree : Tree}
    (h : (c.resolveSource mappingId commandId tree text).reports = []) :
    (c.resolveSource mappingId commandId tree text).resolved.map (·.chain.text) = text := by
  cases text with
  | none => rfl
  | some text =>
    obtain ⟨resolved, hresolved, htext⟩ := c.resolved_of_reports mappingId h
    rw [resolveSource, hresolved, Option.map_some, htext]

/-- If nothing is reported about commands, all of them have been resolved, in their order. -/
theorem spelled_of_reports {commands : List ScriptCommand} {sourceTree targetTree : Tree}
    {seen : List String}
    (h : (c.resolveCommands mappingId sourceTree targetTree seen commands).reports = []) :
    (c.resolveCommands mappingId sourceTree targetTree seen commands).commands.map (·.script)
        = commands
      ∧ ∀ r ∈ (c.resolveCommands mappingId sourceTree targetTree seen commands).commands,
        r.Spelled := by
  induction commands generalizing sourceTree targetTree seen with
  | nil => exact ⟨rfl, fun _ hmem => absurd hmem List.not_mem_nil⟩
  | cons command rest ih =>
    rw [resolveCommands] at h ⊢
    split at h
    next => cases h
    next hseen =>
      rw [if_neg hseen]
      simp only at h ⊢
      split at h
      next hgo =>
        rw [if_pos hgo]
        obtain ⟨hhere, hafter⟩ := List.append_eq_nil_iff.mp h
        obtain ⟨hsource, htarget⟩ := List.append_eq_nil_iff.mp hhere
        obtain ⟨t, ht, htext⟩ := c.resolved_of_reports mappingId htarget
        obtain ⟨hscripts, hspelled⟩ := ih hafter
        simp only [hhere, List.isEmpty_nil, ht]
        refine ⟨congrArg (command :: ·) hscripts, fun r hr => ?_⟩
        rcases List.mem_cons.mp hr with rfl | hr
        · exact ⟨c.source_of_reports mappingId hsource, htext⟩
        · exact hspelled r hr
      next hstop =>
        simp only at h
        simp [h] at hstop

end Compiler
end ChainMapping
