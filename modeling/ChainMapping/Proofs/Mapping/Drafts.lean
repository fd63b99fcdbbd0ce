import ChainMapping.Proofs.Mapping.Compiled
import ChainMapping.ScriptFile.Compile

/-!
# Names come last

Compiling a script does not look at the names that were drawn before: it comes to a draft without
names, and at the very end the commands of the draft are given theirs.  So two compilers that differ
in nothing but the names they have handed out give mappings that differ in nothing but names, and
drawing the names of a mapping again forgets those it had.
-/

namespace ChainMapping

def Command.unnamed (c : Command) : Command := { c with generatedType := "" }

namespace Mapping

/-- The mapping without the generated names. -/
def unnamed (m : Mapping) : Mapping := { m with commands := m.commands.map Command.unnamed }

theorem nameCommands_unnamed (space : String) (commands : List Command) (names : Naming.Registry) :
    nameCommands space (commands.map Command.unnamed) names
      = nameCommands space commands names := by
  induction commands generalizing names with
  | nil => rfl
  | cons c rest ih =>
    simp only [List.map_cons, nameCommands, Command.unnamed, ih]

theorem unnamed_nameCommands (space : String) (commands : List Command) (names : Naming.Registry) :
    (nameCommands space commands names).1.map Command.unnamed = commands.map Command.unnamed := by
  induction commands generalizing names with
  | nil => rfl
  | cons c rest ih =>
    simp only [nameCommands, List.map_cons, ih]
    rfl

theorem unnamed_assignNames (m : Mapping) (names : Naming.Registry) :
    (m.assignNames names).1.unnamed = m.unnamed := by
  simp only [unnamed, assignNames, unnamed_nameCommands]

theorem assignNames_unnamed (m : Mapping) (names : Naming.Registry) :
    m.unnamed.assignNames names = m.assignNames names := by
  simp only [unnamed, assignNames, nameCommands_unnamed]

/-- Names that are drawn again do not depend on those that were drawn before. -/
theorem assignNames_assignNames (m : Mapping) (names names' : Naming.Registry) :
    (m.assignNames names).1.assignNames names' = m.assignNames names' := by
  rw [← assignNames_unnamed, unnamed_assignNames, assignNames_unnamed]

end Mapping

namespace Compiler

/-- The mapping of a script whose commands have all been resolved, before names are drawn. -/
def draft (c : Compiler) (script : Script) (r : Resolved) : Mapping where
  id := script.id
  space := script.space.getD c.grammar.defaultNamespace
  sourceTree := r.sourceTree
  targetTree := r.targetTree
  commands := r.commands.map (command r.sourceTree r.targetTree)

/-- What the commands of a script come to in the trees that the script begins with. -/
def resolveAll (c : Compiler) (script : Script) (source target : TypeRef) : Resolved :=
  c.resolveCommands script.id (script.emptyTree .source source) (script.emptyTree .target target) []
    script.commands

/-- A script compiles if it has no fault, its root types are known and nothing is reported about its
commands; its mapping is the draft with names. -/
theorem mapping_eq_some_iff {c : Compiler} {script : Script} {m : Mapping} :
    (c.compile script).1.mapping = some m
      ↔ ∃ source target, script.fault? c.grammar = none
        ∧ script.rootTypes c.introspector = .ok (source, target)
        ∧ (c.resolveAll script source target).reports = []
        ∧ m = ((c.draft script (c.resolveAll script source target)).assignNames c.names).1 := by
  unfold compile
  cases hfault : script.fault? c.grammar with
  | some report => simp [Compilation.rejected]
  | none =>
    cases hroots : script.rootTypes c.introspector with
    | error e => simp [Compilation.rejected]
    | ok roots =>
      obtain ⟨source, target⟩ := roots
      simp only [Except.ok.injEq, Prod.mk.injEq, true_and]
      rw [← resolveAll]
      unfold finish
      split
      next hreports =>
        rw [List.isEmpty_iff] at hreports
        constructor
        · intro h
          exact ⟨source, target, ⟨rfl, rfl⟩, hreports, (Option.some.inj h).symm⟩
        · rintro ⟨_, _, ⟨rfl, rfl⟩, -, rfl⟩
          rfl
      next hreports =>
        rw [List.isEmpty_iff] at hreports
        constructor
        · intro h
          cases h
        · rintro ⟨_, _, ⟨rfl, rfl⟩, hnone, -⟩
          exact absurd hnone hreports

theorem resolveChain_fresh (c : Compiler) (mappingId commandId : String) (tree : Tree)
    (chain : String) :
    c.fresh.resolveChain mappingId commandId tree chain
      = c.resolveChain mappingId commandId tree chain := rfl

theorem resolveSource_fresh (c : Compiler) (mappingId commandId : String) (tree : Tree)
    (chain : Option String) :
    c.fresh.resolveSource mappingId commandId tree chain
      = c.resolveSource mappingId commandId tree chain := by
  cases chain <;> rfl

theorem resolveCommands_fresh (c : Compiler) (mappingId : String) (sourceTree targetTree : Tree)
    (seen : List String) (commands : List ScriptCommand) :
    c.fresh.resolveCommands mappingId sourceTree targetTree seen commands
      = c.resolveCommands mappingId sourceTree targetTree seen commands := by
  induction commands generalizing sourceTree targetTree seen with
  | nil => rfl
  | cons command rest ih =>
    simp only [resolveCommands, resolveChain_fresh, resolveSource_fresh, ih]
    rfl

theorem resolveAll_fresh (c : Compiler) (script : Script) (source target : TypeRef) :
    c.fresh.resolveAll script source target = c.resolveAll script source target :=
  c.resolveCommands_fresh _ _ _ _ _

/-- What came of a script when names are drawn from a registry. -/
def withNames (outcome : Compilation) (names : Naming.Registry) : Compilation :=
  { outcome with mapping := outcome.mapping.map fun m => (m.assignNames names).1 }

/-- The names handed out after a script; without a mapping none are drawn. -/
def namesAfter (outcome : Compilation) (names : Naming.Registry) : Naming.Registry :=
  (outcome.mapping.map fun m => (m.assignNames names).2).getD names

theorem finish_eq (c : Compiler) (script : Script) (r : Resolved) :
    c.finish script r
      = (withNames (c.fresh.finish script r).1 c.names,
          { c with names := namesAfter (c.fresh.finish script r).1 c.names }) := by
  by_cases hreports : r.reports.isEmpty = true
  · simp only [finish, hreports, if_true, withNames, namesAfter, Option.map_some, Option.getD_some,
      Mapping.assignNames_assignNames]
    rfl
  · simp [finish, hreports, withNames, namesAfter]

/-- A compiler that has handed out names comes to what a fresh one comes to, but for the names. -/
theorem compile_eq (c : Compiler) (script : Script) :
    c.compile script
      = (withNames (c.fresh.compile script).1 c.names,
          { c with names := namesAfter (c.fresh.compile script).1 c.names }) := by
  have hgrammar : c.fresh.grammar = c.grammar := rfl
  have hintrospector : c.fresh.introspector = c.introspector := rfl
  simp only [compile, hgrammar, hintrospector, resolveCommands_fresh]
  cases script.fault? c.grammar with
  | some report => rfl
  | none =>
    cases script.rootTypes c.introspector with
    | error e => rfl
    | ok roots => exact c.finish_eq script (c.resolveAll script roots.1 roots.2)

end Compiler
end ChainMapping
