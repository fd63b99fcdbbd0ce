import ChainMapping.Proofs.Mapping.Drafts
import ChainMapping.Proofs.Tree.Histories
import ChainMapping.Registry.Basic

/-!
# Registrations that fail

A registration that fails leaves the builder as it was but for the reports: its mappings, their
order and the names its compiler has handed out.  The reports do not show in anything that comes
after, so a run of registrations collects the mappings of those that succeed and no others, under
the names they would have had among themselves.
-/

namespace ChainMapping

/-- Something to be registered with a builder. -/
inductive Registration where
  | script (script : Script)
  | compiled (mapping : Mapping)

namespace RegistryBuilder

/-- What a registration comes to, and the builder after it. -/
def attempt (b : RegistryBuilder) : Registration → Except RegistryError Unit × RegistryBuilder
  | .script s => ((b.addScript s).1.map fun _ => (), (b.addScript s).2.1)
  | .compiled m => b.addCompiled m

/-- A builder without mappings. -/
def starting (compiler : Compiler) : RegistryBuilder := { compiler }

def register (b : RegistryBuilder) (r : Registration) : RegistryBuilder := (b.attempt r).2

/-- The builder after registrations, one after the other. -/
def after (b : RegistryBuilder) (rs : List Registration) : RegistryBuilder := rs.foldl register b

/-- The registrations that succeed when their turn comes. -/
def accepted (b : RegistryBuilder) : List Registration → List Registration
  | [] => []
  | r :: rest =>
    match (b.attempt r).1 with
    | .ok () => r :: (b.register r).accepted rest
    | .error _ => (b.register r).accepted rest

/-- The scripts that are compiled when their turn comes, whatever this comes to. -/
def reached (b : RegistryBuilder) : List Registration → List Script
  | [] => []
  | .script s :: rest =>
    if (b.refusal? s.id).isNone then s :: (b.register (.script s)).reached rest
    else (b.register (.script s)).reached rest
  | .compiled m :: rest => (b.register (.compiled m)).reached rest

/-! ## One registration -/

/-- Builders that differ in their reports only. -/
structure Alike (b b' : RegistryBuilder) : Prop where
  compiler_eq : b.compiler = b'.compiler
  latest_eq : b.latest = b'.latest
  size_eq : b.size = b'.size

theorem Alike.refl (b : RegistryBuilder) : b.Alike b := ⟨rfl, rfl, rfl⟩

theorem Alike.trans {b b' b'' : RegistryBuilder} (h : b.Alike b') (h' : b'.Alike b'') :
    b.Alike b'' :=
  ⟨h.compiler_eq.trans h'.compiler_eq, h.latest_eq.trans h'.latest_eq, h.size_eq.trans h'.size_eq⟩

theorem Alike.symm {b b' : RegistryBuilder} (h : b.Alike b') : b'.Alike b :=
  ⟨h.compiler_eq.symm, h.latest_eq.symm, h.size_eq.symm⟩

/-- What a registration does to a builder: a refused one does nothing, a script that does not
compile leaves its reports, and a mapping that is added had room and a new id. -/
inductive Attempted (b : RegistryBuilder) : Registration → Except RegistryError Unit →
    RegistryBuilder → Prop where
  | refusedScript {s : Script} {e : RegistryError} (refused : b.refusal? s.id = some e) :
      Attempted b (.script s) (.error e) b
  | refusedMapping {m : Mapping} {e : RegistryError} (refused : b.refusal? m.id = some e) :
      Attempted b (.compiled m) (.error e) b
  | failed {s : Script} (room : b.refusal? s.id = none)
      (noMapping : (b.compiler.compile s).1.mapping = none) :
      Attempted b (.script s)
        (.error (.compilationFailed s.id (b.compiler.compile s).1.failures))
        { b with latestReports := (b.compiler.compile s).1.reports :: b.latestReports }
  | script {s : Script} {m : Mapping} (room : b.refusal? s.id = none)
      (mapping : (b.compiler.compile s).1.mapping = some m) (id_eq : m.id = s.id) :
      Attempted b (.script s) (.ok ())
        { b with
          compiler := (b.compiler.compile s).2
          latest := m :: b.latest
          size := b.size + 1
          latestReports := (b.compiler.compile s).1.reports :: b.latestReports }
  | compiled {m : Mapping} (room : b.refusal? m.id = none) :
      Attempted b (.compiled m) (.ok ())
        { b with latest := m :: b.latest, size := b.size + 1 }

end RegistryBuilder

namespace Compiler

/-- A compiler that makes no mapping draws no names. -/
theorem compile_of_none {c : Compiler} {script : Script}
    (h : (c.compile script).1.mapping = none) : (c.compile script).2 = c := by
  rw [compile_eq] at h ⊢
  have hnone : (c.fresh.compile script).1.mapping = none := Option.map_eq_none_iff.mp h
  rw [namesAfter, hnone]
  rfl

theorem id_of_compile {c : Compiler} {script : Script} {m : Mapping}
    (h : (c.compile script).1.mapping = some m) : m.id = script.id := by
  obtain ⟨source, target, -, -, -, rfl⟩ := mapping_eq_some_iff.mp h
  rfl

/-- The reports of a script do not depend on the names handed out before. -/
theorem reports_of_fresh {c c' : Compiler} (h : c.fresh = c'.fresh) (script : Script) :
    (c.compile script).1.reports = (c'.compile script).1.reports := by
  rw [compile_eq, compile_eq c', h]
  rfl

end Compiler

namespace RegistryBuilder

theorem attempted (b : RegistryBuilder) (r : Registration) :
    Attempted b r (b.attempt r).1 (b.register r) := by
  unfold register
  cases r with
  | script s =>
    simp only [attempt, addScript]
    cases hrefusal : b.refusal? s.id with
    | some e => exact .refusedScript hrefusal
    | none =>
      cases hmapping : (b.compiler.compile s).1.mapping with
      | none =>
        simp only [Compiler.compile_of_none hmapping]
        exact .failed hrefusal hmapping
      | some m => exact .script hrefusal hmapping (Compiler.id_of_compile hmapping)
  | compiled m =>
    simp only [attempt, addCompiled]
    cases hrefusal : b.refusal? m.id with
    | some e => exact .refusedMapping hrefusal
    | none => exact .compiled hrefusal

/-- A registration that fails changes the reports at most. -/
theorem alike_of_error {b : RegistryBuilder} {r : Registration} {e : RegistryError}
    (h : (b.attempt r).1 = .error e) : b.Alike (b.register r) := by
  have hattempted := b.attempted r
  rw [h] at hattempted
  generalize b.register r = b' at hattempted
  cases hattempted with
  | refusedScript => exact .refl b
  | refusedMapping => exact .refl b
  | failed => exact ⟨rfl, rfl, rfl⟩

/-- Builders that differ in their reports take a registration alike. -/
theorem Alike.attempt {b b' : RegistryBuilder} (h : b.Alike b') (r : Registration) :
    (b.attempt r).1 = (b'.attempt r).1 ∧ (b.register r).Alike (b'.register r) := by
  have hrefusal (id : String) : b'.refusal? id = b.refusal? id := by
    rw [refusal?, refusal?, contains, contains, h.latest_eq, h.size_eq]
  cases r with
  | script s =>
    simp only [register, RegistryBuilder.attempt, addScript, hrefusal, ← h.compiler_eq]
    cases b.refusal? s.id with
    | some e => exact ⟨rfl, h⟩
    | none =>
      cases (b.compiler.compile s).1.mapping with
      | none => exact ⟨rfl, rfl, h.latest_eq, h.size_eq⟩
      | some m =>
        exact ⟨rfl, rfl, congrArg (m :: ·) h.latest_eq, congrArg (· + 1) h.size_eq⟩
  | compiled m =>
    simp only [register, RegistryBuilder.attempt, addCompiled, hrefusal]
    cases b.refusal? m.id with
    | some e => exact ⟨rfl, h⟩
    | none =>
      exact ⟨rfl, h.compiler_eq, congrArg (m :: ·) h.latest_eq, congrArg (· + 1) h.size_eq⟩

/-- What a builder has collected: mappings of different ids, within the limit. -/
structure Sound (b : RegistryBuilder) : Prop where
  size_eq : b.size = b.latest.length
  nodup : (b.latest.map (·.id)).Nodup
  size_le : b.size ≤ Limits.mappings

theorem refusal?_eq_none {b : RegistryBuilder} {id : String} (h : b.refusal? id = none) :
    id ∉ b.latest.map (·.id) ∧ b.size < Limits.mappings := by
  unfold refusal? contains at h
  split at h
  · cases h
  next hnew =>
    split at h
    · cases h
    next hroom =>
      refine ⟨fun hmem => hnew ?_, Nat.not_le.mp hroom⟩
      obtain ⟨m, hm, rfl⟩ := List.mem_map.mp hmem
      exact List.any_eq_true.mpr ⟨m, hm, beq_self_eq_true _⟩

theorem Sound.add {b : RegistryBuilder} (h : b.Sound) {m : Mapping}
    (hroom : b.refusal? m.id = none) (compiler : Compiler) (reports : List (List Report)) :
    Sound ⟨compiler, m :: b.latest, b.size + 1, reports⟩ := by
  obtain ⟨hnew, hlt⟩ := refusal?_eq_none hroom
  exact ⟨congrArg (· + 1) h.size_eq, List.nodup_cons.mpr ⟨hnew, h.nodup⟩, hlt⟩

theorem Sound.register {b : RegistryBuilder} (h : b.Sound) (r : Registration) :
    (b.register r).Sound := by
  have hattempted := b.attempted r
  generalize b.register r = b' at hattempted
  generalize (b.attempt r).1 = outcome at hattempted
  cases hattempted with
  | refusedScript => exact h
  | refusedMapping => exact h
  | failed => exact ⟨h.size_eq, h.nodup, h.size_le⟩
  | script room _ id_eq => exact h.add (id_eq ▸ room) _ _
  | compiled room => exact h.add room _ _

theorem fresh_register (b : RegistryBuilder) (r : Registration) :
    (b.register r).compiler.fresh = b.compiler.fresh := by
  have hattempted := b.attempted r
  generalize b.register r = b' at hattempted
  generalize (b.attempt r).1 = outcome at hattempted
  cases hattempted with
  | @script s =>
    show (b.compiler.compile s).2.fresh = b.compiler.fresh
    rw [Compiler.compile_eq]
    rfl
  | refusedScript => rfl
  | refusedMapping => rfl
  | failed => rfl
  | compiled => rfl

theorem reports_register (b : RegistryBuilder) (r : Registration) :
    (b.register r).reports
      = b.reports ++ (b.reached [r]).flatMap fun s => (b.compiler.compile s).1.reports := by
  have hattempted := b.attempted r
  unfold reached
  generalize b.register r = b' at hattempted ⊢
  generalize (b.attempt r).1 = outcome at hattempted
  cases hattempted with
  | refusedScript refused => simp [refused, reached]
  | refusedMapping => simp [reached]
  | failed room => simp [reports, room, reached]
  | script room => simp [reports, room, reached]
  | compiled => simp [reports, reached]

/-! ## Registrations in a row -/

theorem Sound.after {b : RegistryBuilder} (h : b.Sound) (rs : List Registration) :
    (b.after rs).Sound := by
  induction rs generalizing b with
  | nil => exact h
  | cons r rest ih => exact ih (h.register r)

/-- The registrations that succeed do so without the others too, and come to the same. -/
theorem Alike.accepted {b b' : RegistryBuilder} (h : b.Alike b') (rs : List Registration) :
    b'.accepted (b.accepted rs) = b.accepted rs
      ∧ (b.after rs).Alike (b'.after (b.accepted rs)) := by
  induction rs generalizing b b' with
  | nil => exact ⟨rfl, h⟩
  | cons r rest ih =>
    rw [RegistryBuilder.accepted]
    cases hattempt : (b.attempt r).1 with
    | error e => exact ih ((alike_of_error hattempt).symm.trans h)
    | ok =>
      obtain ⟨houtcome, halike⟩ := h.attempt r
      obtain ⟨haccepted, hafter⟩ := ih halike
      rw [hattempt] at houtcome
      refine ⟨?_, hafter⟩
      simp only [RegistryBuilder.accepted, ← houtcome, haccepted]

theorem reached_cons (b : RegistryBuilder) (r : Registration) (rest : List Registration) :
    b.reached (r :: rest) = b.reached [r] ++ (b.register r).reached rest := by
  cases r with
  | script s => cases hrefusal : b.refusal? s.id <;> simp [reached, hrefusal]
  | compiled m => rfl

/-- The reports are those of the scripts that were compiled, which depend on nothing that was
registered before. -/
theorem reports_after {b : RegistryBuilder} {compiler : Compiler}
    (h : b.compiler.fresh = compiler.fresh) (rs : List Registration) :
    (b.after rs).reports
      = b.reports ++ (b.reached rs).flatMap fun s => (compiler.compile s).1.reports := by
  induction rs generalizing b with
  | nil => simp [after, reached]
  | cons r rest ih =>
    have hrest := ih ((b.fresh_register r).trans h)
    show ((b.register r).after rest).reports = _
    rw [hrest, reports_register, reached_cons b r rest, List.flatMap_append, List.append_assoc]
    simp only [Compiler.reports_of_fresh h]

theorem sound_starting (compiler : Compiler) : (starting compiler).Sound :=
  ⟨rfl, List.nodup_nil, Nat.zero_le _⟩

/-- Registrations that fail leave no trace among the mappings.  However many there were, the ids of
the mappings differ and there are 10000 at most.  A failure leaves the mappings and the compiler,
with the names it has handed out, as they were.  The mappings are those that the successful
registrations give among themselves, where all of them succeed again; the reports are those of the
scripts that were compiled. -/
theorem failures_leave_no_trace (compiler : Compiler) (rs : List Registration) :
    (((starting compiler).after rs).build.ids.Nodup
        ∧ ((starting compiler).after rs).build.size ≤ 10000)
      ∧ (∀ r e, (((starting compiler).after rs).attempt r).1 = .error e →
        (((starting compiler).after rs).register r).build.mappings
            = ((starting compiler).after rs).build.mappings
          ∧ (((starting compiler).after rs).register r).compiler
            = ((starting compiler).after rs).compiler)
      ∧ ((starting compiler).accepted ((starting compiler).accepted rs)
          = (starting compiler).accepted rs
        ∧ ((starting compiler).after ((starting compiler).accepted rs)).build.mappings
          = ((starting compiler).after rs).build.mappings)
      ∧ ((starting compiler).after rs).build.reports
        = ((starting compiler).reached rs).flatMap fun s => (compiler.compile s).1.reports := by
  have hsound := (sound_starting compiler).after rs
  obtain ⟨haccepted, halike⟩ := (Alike.refl (starting compiler)).accepted rs
  refine ⟨⟨?_, ?_⟩, ?_, ⟨haccepted, congrArg List.reverse halike.latest_eq.symm⟩, ?_⟩
  · rw [Snapshot.ids, build, List.map_reverse]
    exact (List.reverse_perm _).nodup_iff.mpr hsound.nodup
  · rw [Snapshot.size, build, List.length_reverse, ← hsound.size_eq]
    exact hsound.size_le
  · intro r e herror
    have hsame := alike_of_error herror
    exact ⟨congrArg List.reverse hsame.latest_eq.symm, hsame.compiler_eq.symm⟩
  · exact reports_after rfl rs

/-- A script whose commands write to chains of one type. -/
def reading (id : String) (chains : List String) : Script where
  id := id
  sourceType := "Root"
  targetType := "Root"
  commands := chains.map fun chain => { id := chain, target := chain }

/-- The second script resolves its first chain and fails at its second one.  The third, with the id
of the second, is given the name it would have had without it. -/
theorem failures_leave_no_trace_reading :
    (((starting { introspector := Tree.halfMap }).after
          [.script (reading "x" ["a"])]).attempt (.script (reading "y" ["a", "m"]))).1
        = .error (.compilationFailed "y" 1)
      ∧ (((starting { introspector := Tree.halfMap }).after
            [.script (reading "x" ["a"])]).register
              (.script (reading "y" ["a", "m"]))).build.mappings
          = ((starting { introspector := Tree.halfMap }).after
            [.script (reading "x" ["a"])]).build.mappings
      ∧ (((starting { introspector := Tree.halfMap }).after
            [.script (reading "x" ["a"]), .script (reading "y" ["a", "m"]),
              .script (reading "y" ["a"])]).build.mappings.map
          fun m => m.commands.map (·.generatedType)) = [["OtcXA"], ["OtcYA"]] := by
  have hfails : (((starting { introspector := Tree.halfMap }).after
      [.script (reading "x" ["a"])]).attempt (.script (reading "y" ["a", "m"]))).1
        = .error (.compilationFailed "y" 1) := by rfl
  have haccepted : (starting { introspector := Tree.halfMap }).accepted
      [.script (reading "x" ["a"]), .script (reading "y" ["a", "m"]), .script (reading "y" ["a"])]
        = [.script (reading "x" ["a"]), .script (reading "y" ["a"])] := by rfl
  have hsame := (failures_leave_no_trace { introspector := Tree.halfMap }
    [.script (reading "x" ["a"]), .script (reading "y" ["a", "m"]),
      .script (reading "y" ["a"])]).2.2.1.2
  have hfailure := (failures_leave_no_trace { introspector := Tree.halfMap }
    [.script (reading "x" ["a"])]).2.1 _ _ hfails
  rw [haccepted] at hsame
  refine ⟨hfails, hfailure.1, ?_⟩
  rw [← hsame]
  decide +kernel

end RegistryBuilder
end ChainMapping
