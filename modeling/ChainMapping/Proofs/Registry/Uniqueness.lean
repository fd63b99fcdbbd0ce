import ChainMapping.Proofs.Batch.Agreement
import ChainMapping.Proofs.Registry.Names
import ChainMapping.Proofs.Registry.Registrations

/-!
# Names in a snapshot

A builder has one compiler, so the names of the scripts it compiles differ as long as no two of them
ask for the same one.  A mapping that was compiled elsewhere brings its names along, and neither
does the compiler learn them nor are they compared with those there are.  So what keeps the names
in a snapshot apart is left to whoever brings mappings.
-/

namespace ChainMapping

open Naming.Registry (Question)

/-- No command of one mapping has the name of a command of the other. -/
def Mapping.Apart (m m' : Mapping) : Prop :=
  ∀ c ∈ m.commands, ∀ c' ∈ m'.commands, c.generatedType ≠ c'.generatedType

/-- Commands of different mappings have different names. -/
def Snapshot.NamesApart (s : Snapshot) : Prop :=
  ∀ m ∈ s.mappings, ∀ m' ∈ s.mappings, m.id ≠ m'.id → m.Apart m'

namespace RegistryBuilder

/-- The mapping that a registration adds. -/
def adds? (b : RegistryBuilder) : Registration → Option Mapping
  | .script s => (b.addScript s).1.toOption
  | .compiled m => if (b.refusal? m.id).isNone then some m else none

/-- The registrations that add a mapping when their turn comes, with the mapping. -/
def additions (b : RegistryBuilder) : List Registration → List (Registration × Mapping)
  | [] => []
  | r :: rest => (b.adds? r).toList.map (r, ·) ++ (b.register r).additions rest

/-- No mapping that was compiled elsewhere has a name of another mapping. -/
def BringsApart (b : RegistryBuilder) (rs : List Registration) : Prop :=
  ∀ m, (.compiled m, m) ∈ b.additions rs → ∀ m' ∈ (b.after rs).build.mappings, m.id ≠ m'.id →
    m.Apart m'

/-- No two scripts ask for the same names: their namespaces with their ids differ, or the normal
forms of their chains. -/
def AsksApart (b : RegistryBuilder) (rs : List Registration) : Prop :=
  ∀ s m s' m', (.script s, m) ∈ b.additions rs → (.script s', m') ∈ b.additions rs →
    m.id ≠ m'.id → ∀ c ∈ m.commands, ∀ c' ∈ m'.commands,
      (m.question c).subject ≠ (m'.question c').subject

/-! ## What registrations add -/

variable {b : RegistryBuilder}

theorem latest_register (b : RegistryBuilder) (r : Registration) :
    (b.register r).latest = (b.adds? r).toList ++ b.latest := by
  cases r with
  | script s =>
    simp only [register, attempt, adds?, addScript]
    cases b.refusal? s.id with
    | some e => rfl
    | none => cases (b.compiler.compile s).1.mapping <;> rfl
  | compiled m =>
    simp only [register, attempt, adds?, addCompiled]
    cases b.refusal? m.id <;> rfl

/-- The mappings of a builder are those that registrations added, in order. -/
theorem mappings_after (b : RegistryBuilder) (rs : List Registration) :
    (b.after rs).build.mappings = b.build.mappings ++ (b.additions rs).map Prod.snd := by
  induction rs generalizing b with
  | nil => simp [after, additions]
  | cons r rest ih =>
    have hrest := ih (b.register r)
    show ((b.register r).after rest).build.mappings = _
    rw [hrest, additions]
    simp only [build, latest_register, List.reverse_append, List.map_append, List.map_map,
      List.append_assoc]
    cases b.adds? r <;> rfl

theorem compile_of_adds {s : Script} {m : Mapping} (h : b.adds? (.script s) = some m) :
    (b.compiler.compile s).1.mapping = some m
      ∧ (b.register (.script s)).compiler = (b.compiler.compile s).2 := by
  simp only [register, attempt, adds?, addScript] at h ⊢
  cases hrefusal : b.refusal? s.id with
  | some e => simp [hrefusal, Except.toOption] at h
  | none =>
    cases hmapping : (b.compiler.compile s).1.mapping with
    | none => simp [hrefusal, hmapping, Except.toOption] at h
    | some found =>
      simp only [hrefusal, hmapping, Except.toOption, Option.some.injEq] at h
      exact ⟨congrArg some h, rfl⟩

/-! ## The names of the compiler -/

theorem compiler_register (b : RegistryBuilder) (r : Registration) :
    (b.register r).compiler = b.compiler
      ∨ ∃ s m, (b.compiler.compile s).1.mapping = some m
        ∧ (b.register r).compiler = (b.compiler.compile s).2 := by
  have hattempted := b.attempted r
  generalize b.register r = b' at hattempted
  generalize (b.attempt r).1 = outcome at hattempted
  cases hattempted with
  | refusedScript => exact .inl rfl
  | refusedMapping => exact .inl rfl
  | failed => exact .inl rfl
  | @script s m _ hmapping => exact .inr ⟨s, m, hmapping, rfl⟩
  | compiled => exact .inl rfl

theorem issued_register (b : RegistryBuilder) (r : Registration) :
    b.compiler.names.issued ⊆ (b.register r).compiler.names.issued := by
  rcases b.compiler_register r with hsame | ⟨s, m, hmapping, hcompiler⟩
  · rw [hsame]
    exact fun _ h => h
  · rw [hcompiler, (Compiler.names_of_compile hmapping).1]
    exact Naming.Registry.issued_after _ _

theorem asked_register (h : b.compiler.Asked) (r : Registration) :
    (b.register r).compiler.Asked := by
  rcases b.compiler_register r with hsame | ⟨s, m, hmapping, hcompiler⟩
  · rwa [hsame]
  · rw [hcompiler]
    exact h.compile hmapping

theorem issued_run (b : RegistryBuilder) (rs : List Registration) :
    b.compiler.names.issued ⊆ (b.after rs).compiler.names.issued := by
  induction rs generalizing b with
  | nil => exact fun _ h => h
  | cons r rest ih => exact fun _ h => ih (b.register r) (b.issued_register r h)

theorem asked_after (h : b.compiler.Asked) (rs : List Registration) :
    (b.after rs).compiler.Asked := by
  induction rs generalizing b with
  | nil => exact h
  | cons r rest ih => exact ih (asked_register h r)

/-- A mapping made of a script was compiled by the compiler of the builder, which goes on knowing
its names. -/
theorem compiled_of_additions (h : b.compiler.Asked) {rs : List Registration} {s : Script}
    {m : Mapping} (hadded : (.script s, m) ∈ b.additions rs) :
    ∃ c : Compiler, c.fresh = b.compiler.fresh ∧ c.Asked ∧ (c.compile s).1.mapping = some m
      ∧ m.Entered (b.after rs).compiler.names := by
  induction rs generalizing b with
  | nil => cases hadded
  | cons r rest ih =>
    rw [additions] at hadded
    rcases List.mem_append.mp hadded with hhere | hlater
    · obtain ⟨found, hfound, heq⟩ := List.mem_map.mp hhere
      obtain ⟨rfl, rfl⟩ := Prod.mk.inj heq
      obtain ⟨hmapping, hcompiler⟩ := compile_of_adds (Option.mem_toList.mp hfound)
      refine ⟨b.compiler, rfl, h, hmapping, ?_⟩
      have hentered := (Compiler.names_of_compile hmapping).2
      rw [← hcompiler] at hentered
      exact hentered.mono (issued_run _ rest)
    · obtain ⟨c, hfresh, hasked, hmapping, hentered⟩ := ih (asked_register h r) hlater
      exact ⟨c, hfresh.trans (b.fresh_register r), hasked, hmapping, hentered⟩

theorem origin_of_mem {rs : List Registration} {r : Registration} {m : Mapping}
    (hadded : (r, m) ∈ b.additions rs) :
    (∃ s, r = .script s) ∨ r = .compiled m ∧ .compiled m ∈ rs := by
  induction rs generalizing b with
  | nil => cases hadded
  | cons first rest ih =>
    rcases List.mem_append.mp hadded with hhere | hlater
    · obtain ⟨found, hfound, heq⟩ := List.mem_map.mp hhere
      obtain ⟨rfl, rfl⟩ := Prod.mk.inj heq
      cases first with
      | script s => exact .inl ⟨s, rfl⟩
      | compiled m' =>
        have hsame : m' = found := by
          simp only [adds?, Option.mem_toList] at hfound
          split at hfound
          · exact Option.some.inj hfound
          · cases hfound
        rw [hsame]
        exact .inr ⟨rfl, List.mem_cons_self⟩
    · exact (ih hlater).imp id fun ⟨hr, hmem⟩ => ⟨hr, List.mem_cons_of_mem _ hmem⟩

theorem mem_mappings_iff {compiler : Compiler} {rs : List Registration} {m : Mapping} :
    m ∈ ((starting compiler).after rs).build.mappings
      ↔ ∃ r, (r, m) ∈ (starting compiler).additions rs := by
  rw [mappings_after]
  simp [build, starting]

/-! ## Identifiers -/

/-- An identifier has no separator. -/
theorem dot_notMem_of_isIdentifier {text : String} (h : Script.isIdentifier text = true) :
    '.' ∉ text.toList := by
  unfold Script.isIdentifier at h
  split at h
  next => cases h
  next c rest htext =>
    rw [htext]
    intro hmem
    simp only [Bool.and_eq_true, List.all_eq_true] at h
    rcases List.mem_cons.mp hmem with hfirst | hrest
    · rw [← hfirst] at h
      exact absurd h.1 (by decide)
    · exact absurd (h.2 '.' hrest) (by decide)

theorem isIdentifier_of_compile {c : Compiler} {s : Script} {m : Mapping}
    (hstrict : c.grammar.strictIdentifiers = true) (h : (c.compile s).1.mapping = some m) :
    Script.isIdentifier m.id = true := by
  obtain ⟨-, -, hfault, -⟩ := Compiler.mapping_eq_some_iff.mp h
  rw [Compiler.id_of_compile h]
  unfold Script.fault? at hfault
  rw [if_pos hstrict] at hfault
  split at hfault
  · cases hfault
  next hnone =>
    have hvalid := List.find?_eq_none.mp hnone s.id List.mem_cons_self
    simpa using hvalid

theorem id_of_nameSpace {space id space' id' : String} (h : '.' ∉ id.toList)
    (h' : '.' ∉ id'.toList) (heq : Mapping.nameSpace space id = Mapping.nameSpace space' id') :
    id = id' := by
  have hlists := congrArg String.toList heq
  simp only [Mapping.nameSpace, String.toList_append, List.append_assoc] at hlists
  exact String.toList_inj.mp (Text.append_mark_inj_right h h' hlists).2

/-- Scripts whose ids are identifiers do not ask for the same names. -/
theorem asksApart_of_strict {compiler : Compiler} (hasked : compiler.Asked)
    (hstrict : compiler.grammar.strictIdentifiers = true) (rs : List Registration) :
    (starting compiler).AsksApart rs := by
  intro s m s' m' hm hm' hne c _ c' _ hsubject
  have hdot {s m} (hm : (.script s, m) ∈ (starting compiler).additions rs) : '.' ∉ m.id.toList := by
    obtain ⟨c, hfresh, -, hmapping, -⟩ := compiled_of_additions hasked hm
    have hgrammar : c.grammar = compiler.grammar := congrArg (·.grammar) hfresh
    exact dot_notMem_of_isIdentifier (isIdentifier_of_compile (by rw [hgrammar, hstrict]) hmapping)
  exact hne (id_of_nameSpace (hdot hm) (hdot hm') (Prod.mk.inj hsubject).1)

/-! ## Names in a snapshot -/

variable {compiler : Compiler} {rs : List Registration}

/-- The names of two scripts are the same exactly if they were asked for the same. -/
theorem script_name_eq_iff (hasked : compiler.Asked) {s s' : Script} {m m' : Mapping}
    (hm : (.script s, m) ∈ (starting compiler).additions rs)
    (hm' : (.script s', m') ∈ (starting compiler).additions rs) {c c' : Command}
    (hc : c ∈ m.commands) (hc' : c' ∈ m'.commands) :
    c.generatedType = c'.generatedType ↔ (m.question c).subject = (m'.question c').subject := by
  obtain ⟨_, -, -, hmapping, hentered⟩ := compiled_of_additions hasked hm
  obtain ⟨_, -, -, hmapping', hentered'⟩ := compiled_of_additions hasked hm'
  obtain ⟨asked, -, hnames⟩ := asked_after (b := starting compiler) hasked rs
  rw [hnames] at hentered hentered'
  exact hentered.name_eq_iff hentered' (Compiler.proper_of_compile hmapping)
    (Compiler.proper_of_compile hmapping') hc hc'

theorem named_of_mem (hasked : compiler.Asked)
    (hbrought : ∀ m, Registration.compiled m ∈ rs → m.Named) {m : Mapping}
    (hm : m ∈ ((starting compiler).after rs).build.mappings) : m.Named := by
  obtain ⟨r, hadded⟩ := mem_mappings_iff.mp hm
  rcases origin_of_mem hadded with ⟨s, rfl⟩ | ⟨-, hmem⟩
  · obtain ⟨c, -, hc, hmapping, -⟩ := compiled_of_additions hasked hadded
    exact hc.named hmapping
  · exact hbrought m hmem

/-- Different mappings of a snapshot have different names exactly if no mapping that was compiled
elsewhere brings a name of another one, and no two scripts ask for the same name; which scripts do
not if their ids have to be identifiers.  As long as mappings come from compilers, a name that two
mappings share was made from fragments that run together to the same text. -/
theorem namesApart_iff (hasked : compiler.Asked) (rs : List Registration) :
    (((starting compiler).after rs).build.NamesApart
        ↔ (starting compiler).BringsApart rs ∧ (starting compiler).AsksApart rs)
      ∧ (compiler.grammar.strictIdentifiers = true → (starting compiler).AsksApart rs)
      ∧ ((∀ m, Registration.compiled m ∈ rs → m.Named) →
        ∀ m ∈ ((starting compiler).after rs).build.mappings,
          ∀ m' ∈ ((starting compiler).after rs).build.mappings,
            ∀ c ∈ m.commands, ∀ c' ∈ m'.commands, c.generatedType = c'.generatedType →
              ∃ q q' : Question, q.subject = (m.question c).subject
                ∧ q'.subject = (m'.question c').subject ∧ q.base = q'.base) := by
  refine ⟨⟨fun hapart => ⟨?_, ?_⟩, ?_⟩, fun hstrict => asksApart_of_strict hasked hstrict rs, ?_⟩
  · intro m hm m' hm'
    exact hapart m (mem_mappings_iff.mpr ⟨_, hm⟩) m' hm'
  · intro s m s' m' hm hm' hne c hc c' hc' hsubject
    exact hapart m (mem_mappings_iff.mpr ⟨_, hm⟩) m' (mem_mappings_iff.mpr ⟨_, hm'⟩) hne c hc c' hc'
      ((script_name_eq_iff hasked hm hm' hc hc').mpr hsubject)
  · rintro ⟨hbrings, hasks⟩ m hm m' hm' hne c hc c' hc' heq
    -- Only if both were made of scripts has one registry named them.
    obtain ⟨r, hr⟩ := mem_mappings_iff.mp hm
    obtain ⟨r', hr'⟩ := mem_mappings_iff.mp hm'
    rcases origin_of_mem hr with ⟨s, rfl⟩ | ⟨rfl, -⟩
    · rcases origin_of_mem hr' with ⟨s', rfl⟩ | ⟨rfl, -⟩
      · exact hasks s m s' m' hr hr' hne c hc c' hc'
          ((script_name_eq_iff hasked hr hr' hc hc').mp heq)
      · exact hbrings m' hr' m hm hne.symm c' hc' c hc heq.symm
    · exact hbrings m hr m' hm' hne c hc c' hc' heq
  · intro hbrought m hm m' hm' c hc c' hc' heq
    exact (named_of_mem hasked hbrought hm).base_eq (named_of_mem hasked hbrought hm') hc hc' heq

/-- What compiling a script file on its own comes to, whose id ends with an underscore. -/
def trailing : Except ScriptFileError CompiledFile :=
  (Compiler.compileFile { introspector := Batch.nests } 0 ⟨"m_.otc.toml"⟩
    (some (.file (Batch.smallScript "m_" "x").toUTF8)) {}).1

def trailingFile : CompiledFile := trailing.toOption.get (by decide +kernel)

theorem trailing_eq : trailing.toOption = some trailingFile := (Option.some_get _).symm

theorem named_trailing : trailingFile.mapping.Named := by
  have hok {e : Except ScriptFileError CompiledFile} {file : CompiledFile}
      (h : e.toOption = some file) : e = .ok file := by
    cases e with
    | error => cases h
    | ok found => exact congrArg Except.ok (Option.some.inj h)
  exact (Compiler.asked_fresh { introspector := Batch.nests }).named_of_file (hok trailing_eq)

/-- A script whose id has another letter has a name of its own. -/
theorem namesApart_iff_trailing :
    trailingFile.mapping.Named
      ∧ ((starting { introspector := Batch.nests }).after
        [.compiled trailingFile.mapping, .script (reading "n" ["x"])]).build.NamesApart := by
  have hasked : Compiler.Asked { introspector := Batch.nests } :=
    Compiler.asked_fresh { introspector := Batch.nests }
  obtain ⟨hiff, hstrict, -⟩ := namesApart_iff hasked
    [.compiled trailingFile.mapping, .script (reading "n" ["x"])]
  refine ⟨named_trailing, hiff.mpr ⟨fun m hm => ?_, hstrict rfl⟩⟩
  have hsame : m = trailingFile.mapping := by
    rcases origin_of_mem hm with ⟨s, hs⟩ | ⟨-, hmem⟩
    · cases hs
    · simpa using hmem
  rw [hsame]
  unfold Mapping.Apart
  decide +kernel

/-- Behind the mapping of the file, which its deployment restores, a script whose id has no
underscore is given the name that the file has. -/
theorem not_namesApart_trailing :
    trailing.toOption = some trailingFile
      ∧ ((Deployment.ofMapping trailingFile.mapping ⟨0, 0, 0⟩).rehydrate Batch.nests).1
        = .ok trailingFile.mapping
      ∧ ¬ ((starting { introspector := Batch.nests }).after
        [.compiled trailingFile.mapping, .script (reading "m" ["x"])]).build.NamesApart := by
  refine ⟨trailing_eq, by decide +kernel, ?_⟩
  unfold Snapshot.NamesApart Mapping.Apart
  decide +kernel

end RegistryBuilder
end ChainMapping
