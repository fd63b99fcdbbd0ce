import ChainMapping.Proofs.Naming
import ChainMapping.Proofs.Registry.Rehydration

/-!
# What names are made from

A name is made from the fragments of a namespace and of a chain, and has a number if that was not
free.  A fragment has no underscore, so a name still shows what it was made from.  Each command of a
mapping that was compiled has a name that was asked for about its chain, whichever registry was
asked, and a deployment that is restored keeps it.
-/

namespace ChainMapping

namespace Text

theorem not_underscore_of_run {r : CapitalRun}
    (h : 0x5f < r.capital ∨ r.capital + (r.last - r.first) < 0x5f) {m n : Nat}
    (happly : r.apply m = some n) : n ≠ 0x5f := by
  unfold CapitalRun.apply at happly
  split at happly
  next hinside =>
    simp only [Bool.and_eq_true, decide_eq_true_eq] at hinside
    have hn := Option.some.inj happly
    omega
  next => cases happly

theorem ofNat_ne_underscore {n : Nat} (h : n ≠ 0x5f) : Char.ofNat n ≠ '_' := by
  intro heq
  by_cases hvalid : n.isValidChar
  · have hcode : (Char.ofNat n).toNat = n := by
      unfold Char.ofNat
      rw [dif_pos hvalid]
      rfl
    rw [heq] at hcode
    exact h hcode.symm
  · have hzero : Char.ofNat n = '\x00' := by
      unfold Char.ofNat
      rw [dif_neg hvalid]
      rfl
    rw [hzero] at heq
    exact absurd heq (by decide)

/-- No other character has an underscore for a capital. -/
theorem underscore_notMem_capital {c : Char} (h : c ≠ '_') : '_' ∉ capital c := by
  unfold capital
  split
  next hascii =>
    have hupper : ∀ n < 0x80, n ≠ 0x5f → (Char.ofNat n).toUpper ≠ '_' := by decide +kernel
    have hcode : c.toNat ≠ 0x5f := fun heq => h (by rw [← Char.ofNat_toNat c, heq])
    have hne := hupper c.toNat hascii hcode
    rw [Char.ofNat_toNat] at hne
    rw [List.mem_singleton]
    exact hne.symm
  · split
    next form hlookup =>
      have hforms : ∀ entry ∈ longCapitals, 0x5f ∉ entry.2 := by decide +kernel
      have hform : 0x5f ∉ form := hforms (c.toNat, form) (Ordered.mem_of_lookup hlookup)
      intro hmem
      obtain ⟨n, hn, heq⟩ := List.mem_map.mp hmem
      exact ofNat_ne_underscore (fun hcode => hform (hcode ▸ hn)) heq
    next =>
      split
      next n hfound =>
        obtain ⟨r, hr, happly⟩ := List.exists_of_findSome?_eq_some hfound
        have hruns : ∀ r ∈ capitalRuns,
            0x5f < r.capital ∨ r.capital + (r.last - r.first) < 0x5f := by decide +kernel
        rw [List.mem_singleton]
        exact (ofNat_ne_underscore (not_underscore_of_run (hruns r hr) happly)).symm
      next =>
        rw [List.mem_singleton]
        exact Ne.symm h

end Text

namespace Naming

theorem underscore_notMem_capitalizeWords (atStart : Bool) (cs : List Char) :
    '_' ∉ capitalizeWords atStart cs := by
  fun_induction capitalizeWords atStart cs with
  | case1 => exact List.not_mem_nil
  | case2 _ c rest _ ih => exact ih
  | case3 c rest hword ih =>
    have hc : c ≠ '_' := fun heq => hword (by simp [heq])
    rw [List.mem_append]
    exact fun hmem => hmem.elim (Text.underscore_notMem_capital hc) ih
  | case4 _ c rest hword _ ih =>
    have hc : c ≠ '_' := fun heq => hword (by simp [heq])
    rw [List.mem_cons]
    exact fun hmem => hmem.elim (fun heq => hc heq.symm) ih

namespace Registry

theorem Question.underscore_notMem_base (q : Question) : '_' ∉ q.base.toList := by
  rw [base, String.toList_append, fragment, fragment, String.toList_ofList, String.toList_ofList,
    List.mem_append]
  exact fun hmem => hmem.elim (underscore_notMem_capitalizeWords _ _)
    (underscore_notMem_capitalizeWords _ _)

/-- A choice shows what it was made from. -/
theorem base_of_candidate {base base' : String} (h : '_' ∉ base.toList) (h' : '_' ∉ base'.toList)
    {n n' : Nat} (heq : candidate base n = candidate base' n') : base = base' := by
  have hlists := congrArg String.toList heq
  match n, n' with
  | 0, 0 => exact heq
  | 0, n' + 1 =>
    rw [toList_candidate_succ, candidate] at hlists
    exact absurd (by rw [hlists]; simp) h
  | n + 1, 0 =>
    rw [toList_candidate_succ, candidate] at hlists
    exact absurd (by rw [← hlists]; simp) h'
  | n + 1, n' + 1 =>
    rw [toList_candidate_succ, toList_candidate_succ] at hlists
    exact String.toList_inj.mp (Text.append_mark_inj_left h h' hlists).1

/-! ## Entries -/

theorem mem_ask {r : Registry} {q : Question} {entry : String × String}
    (h : entry ∈ (r.ask q).2.issued) :
    entry ∈ r.issued ∨ entry.1 = q.key ∧ ∃ n, entry.2 = candidate q.base n := by
  obtain ⟨name, -, hask⟩ | ⟨-, n, -, -, hask⟩ := r.ask_cases q
  · rw [hask] at h
    exact .inl h
  · rw [hask] at h
    rcases List.mem_cons.mp h with rfl | h
    · exact .inr ⟨rfl, n, rfl⟩
    · exact .inl h

/-- An entry is kept, and a question has one once it was asked. -/
theorem issued_ask (r : Registry) (q : Question) :
    r.issued ⊆ (r.ask q).2.issued ∧ (q.key, (r.ask q).1) ∈ (r.ask q).2.issued := by
  obtain ⟨name, hlookup, hask⟩ | ⟨-, n, -, -, hask⟩ := r.ask_cases q
  · rw [hask]
    exact ⟨fun _ h => h, Ordered.mem_of_lookup hlookup⟩
  · rw [hask]
    exact ⟨fun _ h => List.mem_cons_of_mem _ h, List.mem_cons_self⟩

theorem mem_after {r : Registry} {questions : List Question} {entry : String × String}
    (h : entry ∈ (r.after questions).issued) :
    entry ∈ r.issued ∨ ∃ q ∈ questions, entry.1 = q.key ∧ ∃ n, entry.2 = candidate q.base n := by
  induction questions generalizing r with
  | nil => exact .inl h
  | cons q later ih =>
    rcases ih h with hasked | ⟨q', hq', hentry⟩
    · rcases mem_ask hasked with hbefore | hentry
      · exact .inl hbefore
      · exact .inr ⟨q, List.mem_cons_self, hentry⟩
    · exact .inr ⟨q', List.mem_cons_of_mem _ hq', hentry⟩

theorem issued_after (r : Registry) (questions : List Question) :
    r.issued ⊆ (r.after questions).issued := by
  induction questions generalizing r with
  | nil => exact fun _ h => h
  | cons q later ih => exact fun _ h => ih (r.ask q).2 ((r.issued_ask q).1 h)

theorem after_append (r : Registry) (questions later : List Question) :
    r.after (questions ++ later) = (r.after questions).after later := List.foldl_append

end Registry
end Naming

/-! ## Names of mappings -/

namespace Mapping

open Naming.Registry (Question)

/-- What the name of a command is asked for. -/
def question (m : Mapping) (c : Command) : Question :=
  ⟨nameSpace m.space m.id, c.target.chain.text⟩

def questions (m : Mapping) : List Question := m.commands.map m.question

/-- The commands have the names that a registry knows for them. -/
def Entered (m : Mapping) (names : Naming.Registry) : Prop :=
  ∀ c ∈ m.commands, ((m.question c).key, c.generatedType) ∈ names.issued

/-- The name of each command was made from its namespace and a chain with the normal form of its
own one. -/
def Named (m : Mapping) : Prop :=
  ∀ c ∈ m.commands, ∃ q : Question, q.subject = (m.question c).subject
    ∧ ∃ n, c.generatedType = Naming.Registry.candidate q.base n

theorem Entered.mono {m : Mapping} {names names' : Naming.Registry} (h : m.Entered names)
    (hmore : names.issued ⊆ names'.issued) : m.Entered names' :=
  fun c hc => hmore (h c hc)

theorem nameCommands_entered (space : String) (commands : List Command) (names : Naming.Registry) :
    (nameCommands space commands names).2
        = names.after (commands.map fun c => ⟨space, c.target.chain.text⟩)
      ∧ ∀ c ∈ (nameCommands space commands names).1,
        (Question.key ⟨space, c.target.chain.text⟩, c.generatedType)
          ∈ (nameCommands space commands names).2.issued := by
  induction commands generalizing names with
  | nil => exact ⟨rfl, fun _ hc => by cases hc⟩
  | cons c rest ih =>
    let q : Question := ⟨space, c.target.chain.text⟩
    obtain ⟨hafter, hentered⟩ := ih (names.ask q).2
    refine ⟨hafter, fun c' hc' => ?_⟩
    rcases List.mem_cons.mp hc' with rfl | hc'
    · have hkept := (names.ask q).2.issued_after (rest.map fun c => ⟨space, c.target.chain.text⟩)
      rw [← hafter] at hkept
      exact hkept (names.issued_ask q).2
    · exact hentered c' hc'

theorem chains_target (m : Mapping) : m.chains .target = m.commands.map (·.target.chain) :=
  congrFun (List.filterMap_eq_map (f := fun c : Command => c.target.chain)) m.commands

theorem questions_eq (m : Mapping) :
    m.questions = (m.chains .target).map fun chain => ⟨nameSpace m.space m.id, chain.text⟩ := by
  rw [chains_target, List.map_map]
  rfl

theorem questions_assignNames (m : Mapping) (names : Naming.Registry) :
    (m.assignNames names).1.questions = m.questions := by
  rw [questions_eq, questions_eq, chains_assignNames]
  rfl

theorem assignNames_entered (m : Mapping) (names : Naming.Registry) :
    (m.assignNames names).2 = names.after m.questions
      ∧ (m.assignNames names).1.Entered (m.assignNames names).2 :=
  nameCommands_entered (nameSpace m.space m.id) m.commands names

/-- The names that a registry knows were made for the questions it was asked. -/
theorem Entered.named {m : Mapping} {asked : List Question}
    (h : m.Entered (.after {} asked)) (hasked : ∀ q ∈ asked, q.IsProper)
    (hproper : ∀ q ∈ m.questions, q.IsProper) : m.Named := by
  intro c hc
  rcases Naming.Registry.mem_after (h c hc) with hstart | ⟨q, hq, hkey, hname⟩
  · cases hstart
  · refine ⟨q, ?_, hname⟩
    exact ((Question.key_eq_iff (hproper _ (List.mem_map_of_mem hc)) (hasked q hq)).mp hkey).symm

/-- Commands whose names one registry knows have the same name exactly if these were asked for the
same. -/
theorem Entered.name_eq_iff {m m' : Mapping} {asked : List Question}
    (h : m.Entered (.after {} asked)) (h' : m'.Entered (.after {} asked))
    (hproper : ∀ q ∈ m.questions, q.IsProper) (hproper' : ∀ q ∈ m'.questions, q.IsProper)
    {c c' : Command} (hc : c ∈ m.commands) (hc' : c' ∈ m'.commands) :
    c.generatedType = c'.generatedType ↔ (m.question c).subject = (m'.question c').subject := by
  have hremembers := Naming.Registry.remembers_after asked
  rw [← Question.key_eq_iff (hproper _ (List.mem_map_of_mem hc))
    (hproper' _ (List.mem_map_of_mem hc'))]
  constructor
  · intro heq
    exact congrArg Prod.fst
      (List.inj_on_of_nodup_map hremembers.names_nodup (h c hc) (h' c' hc') heq)
  · intro hkey
    exact congrArg Prod.snd
      (List.inj_on_of_nodup_map hremembers.keys_nodup (h c hc) (h' c' hc') hkey)

/-- Names that are the same were made from the same letters. -/
theorem Named.base_eq {m m' : Mapping} (h : m.Named) (h' : m'.Named) {c c' : Command}
    (hc : c ∈ m.commands) (hc' : c' ∈ m'.commands) (heq : c.generatedType = c'.generatedType) :
    ∃ q q' : Question, q.subject = (m.question c).subject ∧ q'.subject = (m'.question c').subject
      ∧ q.base = q'.base := by
  obtain ⟨q, hq, n, hname⟩ := h c hc
  obtain ⟨q', hq', n', hname'⟩ := h' c' hc'
  rw [hname, hname'] at heq
  exact ⟨q, q', hq, hq', Naming.Registry.base_of_candidate q.underscore_notMem_base
    q'.underscore_notMem_base heq⟩

end Mapping

namespace Compiler

open Naming.Registry (Question)

variable {c : Compiler} {script : Script} {m : Mapping}

/-- The compiler has been asked for the names of chains, and of nothing else. -/
def Asked (c : Compiler) : Prop :=
  ∃ asked : List Question, (∀ q ∈ asked, q.IsProper) ∧ c.names = .after {} asked

theorem asked_fresh (c : Compiler) : c.fresh.Asked :=
  ⟨[], ⟨fun _ hq => absurd hq List.not_mem_nil, rfl⟩⟩

theorem proper_of_compile (h : (c.compile script).1.mapping = some m) :
    ∀ q ∈ m.questions, q.IsProper := by
  have horigins := origins_of_compile (P := fun _ _ => True) h (fun _ _ _ _ _ _ _ => trivial)
    (fun _ _ => trivial) .target
  rw [Mapping.questions_eq]
  intro q hq
  obtain ⟨chain, hchain, rfl⟩ := List.mem_map.mp hq
  obtain ⟨-, -, text, -, hparse⟩ := horigins.2 chain hchain
  rw [← (Chain.proper_of_parse hparse).1] at hparse
  exact ⟨chain, hparse⟩

/-- A mapping has the names that its compiler knows for it once it is compiled. -/
theorem names_of_compile (h : (c.compile script).1.mapping = some m) :
    (c.compile script).2.names = c.names.after m.questions
      ∧ m.Entered (c.compile script).2.names := by
  rw [compile_eq] at h ⊢
  -- The names are drawn for the mapping that a compiler without names comes to.
  obtain ⟨draft, hdraft, rfl⟩ := Option.map_eq_some_iff.mp h
  obtain ⟨hnames, hentered⟩ := draft.assignNames_entered c.names
  have hafter : namesAfter (c.fresh.compile script).1 c.names = (draft.assignNames c.names).2 := by
    rw [namesAfter, hdraft]
    rfl
  rw [Mapping.questions_assignNames]
  simp only [hafter]
  exact ⟨hnames, hentered⟩

theorem Asked.compile (hc : c.Asked) (h : (c.compile script).1.mapping = some m) :
    (c.compile script).2.Asked := by
  obtain ⟨asked, hproper, hnames⟩ := hc
  refine ⟨asked ++ m.questions, fun q hq => ?_, ?_⟩
  · exact (List.mem_append.mp hq).elim (hproper q) (proper_of_compile h q)
  · rw [(names_of_compile h).1, hnames, Naming.Registry.after_append]

theorem Asked.named (hc : c.Asked) (h : (c.compile script).1.mapping = some m) : m.Named := by
  obtain ⟨asked, hproper, hnames⟩ := hc.compile h
  have hentered := (names_of_compile h).2
  rw [hnames] at hentered
  exact hentered.named hproper (proper_of_compile h)

/-- The mapping of a script file is that of the script in it. -/
theorem compile_of_compileFile {id : Nat} {path : Path} {entry : Option Entry} {elapsed : Elapsed}
    {file : CompiledFile} (h : (c.compileFile id path entry elapsed).1 = .ok file) :
    ∃ script, (c.compile script).1.mapping = some file.mapping := by
  unfold compileFile at h
  cases hread : readScriptFile path entry with
  | mk read log =>
    cases read with
    | error e => simp [hread] at h
    | ok found =>
      simp only [hread, compileText] at h
      cases hscript : Script.ofToml found.1 with
      | error e => simp [hscript] at h
      | ok script =>
        cases hmapping : (c.compile script).1.mapping with
        | none => simp [hscript, hmapping] at h
        | some m =>
          simp only [hscript, hmapping, Except.ok.injEq] at h
          exact ⟨script, by rw [hmapping, ← h]⟩

theorem Asked.named_of_file (hc : c.Asked) {id : Nat} {path : Path} {entry : Option Entry}
    {elapsed : Elapsed} {file : CompiledFile}
    (h : (c.compileFile id path entry elapsed).1 = .ok file) : file.mapping.Named := by
  obtain ⟨script, hmapping⟩ := compile_of_compileFile h
  exact hc.named hmapping

end Compiler

namespace Deployment

/-- The script of a deployment asks for the same names. -/
theorem questions_of_compile {c : Compiler} {m m' : Mapping} {deployedAt : Moment}
    (h : (c.compile (ofMapping m deployedAt).script).1.mapping = some m') :
    m'.questions = m.questions := by
  have hcommands := commands_of_compile h deployedAt
  obtain ⟨-, -, -, -, hm'⟩ := starts_of_compile h
  have hspace : Mapping.nameSpace m'.space m'.id = Mapping.nameSpace m.space m.id := by
    rw [hm']
    rfl
  have htexts (m : Mapping) : m.commands.map (·.target.chain.text)
      = (ofMapping m deployedAt).script.commands.map (·.target) := by
    simp only [script, ofMapping, List.map_map]
    rfl
  have hquestions (m : Mapping) : m.questions = (m.commands.map (·.target.chain.text)).map
      fun text => ⟨Mapping.nameSpace m.space m.id, text⟩ := by
    rw [List.map_map]
    rfl
  rw [hquestions, hquestions, htexts, htexts, hcommands, hspace]

/-- Restoring a deployment keeps what the names were made from. -/
theorem named_of_rehydrate {m restored : Mapping} (h : m.Named) {deployedAt : Moment}
    {i : Introspector} (hrestored : ((ofMapping m deployedAt).rehydrate i).1 = .ok restored) :
    restored.Named := by
  obtain ⟨m', hm', -, rfl⟩ := rehydrate_eq_ok_iff.mp hrestored
  intro c hc
  obtain ⟨k, hk, rfl⟩ := List.mem_iff_getElem.mp hc
  have hlengths : k < m'.commands.length ∧ k < m.commands.length := by
    simpa [restoreNames, ofMapping, Nat.lt_min] using hk
  have hquestion : m'.question m'.commands[k] = m.question m.commands[k] := by
    have hall := congrArg (·[k]?) (questions_of_compile hm')
    simpa [Mapping.questions, hlengths] using hall
  obtain ⟨q, hq, hname⟩ := h _ (List.getElem_mem hlengths.2)
  rw [← hquestion] at hq
  simp only [restoreNames, ofMapping, List.getElem_zipWith, List.getElem_map]
  exact ⟨q, hq, hname⟩

end Deployment
end ChainMapping
