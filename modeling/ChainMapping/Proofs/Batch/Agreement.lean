import ChainMapping.Proofs.Batch.Outcomes

/-!
# Parallel batches agree with sequential ones

Scripts are cut twice, into chunks and into the slices of the workers.  Cutting loses nothing, all
pieces but the last have the full size, and there are no more slices than workers.  So each script
is compiled under its own number, and when the names are drawn again at the end nothing is left of
how the scripts were divided.  If a failure ends the batch, a parallel batch goes on to the end of
its chunk, so what a sequential batch has done by then is a beginning of it.
-/

namespace ChainMapping

/-! ## Cutting into pieces -/

section Chunks

variable {α : Type}

theorem flatten_chunksOf (size : Nat) (l : List α) : (chunksOf size l).flatten = l := by
  fun_induction chunksOf size l with
  | case1 => rfl
  | case2 a rest ih =>
    rw [List.flatten_cons, ih, List.cons_append, List.take_append_drop]

/-- As many pieces as it takes to hold the list are enough. -/
theorem length_chunksOf_le {size pieces : Nat} (hsize : 0 < size) {l : List α}
    (h : l.length ≤ pieces * size) : (chunksOf size l).length ≤ pieces := by
  fun_induction chunksOf size l generalizing pieces with
  | case1 => exact Nat.zero_le _
  | case2 a rest ih =>
    cases pieces with
    | zero => simp at h
    | succ pieces =>
      rw [List.length_cons] at h ⊢
      have hrest : (rest.drop (size - 1)).length ≤ pieces * size := by
        rw [List.length_drop]
        rw [Nat.succ_mul] at h
        omega
      have := ih hrest
      omega

/-- A piece that is not the last one is full. -/
theorem length_piece {size : Nat} (hsize : 0 < size) {a : α} {rest : List α}
    (h : rest.drop (size - 1) ≠ []) : (a :: rest.take (size - 1)).length = size := by
  have hlength : size - 1 < rest.length := by
    by_cases hlt : size - 1 < rest.length
    · exact hlt
    · exact absurd (List.drop_eq_nil_of_le (by omega)) h
  rw [List.length_cons, List.length_take]
  omega

end Chunks

namespace Batch

open BatchResults

/-- No more workers than threads are needed for the shares of a chunk. -/
theorem length_workerSlices_le {threads : Nat} (hthreads : 0 < threads) (chunk : List FoundScript) :
    (workerSlices threads chunk).length ≤ threads := by
  refine length_chunksOf_le (by rw [share]; omega) ?_
  have hdiv := Nat.div_add_mod (chunk.length + threads - 1) threads
  have hmod := Nat.mod_lt (chunk.length + threads - 1) hthreads
  have hshare : (chunk.length + threads - 1) / threads ≤ share threads chunk := by
    rw [share]; omega
  have hmul := Nat.mul_le_mul_left threads hshare
  omega

theorem threadCount_pos (options : BatchOptions) : 0 < options.threadCount := by
  have hlimit : 0 < Limits.workerThreads := by decide
  rw [BatchOptions.threadCount]
  omega

theorem chunkSize_pos (scripts threads : Nat) : 0 < chunkSize scripts threads := by
  rw [chunkSize]
  omega

/-! ## Numbers -/

/-- The scripts with their numbers, counted from `start`. -/
def numbered (start : Nat) (scripts : List FoundScript) : List (Path × Nat) :=
  (scripts.zipIdx start).map fun (script, id) => (script.path, id)

theorem numbered_append (start : Nat) (scripts more : List FoundScript) :
    numbered start (scripts ++ more)
      = numbered start scripts ++ numbered (start + scripts.length) more := by
  rw [numbered, List.zipIdx_append, List.map_append]
  rfl

theorem visits_compileInOrder {options : BatchOptions} (h : options.failFast = false) (total : Nat)
    (elapsed : Elapsed) (c : Compiler) (id : Nat) (scripts : List FoundScript) :
    visits (compileInOrder options total elapsed c id scripts).2 = numbered id scripts := by
  induction scripts generalizing c id with
  | nil => rfl
  | cons script rest ih =>
    obtain ⟨-, hvisits, -⟩ := compileScript_eq c id script elapsed
    have hprogress : visits (if options.progress then
        [LogAction.announce s!"Compiling file {id + 1} of {total}: {script.path.text}"] else [])
        = [] := by
      split <;> rfl
    simp only [compileInOrder, h, Bool.false_and, Bool.false_eq_true, if_false, visits_append,
      hvisits, ih]
    rw [hprogress]
    rfl

/-- Numbers of pieces that are all full but for the last one continue each other. -/
theorem numbered_piece {size : Nat} (hsize : 0 < size) (start : Nat) (script : FoundScript)
    (rest : List FoundScript) :
    numbered start (script :: rest.take (size - 1))
        ++ numbered (start + size) (rest.drop (size - 1))
      = numbered start (script :: rest) := by
  by_cases hlast : rest.drop (size - 1) = []
  · have htake : rest.take (size - 1) = rest := by
      have := List.take_append_drop (size - 1) rest
      rwa [hlast, List.append_nil] at this
    rw [hlast, htake]
    exact List.append_nil _
  · have hfull := length_piece (a := script) hsize hlast
    have happend := numbered_append start (script :: rest.take (size - 1)) (rest.drop (size - 1))
    rw [hfull, List.cons_append, List.take_append_drop] at happend
    exact happend.symm

theorem visits_runWorkers (elapsed : Elapsed) (c : Compiler) (first : Nat) {size : Nat}
    (hsize : 0 < size) (worker : Nat) (scripts : List FoundScript) :
    visits (runWorkers elapsed c first size worker (chunksOf size scripts)).2
      = numbered (first + worker * size) scripts := by
  fun_induction chunksOf size scripts generalizing worker with
  | case1 => rfl
  | case2 script rest ih =>
    have hnext : first + (worker + 1) * size = first + worker * size + size := by
      rw [Nat.succ_mul, Nat.add_assoc]
    rw [runWorkers, ← numbered_piece hsize, ← hnext, ← ih]
    simp only [visits_append]
    rw [work, visits_compileInOrder rfl]

theorem visits_runChunks {options : BatchOptions} (h : options.failFast = false) (elapsed : Elapsed)
    (c : Compiler) {size : Nat} (hsize : 0 < size) (index : Nat) (scripts : List FoundScript) :
    visits (runChunks options elapsed c size index (chunksOf size scripts)).2
      = numbered (index * size) scripts := by
  fun_induction chunksOf size scripts generalizing index with
  | case1 => rfl
  | case2 script rest ih =>
    have hshare : 0 < share options.threadCount (script :: rest.take (size - 1)) := by
      rw [share]; omega
    rw [runChunks, ← numbered_piece hsize, ← Nat.succ_mul, ← ih]
    simp only [h, Bool.false_and, Bool.false_eq_true, if_false, visits_append]
    rw [workerSlices, visits_runWorkers elapsed c _ hshare]
    simp

/-! ## Results -/

variable {options : BatchOptions} {out : FoundScript → Except ScriptFileError CompiledFile}

theorem unnamed_runWorkers (elapsed : Elapsed) (c : Compiler) (first size worker : Nat)
    (slices : List (List FoundScript)) :
    (runWorkers elapsed c first size worker slices).1.unnamed
      = (gathered (outcome c) slices.flatten).unnamed := by
  induction slices generalizing worker with
  | nil => rfl
  | cons slice rest ih =>
    rw [runWorkers, List.flatten_cons, gathered_append]
    simp only [unnamed_append, ih]
    rw [work, results_compileInOrder, tried_of_not_failFast rfl, unnamed_rename]
    rfl

/-- The chunks that are compiled if a failure may be the end. -/
def triedChunks (options : BatchOptions)
    (out : FoundScript → Except ScriptFileError CompiledFile) :
    List (List FoundScript) → List (List FoundScript)
  | [] => []
  | chunk :: rest =>
    if options.failFast && !(gathered out chunk).failed.isEmpty then [chunk]
    else chunk :: triedChunks options out rest

theorem unnamed_runChunks (elapsed : Elapsed) (c : Compiler) (size index : Nat)
    (chunks : List (List FoundScript)) :
    (runChunks options elapsed c size index chunks).1.unnamed
      = (gathered (outcome c) (triedChunks options (outcome c) chunks).flatten).unnamed := by
  induction chunks generalizing index with
  | nil => rfl
  | cons chunk rest ih =>
    have hchunk := unnamed_runWorkers elapsed c (index * size) (share options.threadCount chunk) 0
      (workerSlices options.threadCount chunk)
    rw [workerSlices, flatten_chunksOf, ← workerSlices] at hchunk
    have hfailed := congrArg BatchResults.failed hchunk
    rw [failed_unnamed, failed_unnamed] at hfailed
    simp only [runChunks, triedChunks, hfailed]
    split
    · simpa using hchunk
    · rw [unnamed_append, hchunk, ih, List.flatten_cons, gathered_append, unnamed_append]

theorem triedChunks_of_not_failFast (h : options.failFast = false)
    (chunks : List (List FoundScript)) : triedChunks options out chunks = chunks := by
  induction chunks with
  | nil => rfl
  | cons chunk rest ih => simp [triedChunks, h, ih]

/-- Without a failure in a first part, the scripts after it are tried as on their own. -/
theorem tried_append_of_failed {scripts : List FoundScript}
    (h : (options.failFast && !(gathered out scripts).failed.isEmpty) = false)
    (more : List FoundScript) :
    tried options out (scripts ++ more) = scripts ++ tried options out more := by
  induction scripts with
  | nil => rfl
  | cons script rest ih =>
    rw [failed_gathered_cons] at h
    have hhere : (options.failFast && !(single script.path (out script)).failed.isEmpty)
        = false := by
      revert h
      cases options.failFast <;> cases (single script.path (out script)).failed <;> simp
    have hrest : (options.failFast && !(gathered out rest).failed.isEmpty) = false := by
      revert h
      cases options.failFast <;> cases (gathered out rest).failed <;> simp
    rw [List.cons_append, tried, hhere, ih hrest]
    rfl

/-- With a failure in a first part, nothing is tried after it. -/
theorem tried_append_begins {scripts : List FoundScript}
    (h : (options.failFast && !(gathered out scripts).failed.isEmpty) = true)
    (more : List FoundScript) : tried options out (scripts ++ more) <+: scripts := by
  induction scripts with
  | nil => simp [gathered] at h
  | cons script rest ih =>
    rw [List.cons_append, tried]
    split
    · exact (List.prefix_cons_inj _).mpr List.nil_prefix
    next hhere =>
      have hrest : (options.failFast && !(gathered out rest).failed.isEmpty) = true := by
        rw [failed_gathered_cons] at h
        revert h hhere
        cases options.failFast <;> cases (single script.path (out script)).failed <;> simp
      exact (List.prefix_cons_inj _).mpr (ih hrest)

/-- A batch that stops at a script stops at or before the end of the script's chunk. -/
theorem tried_begins_triedChunks (chunks : List (List FoundScript)) :
    tried options out chunks.flatten <+: (triedChunks options out chunks).flatten := by
  induction chunks with
  | nil => exact List.nil_prefix
  | cons chunk rest ih =>
    rw [List.flatten_cons, triedChunks]
    split
    next hfailed =>
      rw [List.flatten_singleton]
      exact tried_append_begins hfailed rest.flatten
    next hgo =>
      rw [tried_append_of_failed (by simpa using hgo), List.flatten_cons]
      exact (List.prefix_append_right_inj chunk).mpr ih

theorem rename_begins {scripts more : List FoundScript} (h : scripts <+: more)
    (names : Naming.Registry) :
    ((gathered out scripts).rename names).compiled <+: ((gathered out more).rename names).compiled
      ∧ ((gathered out scripts).rename names).failed
        <+: ((gathered out more).rename names).failed := by
  obtain ⟨others, rfl⟩ := h
  rw [gathered_append]
  exact ⟨renameFiles_begins _ _ names, List.prefix_append _ _⟩

/-- Both lists of results are in the order of the scripts, and each script is in one of them. -/
theorem paths_gathered (scripts : List FoundScript) :
    ((gathered out scripts).compiled.map Prod.fst).Sublist (scripts.map (·.path))
      ∧ ((gathered out scripts).failed.map Prod.fst).Sublist (scripts.map (·.path))
      ∧ (gathered out scripts).attempted = scripts.length := by
  induction scripts with
  | nil => exact ⟨.slnil, .slnil, rfl⟩
  | cons script rest ih =>
    obtain ⟨hcompiled, hfailed, hattempted⟩ := ih
    rw [attempted] at hattempted ⊢
    rw [gathered]
    cases out script with
    | ok file =>
      refine ⟨hcompiled.cons_cons script.path, hfailed.cons script.path, ?_⟩
      simp only [single, append, List.length_append, List.length_cons, List.length_nil]
      omega
    | error e =>
      refine ⟨hcompiled.cons script.path, hfailed.cons_cons script.path, ?_⟩
      simp only [single, append, List.length_append, List.length_cons, List.length_nil]
      omega

theorem results_compileSequentially (options : BatchOptions) (elapsed : Elapsed) (c : Compiler)
    (scripts : List FoundScript) :
    (compileSequentially options elapsed c scripts).1
      = (gathered (outcome c) (tried options (outcome c) scripts)).rename {} :=
  results_compileInOrder options scripts.length elapsed c.fresh 0 scripts

theorem results_compileInParallel (options : BatchOptions) (elapsed : Elapsed) (c : Compiler)
    (scripts : List FoundScript) :
    (compileInParallel options elapsed c scripts).1
      = (gathered (outcome c) (triedChunks options (outcome c) (chunksOf
          (chunkSize scripts.length options.threadCount) scripts)).flatten).rename {} := by
  have hunnamed := @unnamed_runChunks options elapsed c
    (chunkSize scripts.length options.threadCount) 0
    (chunksOf (chunkSize scripts.length options.threadCount) scripts)
  rw [compileInParallel]
  show BatchResults.rename _ {} = _
  rw [← rename_unnamed, hunnamed, rename_unnamed]

theorem visits_compileSequentially (h : options.failFast = false) (elapsed : Elapsed) (c : Compiler)
    (scripts : List FoundScript) :
    visits (compileSequentially options elapsed c scripts).2 = numbered 0 scripts := by
  rw [compileSequentially]
  simp only [visits_append, visits_compileInOrder h]
  exact List.append_nil _

theorem visits_compileInParallel (h : options.failFast = false) (elapsed : Elapsed) (c : Compiler)
    (scripts : List FoundScript) :
    visits (compileInParallel options elapsed c scripts).2 = numbered 0 scripts := by
  have hchunks := visits_runChunks h elapsed c
    (chunkSize_pos scripts.length options.threadCount) 0 scripts
  rw [Nat.zero_mul] at hchunks
  rw [compileInParallel]
  simp only [visits_append, hchunks]
  exact List.append_nil _

/-- A batch comes to the same on any number of threads: the same files compile, under the same
names, and the same files fail.  Each script is compiled once, under its place in the list.  If a
failure ends the batch, a sequential batch is a beginning of a parallel one.  No chunk has more
workers than there are threads. -/
theorem parallel_agrees (options : BatchOptions) (elapsed elapsed' : Elapsed) (c : Compiler)
    (scripts : List FoundScript) :
    (options.failFast = false →
        (compileInParallel options elapsed' c scripts).1
            = (compileSequentially options elapsed c scripts).1
          ∧ visits (compileSequentially options elapsed c scripts).2 = numbered 0 scripts
          ∧ visits (compileInParallel options elapsed' c scripts).2 = numbered 0 scripts
          ∧ ((compileInParallel options elapsed' c scripts).1.compiled.map Prod.fst).Sublist
            (scripts.map (·.path))
          ∧ ((compileInParallel options elapsed' c scripts).1.failed.map Prod.fst).Sublist
            (scripts.map (·.path))
          ∧ (compileInParallel options elapsed' c scripts).1.attempted = scripts.length)
      ∧ (compileSequentially options elapsed c scripts).1.compiled
        <+: (compileInParallel options elapsed' c scripts).1.compiled
      ∧ (compileSequentially options elapsed c scripts).1.failed
        <+: (compileInParallel options elapsed' c scripts).1.failed
      ∧ ∀ chunk ∈ chunksOf (chunkSize scripts.length options.threadCount) scripts,
        (workerSlices options.threadCount chunk).length ≤ options.threadCount := by
  have hsequential := results_compileSequentially options elapsed c scripts
  have hparallel := results_compileInParallel options elapsed' c scripts
  refine ⟨fun hslow => ?_, ?_⟩
  · rw [triedChunks_of_not_failFast hslow, flatten_chunksOf] at hparallel
    rw [tried_of_not_failFast hslow] at hsequential
    obtain ⟨hcompiled, hfailed, hattempted⟩ := @paths_gathered (outcome c) scripts
    have hpaths := paths_renameFiles (gathered (outcome c) scripts).compiled {}
    refine ⟨hparallel.trans hsequential.symm, visits_compileSequentially hslow elapsed c scripts,
      visits_compileInParallel hslow elapsed' c scripts, ?_, ?_, ?_⟩
    · rw [hparallel, rename, hpaths]
      exact hcompiled
    · rw [hparallel]
      exact hfailed
    · have hlength := congrArg List.length hpaths
      rw [List.length_map, List.length_map] at hlength
      rw [hparallel, rename, attempted, hlength]
      exact hattempted
  · have hbegins := @tried_begins_triedChunks options (outcome c)
      (chunksOf (chunkSize scripts.length options.threadCount) scripts)
    rw [flatten_chunksOf] at hbegins
    obtain ⟨hcompiled, hfailed⟩ := @rename_begins (outcome c) _ _ hbegins {}
    rw [hsequential, hparallel]
    exact ⟨hcompiled, hfailed,
      fun chunk _ => length_workerSlices_le (threadCount_pos options) chunk⟩

/-- A source in which `n` is an object and any other field is a text. -/
def nests : Introspector where
  typeRef name := .ok ⟨name, .object, []⟩
  fieldType owner field :=
    .ok ⟨owner, field, if field = "n" then ⟨"N", .object, []⟩ else ⟨"String", .scalar, []⟩⟩

/-- A script with one command, from nothing to the chain given. -/
def smallScript (id target : String) : String :=
  s!"id = '{id}'\nsource_type = 'A'\ntarget_type = 'A'\n[[commands]]\nid = 'c'\nto = '{target}'\n"

/-- Two scripts that draw the same name when they are compiled apart, and between them one that is
no script. -/
def clashing : List FoundScript :=
  [⟨⟨"a.otc.toml"⟩, (smallScript "m" "n.x").toUTF8⟩, ⟨⟨"b.otc.toml"⟩, "?".toUTF8⟩,
    ⟨⟨"c.otc.toml"⟩, (smallScript "m_n" "x").toUTF8⟩]

/-- Each of three workers draws the first name there is, and the second one is numbered in the
end. -/
theorem parallel_agrees_clashing :
    (compileInParallel { threads := 3 } {} { introspector := nests } clashing).1
        = (compileSequentially { threads := 3 } {} { introspector := nests } clashing).1
      ∧ visits (compileInParallel { threads := 3 } {} { introspector := nests } clashing).2
        = [(⟨"a.otc.toml"⟩, 0), (⟨"b.otc.toml"⟩, 1), (⟨"c.otc.toml"⟩, 2)]
      ∧ (compileInParallel { threads := 3 } {} { introspector := nests } clashing).1.compiled.map
          (fun (_, file) => file.mapping.commands.map (·.generatedType))
        = [["OtcMNX"], ["OtcMNX_2"]] := by
  obtain ⟨hagree, -, hvisits, -⟩ :=
    (parallel_agrees { threads := 3 } {} {} { introspector := nests } clashing).1 rfl
  exact ⟨hagree, hvisits, by decide +kernel⟩

end Batch
end ChainMapping
