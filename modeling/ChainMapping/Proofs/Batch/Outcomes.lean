import ChainMapping.Batch.Basic
import ChainMapping.Proofs.Mapping.Drafts

/-!
# What the scripts of a batch come to

What a script comes to does not depend on the scripts compiled before it, but for the generated
names.  So the results of a list of scripts are the outcomes of the scripts one by one, gathered in
order, with the names drawn at the end: by the one compiler of a sequential batch as it goes along,
or once more when the workers of a parallel batch are done.
-/

namespace ChainMapping

namespace CompiledFile

def unnamed (f : CompiledFile) : CompiledFile := { f with mapping := f.mapping.unnamed }

/-- The file with names drawn from a registry. -/
def named (f : CompiledFile) (names : Naming.Registry) : CompiledFile :=
  { f with mapping := (f.mapping.assignNames names).1 }

theorem unnamed_named (f : CompiledFile) (names : Naming.Registry) :
    (f.named names).unnamed = f.unnamed := by
  rw [unnamed, named, Mapping.unnamed_assignNames, unnamed]

end CompiledFile

/-- The names handed out after a file; one that failed draws none. -/
def namesAfterFile (names : Naming.Registry) :
    Except ScriptFileError CompiledFile → Naming.Registry
  | .ok f => (f.mapping.assignNames names).2
  | .error _ => names

theorem Compiler.compileText_eq (c : Compiler) (path : Path) (size : Nat) (text : String)
    (elapsed elapsed' : Elapsed) :
    (c.compileText path size text elapsed).1
        = (c.fresh.compileText path size text elapsed').1.map (·.named c.names)
      ∧ (c.compileText path size text elapsed).2.2
        = { c with
          names := namesAfterFile c.names (c.fresh.compileText path size text elapsed').1 } := by
  unfold compileText
  cases Script.ofToml text with
  | error e => exact ⟨rfl, rfl⟩
  | ok script =>
    simp only
    rw [c.compile_eq script]
    simp only [withNames, namesAfter]
    cases (c.fresh.compile script).1.mapping with
    | none => exact ⟨rfl, rfl⟩
    | some m => exact ⟨rfl, rfl⟩

namespace Batch

/-- The scripts that a log says were entered, with their numbers. -/
def visits (log : List LogAction) : List (Path × Nat) :=
  log.filterMap fun
    | .enter path id => some (path, id)
    | _ => none

theorem visits_append (log more : List LogAction) :
    visits (log ++ more) = visits log ++ visits more :=
  List.filterMap_append

/-- What a script comes to with a compiler that has handed out no names. -/
def outcome (c : Compiler) (script : FoundScript) : Except ScriptFileError CompiledFile :=
  (compileScript c.fresh 0 script {}).1

theorem compileScript_eq (c : Compiler) (id : Nat) (script : FoundScript) (elapsed : Elapsed) :
    (compileScript c id script elapsed).1 = (outcome c script).map (·.named c.names)
      ∧ visits (compileScript c id script elapsed).2.1 = [(script.path, id)]
      ∧ (compileScript c id script elapsed).2.2
        = { c with names := namesAfterFile c.names (outcome c script) } := by
  unfold outcome compileScript Compiler.compileFile
  cases readScriptFile script.path (some (.file script.content)) with
  | mk read log =>
    cases read with
    | error e => exact ⟨rfl, by simp [visits], rfl⟩
    | ok found =>
      obtain ⟨hresult, hnames⟩ := c.compileText_eq script.path found.2 found.1 elapsed {}
      exact ⟨hresult, by simp [visits], hnames⟩

end Batch

/-! ## Names drawn again -/

namespace BatchResults

def unnamed (r : BatchResults) : BatchResults :=
  { r with compiled := r.compiled.map fun (path, file) => (path, file.unnamed) }

/-- The results with names drawn from a registry, in order. -/
def rename (r : BatchResults) (names : Naming.Registry) : BatchResults :=
  { r with compiled := renameFiles r.compiled names }

theorem renameFiles_unnamed (files : List (Path × CompiledFile)) (names : Naming.Registry) :
    renameFiles (files.map fun (path, file) => (path, file.unnamed)) names
      = renameFiles files names := by
  induction files generalizing names with
  | nil => rfl
  | cons entry rest ih =>
    obtain ⟨path, file⟩ := entry
    have hnames : file.unnamed.mapping.assignNames names = file.mapping.assignNames names :=
      Mapping.assignNames_unnamed file.mapping names
    simp only [List.map_cons, renameFiles, hnames, ih]
    rfl

theorem unnamed_renameFiles (files : List (Path × CompiledFile)) (names : Naming.Registry) :
    (renameFiles files names).map (fun (path, file) => (path, file.unnamed))
      = files.map fun (path, file) => (path, file.unnamed) := by
  induction files generalizing names with
  | nil => rfl
  | cons entry rest ih =>
    obtain ⟨path, file⟩ := entry
    have hfile := file.unnamed_named names
    rw [CompiledFile.named] at hfile
    simp only [renameFiles, List.map_cons, ih, hfile]

/-- Drawing names again forgets those that were drawn before. -/
theorem rename_unnamed (r : BatchResults) (names : Naming.Registry) :
    r.unnamed.rename names = r.rename names := by
  rw [rename, unnamed, rename, renameFiles_unnamed]

theorem unnamed_rename (r : BatchResults) (names : Naming.Registry) :
    (r.rename names).unnamed = r.unnamed := by
  rw [unnamed, rename, unnamed, unnamed_renameFiles]

theorem unnamed_append (r s : BatchResults) :
    (r.append s).unnamed = r.unnamed.append s.unnamed := by
  simp [unnamed, append]

theorem failed_unnamed (r : BatchResults) : r.unnamed.failed = r.failed := rfl

/-- The names of the first files do not depend on the files after them. -/
theorem renameFiles_begins (files more : List (Path × CompiledFile)) (names : Naming.Registry) :
    renameFiles files names <+: renameFiles (files ++ more) names := by
  induction files generalizing names with
  | nil => exact List.nil_prefix
  | cons entry rest ih =>
    obtain ⟨path, file⟩ := entry
    exact (List.prefix_cons_inj _).mpr (ih (file.mapping.assignNames names).2)

theorem paths_renameFiles (files : List (Path × CompiledFile)) (names : Naming.Registry) :
    (renameFiles files names).map Prod.fst = files.map Prod.fst := by
  induction files generalizing names with
  | nil => rfl
  | cons entry rest ih =>
    obtain ⟨path, file⟩ := entry
    simp only [renameFiles, List.map_cons, ih]

end BatchResults

/-! ## Outcomes in order -/

namespace Batch

open BatchResults

/-- The outcomes of scripts, put together in order. -/
def gathered (out : FoundScript → Except ScriptFileError CompiledFile) :
    List FoundScript → BatchResults
  | [] => {}
  | script :: rest => (single script.path (out script)).append (gathered out rest)

/-- The scripts that are compiled if a failure may be the end. -/
def tried (options : BatchOptions) (out : FoundScript → Except ScriptFileError CompiledFile) :
    List FoundScript → List FoundScript
  | [] => []
  | script :: rest =>
    if options.failFast && !(single script.path (out script)).failed.isEmpty then [script]
    else script :: tried options out rest

variable {options : BatchOptions} {out : FoundScript → Except ScriptFileError CompiledFile}

theorem append_assoc (r s t : BatchResults) : (r.append s).append t = r.append (s.append t) := by
  simp [append]

theorem gathered_append (scripts more : List FoundScript) :
    gathered out (scripts ++ more) = (gathered out scripts).append (gathered out more) := by
  induction scripts with
  | nil => simp [gathered, append]
  | cons script rest ih => rw [List.cons_append, gathered, gathered, ih, append_assoc]

theorem failed_gathered_cons (script : FoundScript) (rest : List FoundScript) :
    (gathered out (script :: rest)).failed
      = (single script.path (out script)).failed ++ (gathered out rest).failed := rfl

theorem tried_of_not_failFast (h : options.failFast = false) (scripts : List FoundScript) :
    tried options out scripts = scripts := by
  induction scripts with
  | nil => rfl
  | cons script rest ih => simp [tried, h, ih]

/-- The outcome of a script comes first, and its names are drawn before those of the others. -/
theorem rename_single_append (path : Path) (result : Except ScriptFileError CompiledFile)
    (names : Naming.Registry) (others : BatchResults) :
    ((single path result).append others).rename names
      = (single path (result.map (·.named names))).append
        (others.rename (namesAfterFile names result)) := by
  cases result <;> rfl

theorem failed_single_map (path : Path) (result : Except ScriptFileError CompiledFile)
    (f : CompiledFile → CompiledFile) :
    (single path (result.map f)).failed = (single path result).failed := by
  cases result <;> rfl

/-- One compiler after the other scripts comes to their outcomes, with names drawn in order. -/
theorem results_compileInOrder (options : BatchOptions) (total : Nat) (elapsed : Elapsed)
    (c : Compiler) (id : Nat) (scripts : List FoundScript) :
    (compileInOrder options total elapsed c id scripts).1
      = (gathered (outcome c) (tried options (outcome c) scripts)).rename c.names := by
  induction scripts generalizing c id with
  | nil => rfl
  | cons script rest ih =>
    obtain ⟨hresult, -, hcompiler⟩ := compileScript_eq c id script elapsed
    simp only [compileInOrder]
    rw [hresult, failed_single_map, tried]
    split
    · rw [gathered, rename_single_append]
      simp [gathered, rename, renameFiles, append]
    · have hrest := ih { c with names := namesAfterFile c.names (outcome c script) } (id + 1)
      rw [gathered, rename_single_append, hcompiler]
      exact congrArg (append _) hrest

end Batch
end ChainMapping
