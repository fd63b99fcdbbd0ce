import ChainMapping.Batch.Discovery
import ChainMapping.Proofs.Files.Traversal

/-!
# The scripts that a batch finds

A search ends with the script that reaches the limit, and what it has found is sorted then.  As a
directory is gone through in the order of paths, the search keeps the first scripts in that order
wherever it ends, and there is nothing left to sort.

The limit is looked at when a script has been taken in already.  So a limit of zero lets one script
through; `honoursLimit_iff` says that every other limit is kept.
-/

namespace ChainMapping
namespace FoundScript

/-- A script that stands in a directory itself or, if the search is recursive, anywhere below it. -/
structure InScope (recursive : Bool) (path : Path) (entries : List (String × Entry))
    (f : FoundScript) : Prop where
  named : f.path.namesScript = true
  stands : ∃ names, Entry.Holds entries names f.content ∧ f.path = path.below names
    ∧ (recursive = false → names.length = 1)

/-- All scripts in scope, in the order of their paths. -/
structure Lists (recursive : Bool) (path : Path) (entries : List (String × Entry))
    (all : List FoundScript) : Prop where
  mem : ∀ f, f ∈ all ↔ InScope recursive path entries f
  order : all.Pairwise fun f g => f.path.compare g.path = .lt

section Found

variable {recursive : Bool} {path : Path} {entries : List (String × Entry)}

theorem nodup_of_order {scripts : List FoundScript}
    (h : scripts.Pairwise fun f g => f.path.compare g.path = .lt) :
    (scripts.map (·.path)).Nodup := by
  rw [List.Nodup, List.pairwise_map]
  exact h.imp Path.ne_of_compare

theorem sort_of_order {scripts : List FoundScript}
    (h : scripts.Pairwise fun f g => f.path.compare g.path = .lt) : sort scripts = scripts :=
  List.mergeSort_of_pairwise (h.imp fun hlt => by rw [hlt]; rfl)

theorem mem_inDirectory {f : FoundScript} :
    f ∈ inDirectory recursive path entries ↔ InScope recursive path entries f := by
  have hmem : f ∈ inDirectory recursive path entries ↔ f.path.namesScript = true
      ∧ (f.path, f.content) ∈ (if recursive then Entry.filesBelow path entries
        else Entry.filesIn path entries) := by
    simp only [inDirectory, List.mem_map, List.mem_filter, Prod.exists]
    constructor
    · rintro ⟨place, content, ⟨hfile, hnamed⟩, rfl⟩
      exact ⟨hnamed, hfile⟩
    · rintro ⟨hnamed, hfile⟩
      exact ⟨f.path, f.content, ⟨hfile, hnamed⟩, rfl⟩
  rw [hmem]
  cases recursive with
  | true =>
    rw [if_pos rfl, Entry.mem_filesBelow]
    constructor
    · rintro ⟨hnamed, names, hholds, hplace⟩
      exact ⟨hnamed, names, hholds, hplace, by simp⟩
    · rintro ⟨hnamed, names, hholds, hplace, -⟩
      exact ⟨hnamed, names, hholds, hplace⟩
  | false =>
    rw [if_neg (by simp), Entry.mem_filesIn]
    constructor
    · rintro ⟨hnamed, name, hholds, hplace⟩
      exact ⟨hnamed, [name], hholds, hplace, fun _ => rfl⟩
    · rintro ⟨hnamed, names, hholds, hplace, hlength⟩
      obtain ⟨name, rfl⟩ := List.length_eq_one_iff.mp (hlength rfl)
      exact ⟨hnamed, name, hholds, hplace⟩

theorem lists_inDirectory (h : Entry.Sorted (.directory entries)) (recursive : Bool) (path : Path) :
    Lists recursive path entries (inDirectory recursive path entries) where
  mem _ := mem_inDirectory
  order := by
    have hfiles : (if recursive then Entry.filesBelow path entries
        else Entry.filesIn path entries).Pairwise fun a b => a.1.compare b.1 = .lt := by
      have hbelow := Entry.pairwise_filesBelow entries path h
      split
      · exact hbelow
      · exact hbelow.sublist (Entry.filesIn_sublist path entries)
    rw [inDirectory, List.pairwise_map]
    exact hfiles.filter _

end Found

section Discover

variable {options : BatchOptions} {path : Path} {entries : List (String × Entry)}

/-- A search takes in what comes first, and at least one script. -/
theorem discover_eq (h : Entry.Sorted (.directory entries)) (options : BatchOptions) (path : Path) :
    (discover options path (some (.directory entries))).1
      = if inDirectory options.recursive path entries = [] then .error (.noScripts path)
        else .ok ((inDirectory options.recursive path entries).take (max options.fileLimit 1)) := by
  have horder := (lists_inDirectory h options.recursive path).order
  have hempty : ((inDirectory options.recursive path entries).take
      (max options.fileLimit 1)).isEmpty = true
        ↔ inDirectory options.recursive path entries = [] := by
    rw [List.isEmpty_iff, List.take_eq_nil_iff]
    refine or_iff_right ?_
    omega
  unfold discover
  simp only [hempty, sort_of_order (horder.sublist (List.take_sublist _ _))]
  split <;> rfl

/-- A successful search finds the first scripts of all in scope, as many as the limit allows, and
each of them once. -/
def HonoursLimit (options : BatchOptions) (path : Path) (entries : List (String × Entry)) : Prop :=
  ∀ found, (discover options path (some (.directory entries))).1 = .ok found →
    ∃ all, Lists options.recursive path entries all ∧ found = all.take options.fileLimit
      ∧ (found.map (·.path)).Nodup

theorem not_honoursLimit_of_zero (h : Entry.Sorted (.directory entries))
    (hlimit : options.fileLimit = 0) {f : FoundScript}
    (hf : InScope options.recursive path entries f) : ¬HonoursLimit options path entries := by
  intro hhonours
  have hmem := mem_inDirectory.mpr hf
  have hresult := discover_eq h options path
  rw [if_neg (List.ne_nil_of_mem hmem), hlimit] at hresult
  obtain ⟨all, -, hfound, -⟩ := hhonours _ hresult
  rw [hlimit, List.take_zero, List.take_eq_nil_iff] at hfound
  rcases hfound with hzero | hnil
  · omega
  · exact List.ne_nil_of_mem hmem hnil

/-- The limit is honoured exactly if it is not zero, or there is nothing to be found. -/
theorem honoursLimit_iff (h : Entry.Sorted (.directory entries)) :
    HonoursLimit options path entries
      ↔ options.fileLimit ≠ 0 ∨ ∀ f, ¬InScope options.recursive path entries f := by
  constructor
  · intro hhonours
    by_contra hcase
    obtain ⟨hlimit, hsome⟩ := not_or.mp hcase
    obtain ⟨f, hf⟩ := not_forall_not.mp hsome
    exact not_honoursLimit_of_zero h (not_not.mp hlimit) hf hhonours
  · intro hcase found hfound
    have hlists := lists_inDirectory h options.recursive path
    rw [discover_eq h options path] at hfound
    split at hfound
    · cases hfound
    next hsome =>
      obtain ⟨f, hf⟩ := List.exists_mem_of_ne_nil _ hsome
      have hlimit := hcase.resolve_right fun hnone => hnone f ((hlists.mem f).mp hf)
      obtain rfl := Except.ok.inj hfound
      rw [Nat.max_eq_left (Nat.one_le_iff_ne_zero.mpr hlimit)]
      exact ⟨_, hlists, rfl, nodup_of_order (hlists.order.sublist (List.take_sublist _ _))⟩

end Discover

/-- Three scripts whose places begin alike. -/
def crates : List (String × Entry) :=
  ((((Entry.directory []).write ["b-", "x.otc.toml"] .empty).write ["b", "y.otc.toml"] .empty).write
    ["b.otc.toml"] .empty).entries

theorem sorted_crates : Entry.Sorted (.directory crates) := by
  have hnames : ∀ names ∈ [["b-", "x.otc.toml"], ["b", "y.otc.toml"], ["b.otc.toml"]],
      ∀ name ∈ names, Entry.IsName name := by
    decide +kernel
  have hempty : Entry.Sorted (.directory []) := .directory (by simp) .nil (by simp)
  exact ((hempty.write (hnames ["b-", "x.otc.toml"] (by simp)) _).write
    (hnames ["b", "y.otc.toml"] (by simp)) _).write (hnames ["b.otc.toml"] (by simp)) _

/-- A directory comes before one whose name goes on, and the third script is left out. -/
theorem honoursLimit_iff_crates :
    Entry.Sorted (.directory crates)
      ∧ HonoursLimit { maxFiles := some 2 } ⟨"w"⟩ crates
      ∧ (discover { maxFiles := some 2 } ⟨"w"⟩ (some (.directory crates))).1.toOption.map
          (·.map (·.path.text)) = some ["w/b/y.otc.toml", "w/b-/x.otc.toml"] := by
  refine ⟨sorted_crates, (honoursLimit_iff sorted_crates).mpr (.inl (by decide)), ?_⟩
  rw [discover_eq sorted_crates]
  decide +kernel

/-- A limit of zero lets one script through. -/
theorem not_honoursLimit_crates :
    Entry.Sorted (.directory crates) ∧ ¬HonoursLimit { maxFiles := some 0 } ⟨"w"⟩ crates := by
  have hsome : (inDirectory true ⟨"w"⟩ crates).length ≠ 0 := by decide +kernel
  obtain ⟨f, hf⟩ := List.exists_mem_of_length_pos (Nat.pos_of_ne_zero hsome)
  exact ⟨sorted_crates, not_honoursLimit_of_zero sorted_crates rfl (mem_inDirectory.mp hf)⟩

end FoundScript
end ChainMapping
