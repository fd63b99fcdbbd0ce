import ChainMapping.Files.Tree
import ChainMapping.Proofs.Document.Sorting
import ChainMapping.Proofs.Ordered
import ChainMapping.Proofs.Text.Separator

/-!
# Going through a directory

Entries stand in the order of their names, and paths are compared part by part.  So a directory is
gone through in the order of paths: what stands below an entry comes before what stands below the
next one, however their names begin.  A comparison of whole texts would not agree with this, since
`b/x` comes after `b-` as a text.
-/

namespace ChainMapping

/-! ## Paths -/

theorem PathPart.compare_self (a : PathPart) : a.compare a = .eq := by
  cases a with
  | name text => exact Std.ReflOrd.compare_self (a := text)
  | _ => rfl

theorem PathPart.compare_name {a b : String} (h : a < b) :
    (PathPart.name a).compare (.name b) = .lt := compareOfLessAndEq_eq_lt.mpr h

/-- A name that an entry can have: in a path it is one part, and a part that names something. -/
structure Entry.IsName (name : String) : Prop where
  notEmpty : name ≠ ""
  whole : '/' ∉ name.toList
  notHere : name ≠ "."
  notUp : name ≠ ".."

instance (name : String) : Decidable (Entry.IsName name) :=
  decidable_of_iff (name ≠ "" ∧ '/' ∉ name.toList ∧ name ≠ "." ∧ name ≠ "..")
    ⟨fun ⟨notEmpty, whole, notHere, notUp⟩ => ⟨notEmpty, whole, notHere, notUp⟩,
      fun h => ⟨h.notEmpty, h.whole, h.notHere, h.notUp⟩⟩

namespace Path

theorem compareParts_append (shared as bs : List PathPart) :
    compareParts (shared ++ as) (shared ++ bs) = compareParts as bs := by
  induction shared with
  | nil => rfl
  | cons part rest ih =>
    rw [List.cons_append, List.cons_append, compareParts, PathPart.compare_self, ih]
    rfl

theorem compareParts_self (parts : List PathPart) : compareParts parts parts = .eq := by
  have h := compareParts_append parts [] []
  rwa [List.append_nil] at h

/-- What a list of pieces says about a path apart from where it begins. -/
def namedParts (pieces : List String) : List PathPart :=
  pieces.filterMap fun piece =>
    if piece = "" || piece = "." then none
    else if piece = ".." then some .up
    else some (PathPart.name piece)

theorem parts_eq (p : Path) : p.parts
    = (if p.isAbsolute then [.root] else if p.pieces.head? = some "." then [.here] else [])
      ++ namedParts p.pieces := rfl

variable {p q : Path} {name : String}

/-- Another piece at the end that is a name adds one part; a separator at the end does not count. -/
theorem parts_of_pieces (before : List String) (h : Entry.IsName name)
    (habsolute : q.isAbsolute = p.isAbsolute) (hq : q.pieces = before ++ [name])
    (hp : p.pieces = before ++ [""] ∨ (p.pieces = before ∧ before ≠ [])) :
    q.parts = p.parts ++ [.name name] := by
  have hname : namedParts q.pieces = namedParts p.pieces ++ [.name name] := by
    have hlast : namedParts [name] = [.name name] := by
      simp [namedParts, h.notEmpty, h.notHere, h.notUp]
    have hskip : namedParts [""] = [] := by simp [namedParts]
    have happend (xs ys : List String) : namedParts (xs ++ ys) = namedParts xs ++ namedParts ys :=
      List.filterMap_append
    rcases hp with hp | ⟨hp, -⟩
    · rw [hq, hp, happend, happend, hlast, hskip, List.append_nil]
    · rw [hq, hp, happend, hlast]
  have hhead : (q.pieces.head? = some ".") ↔ (p.pieces.head? = some ".") := by
    cases before with
    | nil =>
      rcases hp with hp | ⟨-, hne⟩
      · simp [hq, hp, h.notHere]
      · exact absurd rfl hne
    | cons first rest =>
      rcases hp with hp | ⟨hp, -⟩
      · rw [hq, hp]
        rfl
      · rw [hq, hp]
        rfl
  rw [parts_eq, parts_eq, habsolute, hname, List.append_assoc]
  simp only [hhead]

theorem parts_join (p : Path) (h : Entry.IsName name) :
    (p.join name).parts = p.parts ++ [.name name] := by
  have hrelative : name.toList.head? ≠ some '/' := fun hhead =>
    h.whole (List.mem_of_mem_head? hhead)
  have hpiece : Text.splitAll '/' name.toList = [name.toList] := Text.splitAll_of_notMem h.whole
  have hmark (cs : List Char) : pieces ⟨String.ofList (cs ++ '/' :: name.toList)⟩
      = (Text.splitAll '/' cs).map String.ofList ++ [name] := by
    simp [pieces, Text.splitAll_append_mark, hpiece]
  obtain ⟨text⟩ := p
  rw [join, if_neg hrelative]
  by_cases hempty : text = ""
  · subst hempty
    refine parts_of_pieces [] h ?_ ?_ (.inl rfl)
    · simp [isAbsolute, hrelative]
    · simp [pieces, hpiece]
  · have hne : text.toList ≠ [] := by simpa using hempty
    obtain ⟨first, rest, htext⟩ := List.exists_cons_of_ne_nil hne
    by_cases hslash : text.toList.getLast? = some '/'
    · obtain ⟨cs, hcs⟩ := List.getLast?_eq_some_iff.mp hslash
      have hjoined : text ++ name = String.ofList (cs ++ '/' :: name.toList) := by
        rw [← String.toList_inj, String.toList_append, hcs]
        simp
      rw [if_pos (by simp [hslash])]
      refine parts_of_pieces ((Text.splitAll '/' cs).map String.ofList) h ?_ ?_ (.inl ?_)
      · simp [isAbsolute, htext]
      · rw [hjoined]
        exact hmark cs
      · simp [pieces, hcs, Text.splitAll_append_mark, Text.splitAll]
    · have hjoined : text ++ "/" ++ name = String.ofList (text.toList ++ '/' :: name.toList) := by
        rw [← String.toList_inj]
        simp
      rw [if_neg (by simp [hempty, hslash])]
      refine parts_of_pieces ((Text.splitAll '/' text.toList).map String.ofList) h ?_ ?_
        (.inr ⟨rfl, ?_⟩)
      · simp [isAbsolute, htext]
      · rw [hjoined]
        exact hmark text.toList
      · simpa using Text.splitAll_ne_nil '/' text.toList

/-- A path that goes on from another one through a row of names. -/
def below (p : Path) (names : List String) : Path := names.foldl join p

theorem parts_below (p : Path) {names : List String} (h : ∀ name ∈ names, Entry.IsName name) :
    (p.below names).parts = p.parts ++ names.map .name := by
  induction names generalizing p with
  | nil => simp [below]
  | cons name rest ih =>
    have hrest := ih (p.join name) fun other hmem => h other (List.mem_cons_of_mem _ hmem)
    rw [below, List.foldl_cons, ← below, hrest, parts_join p (h name List.mem_cons_self),
      List.append_assoc]
    rfl

/-- The names where two paths part decide between them. -/
theorem compare_below {first first' : String} {rest rest' : List String}
    (h : ∀ name ∈ first :: rest, Entry.IsName name)
    (h' : ∀ name ∈ first' :: rest', Entry.IsName name) (hlt : first < first') :
    (p.below (first :: rest)).compare (p.below (first' :: rest')) = .lt := by
  rw [compare, parts_below p h, parts_below p h', compareParts_append, List.map_cons, List.map_cons,
    compareParts, PathPart.compare_name hlt]
  rfl

theorem ne_of_compare (h : p.compare q = .lt) : p ≠ q := by
  rintro rfl
  rw [compare, compareParts_self] at h
  cases h

end Path

/-! ## Directories -/

namespace Entry

/-- Names lead from a directory down to a file. -/
inductive Holds : List (String × Entry) → List String → ByteArray → Prop where
  | here {entries : List (String × Entry)} {name : String} {content : ByteArray}
      (entry : (name, file content) ∈ entries) : Holds entries [name] content
  | inside {entries inner : List (String × Entry)} {name : String} {names : List String}
      {content : ByteArray} (entry : (name, directory inner) ∈ entries)
      (rest : Holds inner names content) : Holds entries (name :: names) content

/-- Everywhere in a directory the entries have names and stand in the order of these. -/
inductive Sorted : Entry → Prop where
  | file (content : ByteArray) : Sorted (file content)
  | directory {entries : List (String × Entry)} (names : ∀ e ∈ entries, IsName e.1)
      (order : entries.Pairwise (·.1 < ·.1)) (below : ∀ e ∈ entries, Sorted e.2) :
      Sorted (directory entries)

variable {entries : List (String × Entry)} {path : Path} {name : String}

/-- A file below the first of some entries, or below one of the others. -/
theorem holds_cons_iff {entry : Entry} {names : List String} {content : ByteArray} :
    Holds ((name, entry) :: entries) names content
      ↔ (entry = file content ∧ names = [name])
        ∨ (∃ inner more, entry = directory inner ∧ names = name :: more ∧ Holds inner more content)
        ∨ Holds entries names content := by
  constructor
  · intro h
    cases h with
    | here hmem =>
      rcases List.mem_cons.mp hmem with heq | hmem
      · obtain ⟨rfl, rfl⟩ := Prod.mk.inj heq
        exact .inl ⟨rfl, rfl⟩
      · exact .inr (.inr (.here hmem))
    | inside hmem rest =>
      rcases List.mem_cons.mp hmem with heq | hmem
      · obtain ⟨rfl, rfl⟩ := Prod.mk.inj heq
        exact .inr (.inl ⟨_, _, rfl, rfl, rest⟩)
      · exact .inr (.inr (.inside hmem rest))
  · rintro (⟨rfl, rfl⟩ | ⟨inner, more, rfl, rfl, h⟩ | h)
    · exact .here List.mem_cons_self
    · exact .inside List.mem_cons_self h
    · cases h with
      | here hmem => exact .here (List.mem_cons_of_mem _ hmem)
      | inside hmem rest => exact .inside (List.mem_cons_of_mem _ hmem) rest

theorem not_holds_nil {names : List String} {content : ByteArray} : ¬Holds [] names content := by
  intro h
  cases h with
  | here hmem => exact List.not_mem_nil hmem
  | inside hmem _ => exact List.not_mem_nil hmem

mutual

theorem mem_filesAt {file' : Path × ByteArray} : (entry : Entry) → (path : Path) →
    (file' ∈ entry.filesAt path ↔ (entry = file file'.2 ∧ file'.1 = path)
      ∨ ∃ inner names, entry = directory inner ∧ Holds inner names file'.2
        ∧ file'.1 = path.below names)
  | .file content, path => by
    obtain ⟨place, content'⟩ := file'
    rw [filesAt, List.mem_singleton]
    constructor
    · intro heq
      obtain ⟨rfl, rfl⟩ := Prod.mk.inj heq
      exact .inl ⟨rfl, rfl⟩
    · rintro (⟨heq, rfl⟩ | ⟨_, _, heq, -⟩)
      · cases heq
        rfl
      · cases heq
  | .directory inner, path => by
    rw [filesAt, mem_filesBelow inner path]
    constructor
    · rintro ⟨names, hholds, hplace⟩
      exact .inr ⟨inner, names, rfl, hholds, hplace⟩
    · rintro (⟨heq, -⟩ | ⟨_, names, heq, hholds, hplace⟩)
      · cases heq
      · cases heq
        exact ⟨names, hholds, hplace⟩

/-- Going through a directory meets exactly the files that names lead to. -/
theorem mem_filesBelow {file' : Path × ByteArray} : (entries : List (String × Entry)) →
    (path : Path) → (file' ∈ filesBelow path entries
      ↔ ∃ names, Holds entries names file'.2 ∧ file'.1 = path.below names)
  | [], path => by
    rw [filesBelow]
    exact iff_of_false List.not_mem_nil fun ⟨_, hholds, _⟩ => not_holds_nil hholds
  | (name, entry) :: rest, path => by
    rw [filesBelow, List.mem_append, mem_filesAt entry (path.join name), mem_filesBelow rest path]
    simp only [holds_cons_iff]
    constructor
    · rintro ((⟨rfl, hplace⟩ | ⟨inner, names, rfl, hholds, hplace⟩) | ⟨names, hholds, hplace⟩)
      · exact ⟨[name], .inl ⟨rfl, rfl⟩, hplace⟩
      · exact ⟨name :: names, .inr (.inl ⟨inner, names, rfl, rfl, hholds⟩), hplace⟩
      · exact ⟨names, .inr (.inr hholds), hplace⟩
    · rintro ⟨names, ⟨rfl, rfl⟩ | ⟨inner, more, rfl, rfl, hholds⟩ | hholds, hplace⟩
      · exact .inl (.inl ⟨rfl, hplace⟩)
      · exact .inl (.inr ⟨inner, more, rfl, hholds, hplace⟩)
      · exact .inr ⟨names, hholds, hplace⟩

end

theorem mem_filesIn {file' : Path × ByteArray} : file' ∈ filesIn path entries
    ↔ ∃ name, Holds entries [name] file'.2 ∧ file'.1 = path.join name := by
  obtain ⟨place, content⟩ := file'
  have hholds (name : String) : Holds entries [name] content ↔ (name, file content) ∈ entries := by
    constructor
    · intro h
      cases h with
      | here hmem => exact hmem
      | inside _ rest => cases rest
    · exact .here
  simp only [hholds, filesIn, List.mem_filterMap, Prod.exists]
  constructor
  · rintro ⟨name, entry, hmem, heq⟩
    split at heq
    · obtain ⟨rfl, rfl⟩ := Prod.mk.inj (Option.some.inj heq)
      exact ⟨name, hmem, rfl⟩
    · cases heq
  · rintro ⟨name, hmem, rfl⟩
    exact ⟨name, _, hmem, rfl⟩

/-- The files of a directory itself are met in the same order when all below it is gone through. -/
theorem filesIn_sublist (path : Path) (entries : List (String × Entry)) :
    (filesIn path entries).Sublist (filesBelow path entries) := by
  induction entries with
  | nil => exact List.nil_sublist _
  | cons first rest ih =>
    obtain ⟨name, entry⟩ := first
    rw [filesBelow]
    cases entry with
    | file content => exact ih.cons_cons _
    | directory inner => exact ih.trans (List.sublist_append_right _ _)

/-! ## The order of files -/

namespace Sorted

theorem of_mem (h : Sorted (.directory entries)) {e : String × Entry} (hmem : e ∈ entries) :
    IsName e.1 ∧ e.2.Sorted := by
  cases h with
  | directory names _ below => exact ⟨names e hmem, below e hmem⟩

theorem tail {first : String × Entry} (h : Sorted (.directory (first :: entries))) :
    (∀ e ∈ entries, first.1 < e.1) ∧ Sorted (.directory entries) := by
  cases h with
  | directory names order below =>
    obtain ⟨hfirst, hrest⟩ := List.pairwise_cons.mp order
    exact ⟨hfirst, .directory (fun e hmem => names e (List.mem_cons_of_mem _ hmem)) hrest
      fun e hmem => below e (List.mem_cons_of_mem _ hmem)⟩

/-- Files are reached through names, the first of which is that of an entry. -/
theorem names_of_holds (h : Sorted (.directory entries)) {names : List String} {content : ByteArray}
    (hholds : Holds entries names content) :
    (∀ name ∈ names, IsName name) ∧ ∃ e ∈ entries, ∃ more, names = e.1 :: more := by
  induction hholds with
  | here hmem =>
    refine ⟨fun name hname => ?_, _, hmem, [], rfl⟩
    rw [List.mem_singleton.mp hname]
    exact (h.of_mem hmem).1
  | inside hmem rest ih =>
    refine ⟨fun name hname => ?_, _, hmem, _, rfl⟩
    rcases List.mem_cons.mp hname with rfl | hname
    · exact (h.of_mem hmem).1
    · exact (ih (h.of_mem hmem).2).1 name hname

end Sorted

/-- Files below different entries are in the order of the entries. -/
theorem compare_of_mem {first : String} {entry : Entry}
    (h : Sorted (.directory ((first, entry) :: entries))) {file₁ file₂ : Path × ByteArray}
    (hfirst : file₁ ∈ entry.filesAt (path.join first))
    (hrest : file₂ ∈ filesBelow path entries) : file₁.1.compare file₂.1 = .lt := by
  obtain ⟨hlt, htail⟩ := h.tail
  -- Both places go on from the same path, and their first names are those of the entries.
  obtain ⟨names₁, hnames₁, hplace₁⟩ : ∃ names, Holds ((first, entry) :: entries) (first :: names)
      file₁.2 ∧ file₁.1 = path.below (first :: names) := by
    rcases (mem_filesAt entry _).mp hfirst with ⟨rfl, hplace⟩ | ⟨inner, names, rfl, hholds, hplace⟩
    · exact ⟨[], .here List.mem_cons_self, hplace⟩
    · exact ⟨names, .inside List.mem_cons_self hholds, hplace⟩
  obtain ⟨names₂, hnames₂, hplace₂⟩ := (mem_filesBelow entries path).mp hrest
  obtain ⟨hvalid₂, e, hmem, more, rfl⟩ := htail.names_of_holds hnames₂
  rw [hplace₁, hplace₂]
  exact Path.compare_below (h.names_of_holds hnames₁).1 hvalid₂ (hlt e hmem)

mutual

theorem pairwise_filesAt : (entry : Entry) → (path : Path) → entry.Sorted →
    (entry.filesAt path).Pairwise fun a b => a.1.compare b.1 = .lt
  | .file _, _, _ => List.pairwise_singleton _ _
  | .directory inner, path, h => pairwise_filesBelow inner path h

/-- Going through a directory meets files in the order of their paths. -/
theorem pairwise_filesBelow : (entries : List (String × Entry)) → (path : Path) →
    Sorted (.directory entries) →
    (filesBelow path entries).Pairwise fun a b => a.1.compare b.1 = .lt
  | [], path, _ => by
    rw [filesBelow]
    exact List.Pairwise.nil
  | (name, entry) :: rest, path, h => by
    rw [filesBelow, List.pairwise_append]
    exact ⟨pairwise_filesAt entry _ (h.of_mem List.mem_cons_self).2,
      pairwise_filesBelow rest path h.tail.2, fun a ha b hb => compare_of_mem h ha hb⟩

end

/-! ## Making directories -/

theorem sorted_entries {here : Option Entry} (h : ∀ e ∈ here, Sorted e) :
    Sorted (.directory ((here.map Entry.entries).getD [])) := by
  cases here with
  | none => exact .directory (by simp) .nil (by simp)
  | some e =>
    cases e with
    | file content => exact .directory (by simp [Entry.entries]) .nil (by simp [Entry.entries])
    | directory inner => exact h _ rfl

theorem Sorted.insert (h : Sorted (.directory entries)) (hname : IsName name) {e : Entry}
    (he : e.Sorted) : Sorted (.directory (Document.insertMember name e entries)) := by
  have hmem {other : String × Entry} (hother : other ∈ Document.insertMember name e entries) :
      IsName other.1 ∧ other.2.Sorted := by
    rcases Document.mem_of_mem_insertMember hother with rfl | hother
    · exact ⟨hname, he⟩
    · exact h.of_mem hother
  cases h with
  | directory names order below =>
    exact .directory (fun other hother => (hmem hother).1) (Document.pairwise_insertMember order)
      fun other hother => (hmem hother).2

/-- Whatever is put at the end of a row of names, the directories on the way stay in order. -/
theorem sorted_change {f : Option Entry → Entry}
    (hf : ∀ here : Option Entry, (∀ e ∈ here, Sorted e) → (f here).Sorted) {names : List String}
    (hnames : ∀ name ∈ names, IsName name) {here : Option Entry} (h : ∀ e ∈ here, Sorted e) :
    (change f names here).Sorted := by
  induction names generalizing here with
  | nil => exact hf here h
  | cons name rest ih =>
    have hentries := sorted_entries h
    rw [change]
    generalize (here.map Entry.entries).getD [] = entries at hentries ⊢
    refine hentries.insert (hnames name List.mem_cons_self) (ih (fun other hmem =>
      hnames other (List.mem_cons_of_mem _ hmem)) fun e he => ?_)
    exact (hentries.of_mem (Ordered.mem_of_lookup he)).2

theorem Sorted.write {e : Entry} (h : e.Sorted) {names : List String}
    (hnames : ∀ name ∈ names, IsName name) (content : ByteArray) : (e.write names content).Sorted :=
  sorted_change (fun _ _ => .file content) hnames fun _ he => Option.some.inj he ▸ h

theorem Sorted.makeDirectory {e : Entry} (h : e.Sorted) {names : List String}
    (hnames : ∀ name ∈ names, IsName name) : (e.makeDirectory names).Sorted :=
  sorted_change (fun _ hhere => sorted_entries hhere) hnames fun _ he => Option.some.inj he ▸ h

end Entry
end ChainMapping
