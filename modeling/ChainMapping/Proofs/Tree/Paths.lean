import ChainMapping.Proofs.Text.Separator
import ChainMapping.Proofs.Tree.WellFormed

/-!
# Paths

The path of a node says where it is: no two nodes have the same one.  Read from its end, a path
tells whether the node is a member, which one it is, or what its name is, and leaves the path of the
parent.
-/

namespace ChainMapping

namespace Tree

open Chain (IsName)

variable {t : Tree}

/-- The last character of a path. -/
def lastChar? (path : String) : Option Char := path.toList.getLast?

theorem lastChar?_name (before : String) {name : String} (h : IsName name) :
    ∃ c, lastChar? (before ++ name) = some c ∧ Chain.isNameChar c = true := by
  obtain ⟨c, hc⟩ : ∃ c, name.toList.getLast? = some c := by
    cases hlast : name.toList.getLast? with
    | none => exact absurd (List.getLast?_eq_none_iff.mp hlast) h.nonempty
    | some c => exact ⟨c, rfl⟩
  refine ⟨c, ?_, h.chars c (List.mem_of_getLast? hc)⟩
  rw [lastChar?, String.toList_append, List.getLast?_append, hc]
  rfl

theorem lastChar?_member (before : String) {d : Descriptor} (h : d.isMember = true) :
    ∃ c, lastChar? (before ++ d.pathSuffix) = some c ∧ Chain.isNameChar c = false := by
  cases d <;> simp [Descriptor.isMember] at h
  · exact ⟨'>', by simp [lastChar?, Descriptor.pathSuffix, MapSide.marker], by decide⟩
  · exact ⟨'>', by simp [lastChar?, Descriptor.pathSuffix, MapSide.marker], by decide⟩
  · exact ⟨']', by simp [lastChar?, Descriptor.pathSuffix], by decide⟩

/-- The path of a field never is the path of a member. -/
theorem path_ne_of_role (before before' : String) {name : String} {d : Descriptor}
    (hname : IsName name) (hd : d.isMember = true) : before ++ name ≠ before' ++ d.pathSuffix := by
  intro heq
  obtain ⟨c, hc, hchar⟩ := lastChar?_name before hname
  obtain ⟨c', hc', hchar'⟩ := lastChar?_member before' hd
  rw [heq, hc'] at hc
  rw [Option.some.inj hc, hchar] at hchar'
  exact absurd hchar' (by simp)

theorem name_ne_member {before name : String} {d : Descriptor} (hname : IsName name)
    (hd : d.isMember = true) : name ≠ before ++ d.pathSuffix := by
  have h := path_ne_of_role "" before hname hd
  rwa [String.empty_append] at h

/-- The path of a field tells its name from the path above. -/
theorem path_below_inj {up up' name name' : String} (h : IsName name) (h' : IsName name')
    (heq : up ++ "." ++ name = up' ++ "." ++ name') : up = up' ∧ name = name' := by
  have hlist := congrArg String.toList heq
  simp only [String.toList_append, List.append_assoc] at hlist
  obtain ⟨hup, hnames⟩ := Text.append_mark_inj_right (h.notMem (by decide))
    (h'.notMem (by decide)) hlist
  exact ⟨String.toList_inj.mp hup, String.toList_inj.mp hnames⟩

theorem path_ne_name {up name name' : String} (h : IsName name) :
    name ≠ up ++ "." ++ name' := by
  intro heq
  have hlist := congrArg String.toList heq
  simp only [String.toList_append, List.append_assoc] at hlist
  have hdot : '.' ∉ name.toList := h.notMem (by decide)
  exact hdot (hlist ▸ (by simp : '.' ∈ _))

/-- The path of a member tells which member it is. -/
theorem path_member_inj {up up' : String} {d d' : Descriptor} (h : d.isMember = true)
    (h' : d'.isMember = true) (heq : up ++ d.pathSuffix = up' ++ d'.pathSuffix) :
    up = up' ∧ d = d' := by
  have hlist := congrArg String.toList heq
  rw [String.toList_append, String.toList_append] at hlist
  have hlength : d.pathSuffix.toList.length = d'.pathSuffix.toList.length := by
    cases d <;> simp [Descriptor.isMember] at h <;> cases d' <;>
      simp [Descriptor.isMember] at h' <;> simp [Descriptor.pathSuffix, MapSide.marker]
  obtain ⟨hup, hsuffix⟩ := List.append_inj' hlist hlength
  refine ⟨String.toList_inj.mp hup, ?_⟩
  cases d <;> simp [Descriptor.isMember] at h <;> cases d' <;>
    simp [Descriptor.isMember] at h' <;>
    simp [Descriptor.pathSuffix, MapSide.marker] at hsuffix ⊢

theorem WellFormed.member_inj (h : t.WellFormed) {p a b : Nat} {up m n : Node}
    (hup : t.node? p = some up) (hcontainer : up.isContainer = true) (hm : t.node? a = some m)
    (hn : t.node? b = some n) (hmp : m.parent = some p) (hnp : n.parent = some p)
    (hrole : m.descriptor = n.descriptor) : a = b := by
  have hma : (m.token, a) ∈ t.childTable (some p) := h.mem_table.mpr ⟨m, hm, hmp, rfl⟩
  have hnb : (n.token, b) ∈ t.childTable (some p) := h.mem_table.mpr ⟨n, hn, hnp, rfl⟩
  rw [table_of_node hup] at hma hnb
  cases hmap : up.descriptor.isMap with
  | true =>
    obtain ⟨key, value, hchildren, hkey, hvalue⟩ := (h.members hup).map hmap
    rw [hchildren] at hma hnb
    simp only [Option.getD_some, List.mem_cons, Prod.mk.injEq, List.not_mem_nil, or_false]
      at hma hnb
    -- One is the key and the other the value only if they have different roles.
    rcases hma with ⟨-, rfl⟩ | ⟨-, rfl⟩ <;> rcases hnb with ⟨-, rfl⟩ | ⟨-, rfl⟩
    · rfl
    · simp [role?, hm, hn, hrole] at hkey hvalue
      simp [hkey] at hvalue
    · simp [role?, hm, hn, hrole] at hkey hvalue
      simp [hkey] at hvalue
    · rfl
  | false =>
    have hcollection : up.descriptor.isCollection = true := by
      simpa [Node.isContainer, Descriptor.isContainer, hmap] using hcontainer
    obtain ⟨member, hchildren, -⟩ := (h.members hup).collection hcollection
    rw [hchildren] at hma hnb
    simp only [Option.getD_some, List.mem_singleton, Prod.mk.injEq] at hma hnb
    rw [hma.2, hnb.2]

/-- Different nodes have different paths. -/
theorem WellFormed.path_inj (h : t.WellFormed) {a b : Nat} {m n : Node} (hm : t.node? a = some m)
    (hn : t.node? b = some n) (hpath : m.path = n.path) : a = b := by
  -- A parent has a smaller id, so the claim is known for the parents.
  induction a using Nat.strongRecOn generalizing b m n with
  | ind a ih =>
    have hchild {q : Option Nat} {key : String} (hmq : m.parent = q) (hnq : n.parent = q)
        (hmk : m.token = key) (hnk : n.token = key) : a = b := by
      have hma := h.childOf?_eq_some_iff.mpr ⟨m, hm, hmq, hmk⟩
      have hnb := h.childOf?_eq_some_iff.mpr ⟨n, hn, hnq, hnk⟩
      rw [hma] at hnb
      exact Option.some.inj hnb
    cases h.placed hm with
    | first parent _ _ _ path name =>
      rw [path] at hpath
      cases h.placed hn with
      | first parent' _ _ _ path' _ => exact hchild parent parent' (hpath.trans path') rfl
      | below _ _ _ _ _ _ path' _ => exact absurd (hpath.trans path') (path_ne_name name)
      | member _ _ _ _ role' _ path' =>
        exact absurd (hpath.trans path') (name_ne_member name role')
    | below parent node _ _ _ _ path name =>
      rw [path] at hpath
      cases h.placed hn with
      | first _ _ _ _ path' name' => exact absurd (hpath.trans path').symm (path_ne_name name')
      | below parent' node' _ _ _ _ path' name' =>
        obtain ⟨hup, htoken⟩ := path_below_inj name name' (hpath.trans path')
        have hsame := ih _ (h.parent_lt hm parent) node node' hup
        exact hchild parent (hsame ▸ parent') htoken rfl
      | member _ _ _ _ role' _ path' =>
        exact absurd (hpath.trans path') (path_ne_of_role _ _ name role')
    | member parent node container _ role _ path =>
      rw [path] at hpath
      cases h.placed hn with
      | first _ _ _ _ path' name' =>
        exact absurd (hpath.trans path').symm (name_ne_member name' role)
      | below _ _ _ _ _ _ path' name' =>
        exact absurd (hpath.trans path').symm (path_ne_of_role _ _ name' role)
      | member parent' node' _ _ role' _ path' =>
        obtain ⟨hup, hrole⟩ := path_member_inj role role' (hpath.trans path')
        have hsame := ih _ (h.parent_lt hm parent) node node' hup
        exact h.member_inj node container hm hn parent (hsame ▸ parent') hrole

theorem WellFormed.findByPath? (h : t.WellFormed) {id : Nat} {n : Node} (hn : t.node? id = some n) :
    t.findByPath? n.path = some id := by
  unfold Tree.findByPath?
  cases hfind : t.nodes.find? (·.path == n.path) with
  | none =>
    have hmem : n ∈ t.nodes := Array.mem_of_getElem? hn
    simpa using Array.find?_eq_none.mp hfind n hmem
  | some m =>
    have hpath : m.path = n.path := by simpa using Array.find?_some hfind
    obtain ⟨other, hother⟩ := Array.mem_iff_getElem?.mp (Array.mem_of_find?_eq_some hfind)
    have hid := h.path_inj hother hn hpath
    rw [Option.map_some, h.id_eq hother, hid]

end Tree
end ChainMapping
