import ChainMapping.Proofs.Tree.WellFormed

/-!
# Taking insertions back

`Tree.rollback` forgets the nodes from a mark on.  It looks at the tree alone and knows nothing of
what was inserted, so that it restores the tree at the mark rests on two facts: the tree had no
table that rollback would tidy away, and nothing that was in a table has been replaced since.
-/

namespace ChainMapping
namespace Tree

/-- The part of a tree below a mark, whether or not there is something above it. -/
def cut (t : Tree) (mark : Nat) : Tree :=
  { t with
    nodes := (t.nodes.take mark).map (unlinkFrom mark)
    firstNodes := t.firstNodes.filter (·.2 < mark) }

theorem rollback_of_lt {t : Tree} {mark : Nat} (h : mark < t.size) : t.rollback mark = t.cut mark :=
  if_neg (Nat.not_le_of_lt h)

theorem rollback_of_le {t : Tree} {mark : Nat} (h : t.size ≤ mark) : t.rollback mark = t :=
  if_pos h

theorem node?_cut (t : Tree) (mark id : Nat) :
    (t.cut mark).node? id = if id < mark then (t.node? id).map (unlinkFrom mark) else none := by
  simp only [node?, cut, Array.getElem?_map, Array.take_eq_extract, Array.getElem?_extract]
  by_cases h : id < mark
  · by_cases hsize : id < t.nodes.size
    · have hmin : id < min mark t.nodes.size := by omega
      simp [h, hmin]
    · simp [h, hsize]
  · have hmin : ¬ id < min mark t.nodes.size := by omega
    simp [h, hmin]

/-- Trees are equal when they agree node by node and on everything outside the nodes. -/
theorem ext_node {t t' : Tree} (hnodes : ∀ id, t.node? id = t'.node? id)
    (hfirst : t.firstNodes = t'.firstNodes) (hside : t.side = t'.side)
    (hroot : t.rootType = t'.rootType) (hoverrides : t.overrides = t'.overrides) : t = t' := by
  have harray : t.nodes = t'.nodes := Array.ext_getElem? fun id => hnodes id
  cases t
  cases t'
  simp_all

theorem unlinkFrom_eq_self {mark : Nat} {n : Node}
    (hbelow : ∀ entry ∈ n.children.getD [], entry.2 < mark)
    (hplain : n.isContainer = false → n.children ≠ some []) : unlinkFrom mark n = n := by
  unfold unlinkFrom
  cases hc : n.children with
  | none => rfl
  | some children =>
    have hkept : children.filter (·.2 < mark) = children := by
      refine List.filter_eq_self.mpr fun entry hentry => ?_
      exact decide_eq_true (hbelow entry (by rw [hc]; exact hentry))
    simp only [hkept]
    by_cases hempty : children = []
    · cases hcontainer : n.isContainer with
      | true => simp [← hc]
      | false => exact absurd (by rw [hc, hempty]) (hplain hcontainer)
    · have hnot : children.isEmpty = false := by simpa using hempty
      simp [hnot, ← hc]

/-- Unlinking undoes naming a child above the mark. -/
theorem unlinkFrom_linkChild {mark id : Nat} {key : String} {n : Node} (hid : mark ≤ id)
    (hfresh : n.child? key = none) (htable : n.isContainer = true → n.children ≠ none) :
    unlinkFrom mark (linkChild key id n) = unlinkFrom mark n := by
  have hlookup : (n.children.getD []).lookup key = none := by
    cases hc : n.children with
    | none => rfl
    | some children => simpa [Node.child?, hc] using hfresh
  have hnot : decide (id < mark) = false := by simpa using hid
  unfold unlinkFrom linkChild
  rw [Ordered.put_of_lookup_eq_none hlookup]
  cases hc : n.children with
  | none =>
    have hplain : n.isContainer = false := by
      cases hcontainer : n.isContainer with
      | true => exact absurd hc (htable hcontainer)
      | false => rfl
    have hplain' : n.descriptor.isContainer = false := hplain
    simp only [Option.getD_none, List.nil_append, List.filter_cons, hnot, List.filter_nil,
      Node.isContainer, hplain']
    simp [← hc]
  | some children =>
    have hkept : (children ++ [(key, id)]).filter (·.2 < mark)
        = children.filter (·.2 < mark) := by
      simp [List.filter_append, hnot]
    simp only [Option.getD_some, hkept, Node.isContainer]
    rfl

/-- Nothing is above the end of a sound tree, so nothing is cut away there. -/
theorem Sound.cut_size {t : Tree} (h : t.Sound) : t.cut t.size = t := by
  refine ext_node (fun id => ?_) ?_ rfl rfl rfl
  · rw [node?_cut]
    by_cases hid : id < t.size
    · obtain ⟨n, hn⟩ := exists_node_of_lt hid
      rw [if_pos hid, hn, Option.map_some]
      refine congrArg some (unlinkFrom_eq_self ?_ (h.plain_children hn))
      rintro ⟨key, child⟩ hentry
      rw [← table_of_node hn] at hentry
      exact h.lt_of_mem_table hentry
    · rw [if_neg hid, node?_eq_none_of_le (Nat.le_of_not_lt hid)]
  · refine List.filter_eq_self.mpr ?_
    rintro ⟨key, child⟩ hentry
    have hmem : (key, child) ∈ t.childTable none := hentry
    exact decide_eq_true (h.lt_of_mem_table hmem)

/-- An insertion above a mark does not show below it. -/
theorem Sound.cut_insert {t t' : Tree} {parent : Option Nat} {key : String} {node : Node}
    {id mark : Nat} (h : t.Sound) (hi : t.Inserted parent key node id t')
    (hfresh : t.childOf? parent key = none) (hmark : mark ≤ t.size) :
    t'.cut mark = t.cut mark := by
  refine ext_node (fun other => ?_) ?_ hi.side_eq hi.rootType_eq hi.overrides_eq
  · rw [node?_cut, node?_cut]
    by_cases hother : other < mark
    · obtain ⟨n, hn⟩ := exists_node_of_lt (Nat.lt_of_lt_of_le hother hmark)
      rw [if_pos hother, if_pos hother, hi.node_kept hn, hn, Option.map_some, Option.map_some]
      refine congrArg some ?_
      unfold relinked
      split
      next hp =>
        subst hp
        refine unlinkFrom_linkChild hmark ?_ (h.container_children hn)
        rw [childOf?, hn, Option.bind_some] at hfresh
        exact hfresh
      next => rfl
    · rw [if_neg hother, if_neg hother]
  · show t'.firstNodes.filter _ = t.firstNodes.filter _
    rw [hi.firstNodes_eq]
    by_cases hp : parent = none
    · subst hp
      have hnot : decide (t.size < mark) = false := by simpa using hmark
      rw [if_pos rfl, Ordered.put_of_lookup_eq_none hfresh, List.filter_append]
      simp [hnot]
    · rw [if_neg hp]

/-- From a later tree, the work since an earlier one can be taken back. -/
def Restores (t₀ t : Tree) : Prop := t.rollback t₀.size = t₀

theorem Restores.refl (t : Tree) : t.Restores t := rollback_of_le (Nat.le_refl _)

/-- One more insertion can still be taken back. -/
theorem Restores.insert {t₀ t t' : Tree} {parent : Option Nat} {key : String} {node : Node}
    {id : Nat} (hr : t₀.Restores t) (h₀ : t₀.Sound) (h : t.Sound)
    (hi : t.Inserted parent key node id t') (hfresh : t.childOf? parent key = none) :
    t₀.Restores t' := by
  have hlt := hi.size_eq
  by_cases hmark : t₀.size < t.size
  · have hcut : t.cut t₀.size = t₀ := (rollback_of_lt hmark).symm.trans hr
    rw [Restores, rollback_of_lt (by omega), h.cut_insert hi hfresh (Nat.le_of_lt hmark), hcut]
  · -- Nothing has been inserted before.
    have hsame : t = t₀ := (rollback_of_le (Nat.le_of_not_lt hmark)).symm.trans hr
    subst hsame
    rw [Restores, rollback_of_lt (by omega), h.cut_insert hi hfresh (Nat.le_refl _), h₀.cut_size]

end Tree
end ChainMapping
