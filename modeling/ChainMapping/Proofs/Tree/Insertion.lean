import ChainMapping.Proofs.Ordered
import ChainMapping.Tree.Basic

/-!
# Inserting nodes

A tree names its nodes in tables: one for the first nodes and one for the children of each node.
`Tree.childTable` reads both alike, so that "below a node" and "below the root" need no case split
in what follows.

`Tree.insert` is described once, by what it does to the nodes and to the tables.  `Tree.Extends` is
the order between trees that insertion goes up in: nodes keep everything but their table of
children, and tables only get longer.
-/

namespace ChainMapping

namespace Tree

/-- The children of a node by name, or the first nodes if there is no node. -/
def childTable (t : Tree) : Option Nat → List (String × Nat)
  | none => t.firstNodes
  | some id => ((t.node? id).bind (·.children)).getD []

theorem childOf?_eq_lookup (t : Tree) (parent : Option Nat) (key : String) :
    t.childOf? parent key = (t.childTable parent).lookup key := by
  cases parent with
  | none => rfl
  | some id =>
    simp only [childOf?, childTable, Node.child?]
    cases hn : t.node? id with
    | none => rfl
    | some n => cases hc : n.children <;> simp [hc]

theorem table_of_node {t : Tree} {id : Nat} {n : Node} (h : t.node? id = some n) :
    t.childTable (some id) = n.children.getD [] := by
  simp [childTable, h]

theorem node?_lt {t : Tree} {id : Nat} {n : Node} (h : t.node? id = some n) : id < t.size := by
  have := Array.getElem?_eq_some_iff.mp h
  exact this.1

theorem node?_eq_none_of_le {t : Tree} {id : Nat} (h : t.size ≤ id) : t.node? id = none :=
  Array.getElem?_eq_none_iff.mpr h

theorem exists_node_of_lt {t : Tree} {id : Nat} (h : id < t.size) : ∃ n, t.node? id = some n :=
  ⟨t.nodes[id], Array.getElem?_eq_some_iff.mpr ⟨h, rfl⟩⟩

theorem childCount_eq_length_table {t : Tree} (p : Nat) :
    ((t.node? p).map Node.childCount).getD 0 = (t.childTable (some p)).length := by
  cases hn : t.node? p with
  | none => simp [childTable, hn]
  | some n => cases hc : n.children <;> simp [childTable, hn, Node.childCount, hc]

/-! ## What an insertion does -/

/-- A node as `insert` stores it. -/
def stored (t : Tree) (parent : Option Nat) (key : String) (node : Node) : Node :=
  { node with id := t.size, parent, token := key }

/-- A node that exists, after a child has been named below `parent`. -/
def relinked (t : Tree) (parent : Option Nat) (key : String) (id : Nat) (n : Node) : Node :=
  if parent = some id then linkChild key t.size n else n

theorem relinked_eq (t : Tree) (parent : Option Nat) (key : String) (id : Nat) (n : Node) :
    ∃ children, t.relinked parent key id n = { n with children } := by
  unfold relinked
  split
  · exact ⟨_, rfl⟩
  · exact ⟨n.children, rfl⟩

/-- All that an insertion does: it happens within the limits, appends the node, and names it in the
table of its parent. -/
structure Inserted (t : Tree) (parent : Option Nat) (key : String) (node : Node) (id : Nat)
    (t' : Tree) : Prop where
  id_eq : id = t.size
  size_lt : t.size < Limits.treeNodes
  table_lt : (t.childTable parent).length < Limits.childrenPerNode
  size_eq : t'.size = t.size + 1
  node_new : t'.node? t.size = some (t.stored parent key node)
  node_old : ∀ {other : Nat}, other < t.size →
    t'.node? other = (t.node? other).map (t.relinked parent key other)
  firstNodes_eq : t'.firstNodes =
    if parent = none then Ordered.put key t.size t.firstNodes else t.firstNodes
  side_eq : t'.side = t.side
  rootType_eq : t'.rootType = t.rootType
  overrides_eq : t'.overrides = t.overrides

/-- An insertion that succeeds does what `Inserted` says. -/
theorem inserted_of_insert {t t' : Tree} {parent : Option Nat} {key : String} {node : Node}
    {id : Nat} (h : t.insert parent key node = .ok (id, t')) :
    t.Inserted parent key node id t' := by
  unfold insert at h
  simp only at h
  split at h
  next => simp at h
  next hsize =>
    have hsize' : t.size < Limits.treeNodes := Nat.lt_of_not_le hsize
    cases parent with
    | some p =>
      simp only [childCount_eq_length_table] at h
      split at h
      next => simp at h
      next hfull =>
        simp only [Except.ok.injEq, Prod.mk.injEq] at h
        obtain ⟨rfl, rfl⟩ := h
        refine ⟨rfl, hsize', Nat.lt_of_not_le hfull, by simp [size], ?_, ?_, by simp, rfl, rfl, rfl⟩
        · simp only [node?, size, Array.getElem?_push, Array.size_modify, if_true]
          rfl
        · intro other hother
          have hne : other ≠ t.nodes.size := Nat.ne_of_lt hother
          simp only [node?, Array.getElem?_push, Array.size_modify, hne, if_false,
            Array.getElem?_modify]
          by_cases hp : p = other
          · subst hp
            rw [if_pos rfl]
            congr 1
            funext n
            simp [relinked, size]
          · have hid : t.relinked (some p) key other = id := by funext n; simp [relinked, hp]
            rw [if_neg hp, hid, Option.map_id, id]
    | none =>
      simp only at h
      split at h
      next => simp at h
      next hfull =>
        simp only [Except.ok.injEq, Prod.mk.injEq] at h
        obtain ⟨rfl, rfl⟩ := h
        refine ⟨rfl, hsize', Nat.lt_of_not_le hfull, by simp [size], ?_, ?_, by simp [size], rfl,
          rfl, rfl⟩
        · simp only [node?, size, Array.getElem?_push, if_true]
          rfl
        · intro other hother
          have hne : other ≠ t.nodes.size := Nat.ne_of_lt hother
          have hid : t.relinked none key other = id := by funext n; simp [relinked]
          simp only [node?, Array.getElem?_push, hne, if_false]
          rw [hid, Option.map_id, id]

namespace Inserted

variable {t t' : Tree} {parent : Option Nat} {key : String} {node : Node} {id : Nat}

theorem node_new_id (h : t.Inserted parent key node id t') :
    t'.node? id = some (t.stored parent key node) := h.id_eq ▸ h.node_new

/-- A node of the tree is an old one, perhaps with one more child, or the new one. -/
theorem node_cases (h : t.Inserted parent key node id t') {other : Nat} {n : Node}
    (hn : t'.node? other = some n) :
    (∃ old, t.node? other = some old ∧ n = t.relinked parent key other old)
      ∨ (other = t.size ∧ n = t.stored parent key node) := by
  have hlt : other < t.size + 1 := h.size_eq ▸ node?_lt hn
  by_cases hold : other < t.size
  · rw [h.node_old hold] at hn
    obtain ⟨old, hget, hmap⟩ := Option.map_eq_some_iff.mp hn
    exact .inl ⟨old, hget, hmap.symm⟩
  · have heq : other = t.size := by omega
    subst heq
    rw [h.node_new] at hn
    exact .inr ⟨rfl, (Option.some.inj hn).symm⟩

theorem node_kept (h : t.Inserted parent key node id t') {other : Nat} {n : Node}
    (hn : t.node? other = some n) : t'.node? other = some (t.relinked parent key other n) := by
  rw [h.node_old (node?_lt hn), hn, Option.map_some]

/-- The table of the parent gets the new node at its end, and the other tables stay. -/
theorem table_eq (h : t.Inserted parent key node id t') (hfresh : t.childOf? parent key = none)
    (hparent : ∀ p, parent = some p → p < t.size) {other : Option Nat}
    (hother : other ≠ some t.size) :
    t'.childTable other
      = t.childTable other ++ if parent = other then [(key, t.size)] else [] := by
  rw [childOf?_eq_lookup] at hfresh
  cases other with
  | none =>
    simp only [childTable, h.firstNodes_eq]
    by_cases hp : parent = none
    · subst hp
      rw [if_pos rfl, if_pos rfl]
      exact Ordered.put_of_lookup_eq_none hfresh
    · simp [hp]
  | some q =>
    by_cases hq : q < t.size
    · obtain ⟨n, hn⟩ := exists_node_of_lt hq
      rw [table_of_node hn, table_of_node (h.node_kept hn)]
      by_cases hp : parent = some q
      · subst hp
        rw [table_of_node hn] at hfresh
        simp [relinked, linkChild, Ordered.put_of_lookup_eq_none hfresh]
      · simp [relinked, hp]
    · have hle : t.size ≤ q := Nat.le_of_not_lt hq
      have hq' : q ≠ t.size := fun he => hother (he ▸ rfl)
      have hgone : t'.node? q = none := node?_eq_none_of_le (by rw [h.size_eq]; omega)
      have hp : parent ≠ some q := fun he => hq (hparent q he)
      simp [childTable, hgone, node?_eq_none_of_le hle, hp]

theorem table_new (h : t.Inserted parent key node id t') :
    t'.childTable (some t.size) = node.children.getD [] := by
  rw [table_of_node h.node_new]
  rfl

end Inserted

/-! ## Trees that grew -/

/-- A tree that another one grew into: no node was lost or changed but for its table of children,
and every table kept its entries in place. -/
structure Extends (t t' : Tree) : Prop where
  node : ∀ {id : Nat} {n : Node}, t.node? id = some n →
    ∃ children, t'.node? id = some { n with children }
  table : ∀ parent, t.childTable parent <+: t'.childTable parent
  side_eq : t'.side = t.side
  rootType_eq : t'.rootType = t.rootType
  overrides_eq : t'.overrides = t.overrides

namespace Extends

variable {t t' t'' : Tree}

theorem refl (t : Tree) : t.Extends t :=
  ⟨fun {_ n} h => ⟨n.children, h⟩, fun _ => List.prefix_refl _, rfl, rfl, rfl⟩

theorem trans (h : t.Extends t') (h' : t'.Extends t'') : t.Extends t'' where
  node hn := by
    obtain ⟨children, hn'⟩ := h.node hn
    obtain ⟨children', hn''⟩ := h'.node hn'
    exact ⟨children', hn''⟩
  table parent := (h.table parent).trans (h'.table parent)
  side_eq := h'.side_eq.trans h.side_eq
  rootType_eq := h'.rootType_eq.trans h.rootType_eq
  overrides_eq := h'.overrides_eq.trans h.overrides_eq

theorem childOf? (h : t.Extends t') {parent : Option Nat} {key : String} {id : Nat}
    (hc : t.childOf? parent key = some id) : t'.childOf? parent key = some id := by
  rw [childOf?_eq_lookup] at hc ⊢
  obtain ⟨more, hmore⟩ := h.table parent
  rw [← hmore]
  exact Ordered.lookup_append_of_some hc

end Extends

/-- An insertion under a new name makes the tree grow. -/
theorem Inserted.extends {t t' : Tree} {parent : Option Nat} {key : String} {node : Node} {id : Nat}
    (h : t.Inserted parent key node id t') (hfresh : t.childOf? parent key = none)
    (hparent : ∀ p, parent = some p → p < t.size) : t.Extends t' where
  node {other n} hn := by
    rw [h.node_kept hn]
    obtain ⟨children, heq⟩ := relinked_eq t parent key other n
    exact ⟨children, heq ▸ rfl⟩
  table other := by
    by_cases hother : other = some t.size
    · have hempty : t.childTable other = [] := by
        simp [hother, childTable, node?_eq_none_of_le (Nat.le_refl t.size)]
      rw [hempty]
      exact List.nil_prefix
    · rw [h.table_eq hfresh hparent hother]
      exact List.prefix_append ..
  side_eq := h.side_eq
  rootType_eq := h.rootType_eq
  overrides_eq := h.overrides_eq

end Tree
end ChainMapping
