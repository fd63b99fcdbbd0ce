import Mathlib.Data.List.Nodup
import ChainMapping.Proofs.Tree.Histories
import ChainMapping.Proofs.Tree.Paths

/-!
# What a tree looks like

The shape of a tree as its readers rely on it, drawn from `Tree.WellFormed`: where a node is linked,
what stands below a container, how far down a node is and that its path finds it.  Every tree has
this shape, whatever was done to it since it was empty.
-/

namespace ChainMapping
namespace Tree

variable {t : Tree}

/-- The ids strictly above a node, its parent first. -/
def above (t : Tree) (id : Nat) : List Nat := (t.ancestors id).tail

/-- Whether a node is there and is made for a segment, not as a member. -/
def isFieldNode (t : Tree) (id : Nat) : Bool :=
  ((t.node? id).map fun n => !n.descriptor.isMember).getD false

/-- The shape of a tree. -/
structure Representation (t : Tree) : Prop where
  id_eq : ∀ {id : Nat} {n : Node}, t.node? id = some n → n.id = id
  /-- a node stands once in the tables, below its parent and under its token -/
  linked_once : ∀ {id : Nat} {n : Node}, t.node? id = some n →
    ∀ (parent : Option Nat) (key : String),
      (t.childTable parent).count (key, id) = if n.parent = parent ∧ n.token = key then 1 else 0
  /-- nothing but nodes stands in the tables -/
  links_lead : ∀ {parent : Option Nat} {entry : String × Nat}, entry ∈ t.childTable parent →
    ∃ n, t.node? entry.2 = some n
  parent_lt : ∀ {id p : Nat} {n : Node}, t.node? id = some n → n.parent = some p → p < id
  /-- the way up goes from parent to parent -/
  ancestors_eq : ∀ {id : Nat} {n : Node}, t.node? id = some n →
    t.ancestors id = id :: (n.parent.map t.ancestors).getD []
  ancestors_end : ∀ {id : Nat} {n : Node}, t.node? id = some n →
    ∃ top first, (t.ancestors id).getLast? = some top ∧ t.node? top = some first
      ∧ first.parent = none ∧ t.firstNode? first.token = some top
  map_children : ∀ {id : Nat} {n : Node}, t.node? id = some n → n.descriptor = .map →
    ∃ key value, n.children = some [("<K>" ++ n.field.name, key), ("<V>" ++ n.field.name, value)]
      ∧ t.role? key = some .mapKey ∧ t.role? value = some .mapValue
  collection_children : ∀ {id : Nat} {n : Node}, t.node? id = some n →
    n.descriptor ∈ [Descriptor.list, .set, .queue, .array] →
    ∃ member, n.children = some [(n.field.name, member)]
      ∧ t.role? member = some .collectionMember
  /-- members stand below a container of their kind only -/
  members_below : ∀ {id : Nat} {n : Node}, t.node? id = some n → n.descriptor.isMember = true →
    ∃ p up, n.parent = some p ∧ t.node? p = some up
      ∧ (up.descriptor.isMap = true ∧ n.descriptor ∈ [Descriptor.mapKey, .mapValue]
        ∨ up.descriptor.isCollection = true ∧ n.descriptor = .collectionMember)
  plain_children : ∀ {id : Nat} {n : Node}, t.node? id = some n → n.isContainer = false →
    n.children ≠ some []
  tokenIndex_field : ∀ {id : Nat} {n : Node}, t.node? id = some n → n.descriptor.isMember = false →
    n.tokenIndex = (t.above id).countP t.isFieldNode
  tokenIndex_member : ∀ {id p : Nat} {n up : Node}, t.node? id = some n →
    n.descriptor.isMember = true → n.parent = some p → t.node? p = some up →
    n.tokenIndex = up.tokenIndex
  path_inj : ∀ {id other : Nat} {n m : Node}, t.node? id = some n → t.node? other = some m →
    n.path = m.path → id = other
  findByPath : ∀ {id : Nat} {n : Node}, t.node? id = some n → t.findByPath? n.path = some id
  size_le : t.size ≤ 10000
  first_le : t.firstNodes.length ≤ 512
  children_le : ∀ {id : Nat} {n : Node}, t.node? id = some n → n.childCount ≤ 512

/-! ## Links -/

theorem Sound.count_table (h : t.Sound) {id : Nat} {n : Node} (hn : t.node? id = some n)
    (parent : Option Nat) (key : String) :
    (t.childTable parent).count (key, id) = if n.parent = parent ∧ n.token = key then 1 else 0 := by
  have hmem : (key, id) ∈ t.childTable parent ↔ n.parent = parent ∧ n.token = key := by
    rw [h.mem_table]
    constructor
    · intro hcase
      obtain ⟨m, hm, hplace⟩ := hcase
      rw [hn, Option.some.injEq] at hm
      exact hm ▸ hplace
    · exact fun hplace => ⟨n, hn, hplace⟩
  by_cases hplace : n.parent = parent ∧ n.token = key
  · rw [if_pos hplace]
    have hnodup : (t.childTable parent).Nodup := List.Nodup.of_map Prod.fst (h.keys_nodup parent)
    exact List.count_eq_one_of_mem hnodup (hmem.mpr hplace)
  · rw [if_neg hplace, List.count_eq_zero]
    exact fun hin => hplace (hmem.mp hin)

/-! ## The way up -/

/-- More steps than there are ids below do not lead further up. -/
theorem Sound.go_eq (h : t.Sound) {steps steps' id : Nat} (hlt : id < steps) (hlt' : id < steps') :
    ancestors.go t steps id = ancestors.go t steps' id := by
  induction steps generalizing steps' id with
  | zero => omega
  | succ steps ih =>
    cases steps' with
    | zero => omega
    | succ steps' =>
      simp only [ancestors.go, List.cons.injEq, true_and]
      cases hup : (t.node? id).bind (·.parent) with
      | none => rfl
      | some p =>
        obtain ⟨n, hn, hparent⟩ := Option.bind_eq_some_iff.mp hup
        have hp := h.parent_lt hn hparent
        exact ih (by omega) (by omega)

theorem Sound.ancestors_eq (h : t.Sound) {id : Nat} {n : Node} (hn : t.node? id = some n) :
    t.ancestors id = id :: (n.parent.map t.ancestors).getD [] := by
  rw [ancestors, ancestors.go, hn, Option.bind_some]
  cases hup : n.parent with
  | none => rfl
  | some p =>
    have hp := h.parent_lt hn hup
    show id :: ancestors.go t id p = id :: ancestors.go t (p + 1) p
    rw [h.go_eq hp (Nat.lt_succ_self p)]

theorem Sound.ancestors_ne_nil (h : t.Sound) {id : Nat} {n : Node} (hn : t.node? id = some n) :
    t.ancestors id ≠ [] := by
  rw [h.ancestors_eq hn]
  exact List.cons_ne_nil _ _

theorem Sound.node_of_parent (h : t.Sound) {id p : Nat} {n : Node} (hn : t.node? id = some n)
    (hup : n.parent = some p) : ∃ up, t.node? p = some up :=
  exists_node_of_lt (Nat.lt_trans (h.parent_lt hn hup) (node?_lt hn))

theorem Sound.ancestors_end (h : t.Sound) {id : Nat} {n : Node} (hn : t.node? id = some n) :
    ∃ top first, (t.ancestors id).getLast? = some top ∧ t.node? top = some first
      ∧ first.parent = none ∧ t.firstNode? first.token = some top := by
  induction id using Nat.strongRecOn generalizing n with
  | ind id ih =>
    rw [h.ancestors_eq hn]
    cases hup : n.parent with
    | none =>
      have hfirst : t.childOf? none n.token = some id :=
        h.childOf?_eq_some_iff.mpr ⟨n, hn, hup, rfl⟩
      exact ⟨id, n, rfl, hn, hup, hfirst⟩
    | some p =>
      obtain ⟨up, hnode⟩ := h.node_of_parent hn hup
      obtain ⟨top, first, hlast, hrest⟩ := ih p (h.parent_lt hn hup) hnode
      refine ⟨top, first, ?_, hrest⟩
      rw [Option.map_some, Option.getD_some,
        List.getLast?_cons_of_ne_nil (h.ancestors_ne_nil hnode)]
      exact hlast

theorem isFieldNode_of_node {id : Nat} {n : Node} (hn : t.node? id = some n) :
    t.isFieldNode id = !n.descriptor.isMember := by
  rw [isFieldNode, hn]
  rfl

/-- From the root down to a node and with it, there is one field more than the index says; a member
does not count and has the index of its container. -/
theorem Sound.countP_ancestors (h : t.Sound) {id : Nat} {n : Node} (hn : t.node? id = some n) :
    (t.ancestors id).countP t.isFieldNode = n.tokenIndex + 1 := by
  induction id using Nat.strongRecOn generalizing n with
  | ind id ih =>
    rw [h.ancestors_eq hn, List.countP_cons, isFieldNode_of_node hn]
    cases h.placed hn with
    | first parent _ role index => simp [parent, role, index]
    | below parent node _ _ role index =>
      have hup := ih _ (h.parent_lt hn parent) node
      simp [parent, role, index, hup]
    | member parent node container _ role index =>
      have hup := ih _ (h.parent_lt hn parent) node
      simp [parent, role, index, hup]

theorem Sound.tokenIndex_eq_countP (h : t.Sound) {id : Nat} {n : Node} (hn : t.node? id = some n)
    (hfield : n.descriptor.isMember = false) :
    n.tokenIndex = (t.above id).countP t.isFieldNode := by
  have hcount := h.countP_ancestors hn
  rw [h.ancestors_eq hn, List.countP_cons, isFieldNode_of_node hn, hfield] at hcount
  rw [above, h.ancestors_eq hn, List.tail_cons]
  simp at hcount
  exact hcount.symm

/-! ## Members -/

/-- What stands below a container is one of its members. -/
theorem WellFormed.members_below (h : t.WellFormed) {id : Nat} {n : Node}
    (hn : t.node? id = some n) (hmember : n.descriptor.isMember = true) :
    ∃ p up, n.parent = some p ∧ t.node? p = some up
      ∧ (up.descriptor.isMap = true ∧ n.descriptor ∈ [Descriptor.mapKey, .mapValue]
        ∨ up.descriptor.isCollection = true ∧ n.descriptor = .collectionMember) := by
  cases h.placed hn with
  | first _ _ role => simp [role] at hmember
  | below _ _ _ _ role => simp [role] at hmember
  | @member p up parent node container =>
    refine ⟨p, up, parent, node, ?_⟩
    have hentry : (n.token, id) ∈ t.childTable (some p) := h.mem_table.mpr ⟨n, hn, parent, rfl⟩
    rw [table_of_node node] at hentry
    cases hmap : up.descriptor.isMap with
    | true =>
      obtain ⟨key, value, hchildren, hkey, hvalue⟩ := (h.members node).map hmap
      rw [hchildren] at hentry
      simp only [Option.getD_some, List.mem_cons, Prod.mk.injEq, List.not_mem_nil, or_false]
        at hentry
      refine .inl ⟨rfl, ?_⟩
      rcases hentry with ⟨-, rfl⟩ | ⟨-, rfl⟩
      · have hrole : n.descriptor = .mapKey := by simpa [role?, hn] using hkey
        simp [hrole]
      · have hrole : n.descriptor = .mapValue := by simpa [role?, hn] using hvalue
        simp [hrole]
    | false =>
      have hcollection : up.descriptor.isCollection = true := by
        simpa [Node.isContainer, Descriptor.isContainer, hmap] using container
      obtain ⟨member, hchildren, hrole⟩ := (h.members node).collection hcollection
      rw [hchildren] at hentry
      simp only [Option.getD_some, List.mem_singleton, Prod.mk.injEq] at hentry
      obtain ⟨-, rfl⟩ := hentry
      exact .inr ⟨hcollection, by simpa [role?, hn] using hrole⟩

theorem Sound.tokenIndex_of_member (h : t.Sound) {id p : Nat} {n up : Node}
    (hn : t.node? id = some n) (hmember : n.descriptor.isMember = true)
    (hparent : n.parent = some p) (hup : t.node? p = some up) : n.tokenIndex = up.tokenIndex := by
  cases h.placed hn with
  | first _ _ role => simp [role] at hmember
  | below _ _ _ _ role => simp [role] at hmember
  | member parent node _ _ _ index =>
    rw [hparent, Option.some.injEq] at parent
    rw [← parent, hup, Option.some.injEq] at node
    rw [index, node]

/-! ## The whole shape -/

theorem WellFormed.representation (h : t.WellFormed) : t.Representation where
  id_eq := h.id_eq
  linked_once := h.count_table
  links_lead hentry := by
    obtain ⟨n, hn, -⟩ := h.mem_table.mp hentry
    exact ⟨n, hn⟩
  parent_lt := h.parent_lt
  ancestors_eq := h.ancestors_eq
  ancestors_end := h.ancestors_end
  map_children hn hmap := (h.members hn).map (by rw [hmap]; rfl)
  collection_children hn hcollection := by
    refine (h.members hn).collection ?_
    simp only [List.mem_cons, List.not_mem_nil, or_false] at hcollection
    rcases hcollection with hd | hd | hd | hd <;> rw [hd] <;> rfl
  members_below := h.members_below
  plain_children := h.plain_children
  tokenIndex_field := h.tokenIndex_eq_countP
  tokenIndex_member := h.tokenIndex_of_member
  path_inj := h.path_inj
  findByPath := h.findByPath?
  size_le := h.size_le
  first_le := h.table_le none
  children_le {id n} hn := by
    have hle := h.table_le (some id)
    rw [← childCount_eq_length_table, hn] at hle
    exact hle

/-- Every tree has this shape, whatever calls were made since it was empty, with whatever sources of
type information, and whether they failed or not. -/
theorem representation_after (side : Side) (rootType : TypeRef) (overrides : List (String × String))
    (calls : List Call) : ((fresh side rootType overrides).after calls).Representation :=
  ((wellFormed_fresh side rootType overrides).after calls).representation

end Tree
end ChainMapping
