import Mathlib.Algebra.GroupWithZero.Nat
import Mathlib.Data.Prod.Basic
import ChainMapping.Proofs.Index.Order

/-!
# Counting nodes

A pass counts a node where it is attached: a new child at once, a child that is filled first when
it turns out to have something in it.  What is dropped was never counted, because nothing can have
been attached below it, and what is entered again is not counted twice.

So the count is that of the tree.  `Indexing.Counts` says this for any step of indexing, together
with what makes it work: ids are distinct, positions have children, and no value is null.
-/

namespace ChainMapping
namespace IndexNode

/-! ## The number of nodes -/

theorem nodeCounts_eq_sum (nodes : List IndexNode) :
    nodeCounts nodes = (nodes.map nodeCount).sum := by
  induction nodes with
  | nil => rw [nodeCounts, List.map_nil, List.sum_nil]
  | cons n rest ih => rw [nodeCounts, ih, List.map_cons, List.sum_cons]

theorem nodeCount_eq (n : IndexNode) : n.nodeCount = 1 + (n.children.map nodeCount).sum := by
  obtain ⟨id, value, children⟩ := n
  rw [nodeCount, nodeCounts_eq_sum]

@[simp] theorem nodeCount_leaf (id : String) (value : Value) :
    nodeCount ⟨id, value, []⟩ = 1 := rfl

theorem nodeCount_pos (n : IndexNode) : 0 < n.nodeCount := by
  rw [nodeCount_eq]
  omega

theorem hasChildren_iff_nodeCount {n : IndexNode} : n.hasChildren = true ↔ 1 < n.nodeCount := by
  rw [nodeCount_eq, hasChildren]
  cases n.children with
  | nil => simp
  | cons c rest =>
    have hpos := c.nodeCount_pos
    simp only [List.isEmpty_cons, Bool.not_false, List.map_cons, List.sum_cons, true_iff]
    omega

theorem nodeCount_push (n c : IndexNode) : (n.push c).nodeCount = n.nodeCount + c.nodeCount := by
  rw [nodeCount_eq, nodeCount_eq n, push, List.map_append, List.sum_append, List.map_singleton,
    List.sum_singleton, Nat.add_assoc]

/-- Putting a node in place of the child with its id changes that one summand. -/
theorem sum_nodeCount_replaced {children : List IndexNode} (h : (children.map (·.id)).Nodup)
    {c d : IndexNode} (hd : d ∈ children) (hid : d.id = c.id) :
    ((children.map fun x => if x.id = c.id then c else x).map nodeCount).sum + d.nodeCount
      = (children.map nodeCount).sum + c.nodeCount := by
  induction children with
  | nil => exact absurd hd List.not_mem_nil
  | cons x rest ih =>
    obtain ⟨hnew, hrest⟩ := List.nodup_cons.mp h
    simp only [List.map_cons, List.sum_cons]
    by_cases hx : x.id = c.id
    · have hne : ∀ y ∈ rest, y.id ≠ c.id := fun y hy heq =>
        hnew (List.mem_map.mpr ⟨y, hy, heq.trans hx.symm⟩)
      have hsame : (rest.map fun y => if y.id = c.id then c else y) = rest := by
        rw [List.map_congr_left fun y hy => if_neg (hne y hy), List.map_id']
      obtain rfl : d = x := (List.mem_cons.mp hd).resolve_right fun hmem => hne d hmem hid
      rw [if_pos hx, hsame]
      omega
    · have hmem : d ∈ rest := (List.mem_cons.mp hd).resolve_left fun heq => hx (heq ▸ hid)
      have hsum := ih hrest hmem
      rw [if_neg hx]
      omega

theorem nodeCount_replace {n c d : IndexNode} (h : n.childIds.Nodup)
    (hd : n.child? c.id = some d) :
    (n.replace c).nodeCount + d.nodeCount = n.nodeCount + c.nodeCount := by
  have hsum := sum_nodeCount_replaced h (List.mem_of_find?_eq_some hd) (id_of_child? hd)
  rw [nodeCount_eq (n.replace c), nodeCount_eq n]
  show 1 + ((n.replace c).children.map nodeCount).sum + _ = _
  simp only [replace]
  omega

/-! ## What is worth keeping -/

/-- The root and the elements of an index have positions below them, and positions have elements. -/
inductive Tier where
  | element
  | position

/-- The tier of the children. -/
def Tier.next : Tier → Tier
  | element => position
  | position => element

/-- An element is kept if it has a value, and a position if it has a child; its container has
contents then. -/
def Worthy (store : Store) : Tier → IndexNode → Prop
  | .element, n => n.value.isNull = false
  | .position, n => n.hasChildren = true ∧ ∃ size, store.length? n.value = some (size + 1)

/-- Below a node everything is worth keeping, and no two children have the same id. -/
inductive Sound (store : Store) : Tier → IndexNode → Prop where
  | intro {tier : Tier} {n : IndexNode} (ids : n.childIds.Nodup)
      (worthy : ∀ c ∈ n.children, Worthy store tier.next c)
      (below : ∀ c ∈ n.children, Sound store tier.next c) : Sound store tier n

section Sound

variable {store : Store} {tier : Tier} {n c d : IndexNode}

theorem Worthy.grown (h : Worthy store tier n) (hvalue : c.value = n.value)
    (hgrown : n.nodeCount ≤ c.nodeCount) : Worthy store tier c := by
  cases tier with
  | element => exact (congrArg Value.isNull hvalue).trans h
  | position =>
    obtain ⟨hchildren, hsize⟩ := h
    rw [hasChildren_iff_nodeCount] at hchildren
    exact ⟨hasChildren_iff_nodeCount.mpr (Nat.lt_of_lt_of_le hchildren hgrown), hvalue ▸ hsize⟩

theorem sound_leaf (id : String) (value : Value) : Sound store tier ⟨id, value, []⟩ :=
  .intro List.nodup_nil (fun _ hmem => absurd hmem List.not_mem_nil)
    fun _ hmem => absurd hmem List.not_mem_nil

namespace Sound

theorem nodup (h : n.Sound store tier) : n.childIds.Nodup := by
  obtain ⟨ids, -, -⟩ := h
  exact ids

theorem child (h : n.Sound store tier) {id : String} (hc : n.child? id = some c) :
    Worthy store tier.next c ∧ c.Sound store tier.next := by
  obtain ⟨-, worthy, below⟩ := h
  have hmem : c ∈ n.children := List.mem_of_find?_eq_some hc
  exact ⟨worthy c hmem, below c hmem⟩

/-- One more child, or one instead of another. -/
theorem with_child (h : n.Sound store tier) (hworthy : Worthy store tier.next c)
    (hc : c.Sound store tier.next) (hids : d.childIds.Nodup)
    (hmem : ∀ x ∈ d.children, x ∈ n.children ∨ x = c) : d.Sound store tier := by
  obtain ⟨-, worthy, below⟩ := h
  refine .intro hids (fun x hx => ?_) fun x hx => ?_
  · rcases hmem x hx with hx | rfl
    · exact worthy x hx
    · exact hworthy
  · rcases hmem x hx with hx | rfl
    · exact below x hx
    · exact hc

theorem push (h : n.Sound store tier) (hnew : n.child? c.id = none)
    (hworthy : Worthy store tier.next c) (hc : c.Sound store tier.next) :
    (n.push c).Sound store tier := by
  have hid : c.id ∉ n.childIds := fun hmem => by
    simpa [hnew] using child?_isSome_iff.mpr hmem
  refine h.with_child hworthy hc ?_ fun x hx => by simpa [IndexNode.push] using hx
  rw [childIds_push]
  exact List.nodup_append.mpr ⟨h.nodup, List.nodup_singleton _, fun a ha b hb heq =>
    hid (by rw [← List.mem_singleton.mp hb, ← heq]; exact ha)⟩

theorem replace (h : n.Sound store tier) (hworthy : Worthy store tier.next c)
    (hc : c.Sound store tier.next) : (n.replace c).Sound store tier := by
  refine h.with_child hworthy hc ?_ fun x hx => ?_
  · rw [childIds_replace]
    exact h.nodup
  · obtain ⟨y, hy, rfl⟩ := List.mem_map.mp hx
    by_cases hid : y.id = c.id
    · exact .inr (if_pos hid)
    · exact .inl (by rwa [if_neg hid])

end Sound
end Sound
end IndexNode

/-! ## Steps -/

/-- From one state of a pass to a later one: the node has grown, and what it has grown by has been
counted. -/
structure IndexWork.GrowsTo (w w' : IndexWork) : Prop where
  id : w'.node.id = w.node.id
  value : w'.node.value = w.node.value
  grown : w.node.nodeCount ≤ w'.node.nodeCount
  counted : w'.created + w.node.nodeCount = w.created + w'.node.nodeCount
  bounded : w.created ≤ Limits.indexedNodes → w'.created ≤ Limits.indexedNodes

namespace IndexWork.GrowsTo

variable {w w' w'' : IndexWork}

theorem refl (w : IndexWork) : w.GrowsTo w := ⟨rfl, rfl, Nat.le_refl _, rfl, fun hle => hle⟩

theorem trans (h : w.GrowsTo w') (h' : w'.GrowsTo w'') : w.GrowsTo w'' where
  id := h'.id.trans h.id
  value := h'.value.trans h.value
  grown := Nat.le_trans h.grown h'.grown
  counted := by
    have hfirst := h.counted
    have hsecond := h'.counted
    omega
  bounded := fun hle => h'.bounded (h.bounded hle)

end IndexWork.GrowsTo

namespace Indexing

open IndexNode (Tier Sound Worthy)

/-- Whatever sound node is being filled, the step leaves it sound and counts what it adds. -/
def Counts (store : Store) (tier : Tier) (m : Indexing Unit) : Prop :=
  ∀ w : IndexWork, w.node.Sound store tier →
    Ends m w (fun _ w' => w.GrowsTo w' ∧ w'.node.Sound store tier) fun _ _ => True

variable {store : Store} {tier : Tier}

theorem Counts.andThen {m m' : Indexing Unit} (h : Counts store tier m)
    (h' : Counts store tier m') : Counts store tier (do m; m') := by
  intro w hw
  refine Ends.bind (h w hw) ?_
  rintro ⟨⟩ w₁ ⟨hgrows, hsound⟩
  exact (h' w₁ hsound).mono (fun _ _ hok => ⟨hgrows.trans hok.1, hok.2⟩) fun _ _ _ => trivial

/-- Attaching a node whose children have been counted makes the count right again. -/
theorem ends_attach_filled {c : IndexNode} {w w₁ : IndexWork} (hw : w.node.Sound store tier)
    (hnew : w.node.child? c.id = none) (hworthy : Worthy store tier.next c)
    (hc : c.Sound store tier.next) (hnode : w₁.node = w.node)
    (hcreated : w₁.created + 1 = w.created + c.nodeCount) :
    Ends (attach c) w₁ (fun _ w' => w.GrowsTo w' ∧ w'.node.Sound store tier)
      fun _ _ => True := by
  refine (ends_attach_counted c w₁).mono ?_ fun _ _ _ => trivial
  rintro ⟨⟩ w' ⟨rfl, hle⟩
  have hpush := IndexNode.nodeCount_push w.node c
  rw [hnode]
  refine ⟨⟨rfl, rfl, ?_, ?_, fun _ => hle⟩, hw.push hnew hworthy hc⟩
  · show w.node.nodeCount ≤ (w.node.push c).nodeCount
    omega
  · show w₁.created + 1 + w.node.nodeCount = w.created + (w.node.push c).nodeCount
    omega

section FillChild

variable {fill : Indexing Unit} {id : String} {w : IndexWork}

theorem Counts.within (h : Counts store tier.next fill) (hw : w.node.Sound store tier)
    {c : IndexNode} (hc : w.node.child? id = some c) :
    Ends (within c fill) w (fun _ w' => w.GrowsTo w' ∧ w'.node.Sound store tier)
      fun _ _ => True := by
  obtain ⟨hworthy, hsound⟩ := hw.child hc
  have hfill := h { w with node := c } hsound
  unfold Ends Indexing.within
  unfold Ends at hfill
  cases hm : fill { w with node := c } with
  | error e w' => trivial
  | ok u w' =>
    rw [hm] at hfill
    obtain ⟨hgrows, hsound'⟩ := hfill
    have hchild : w.node.child? w'.node.id = some c := by
      rw [hgrows.id, IndexNode.id_of_child? hc]
      exact hc
    have hreplace := IndexNode.nodeCount_replace hw.nodup hchild
    have hgrown := hgrows.grown
    have hcounted := hgrows.counted
    refine ⟨⟨rfl, rfl, ?_, ?_, hgrows.bounded⟩,
      hw.replace (hworthy.grown hgrows.value hgrown) hsound'⟩
    · show w.node.nodeCount ≤ (w.node.replace w'.node).nodeCount
      simp only at hgrown
      omega
    · show w'.created + w.node.nodeCount = w.created + (w.node.replace w'.node).nodeCount
      simp only at hcounted
      omega

/-- A new child without children leaves the count as it was, because nothing was attached. -/
theorem Counts.attachFilled {value : Value} (h : Counts store tier.next fill)
    (hw : w.node.Sound store tier) (hc : w.node.child? id = none)
    (hworthy : ∀ n : IndexNode, n.value = value → n.hasChildren = true →
      Worthy store tier.next n) :
    Ends (attachFilled ⟨id, value, []⟩ fill) w
      (fun _ w' => w.GrowsTo w' ∧ w'.node.Sound store tier) fun _ _ => True := by
  have hfill := h { w with node := ⟨id, value, []⟩ } (IndexNode.sound_leaf id value)
  unfold Ends Indexing.attachFilled
  unfold Ends at hfill
  cases hm : fill { w with node := ⟨id, value, []⟩ } with
  | error e w' => trivial
  | ok u w' =>
    rw [hm] at hfill
    obtain ⟨hgrows, hsound⟩ := hfill
    have hcounted := hgrows.counted
    have hpos := w'.node.nodeCount_pos
    simp only [IndexNode.nodeCount_leaf] at hcounted
    simp only
    by_cases hchildren : w'.node.hasChildren = true
    · rw [if_pos hchildren]
      refine ends_attach_filled hw ?_ (hworthy _ hgrows.value hchildren) hsound rfl hcounted
      rw [hgrows.id]
      exact hc
    · rw [if_neg hchildren]
      rw [IndexNode.hasChildren_iff_nodeCount] at hchildren
      refine ⟨⟨rfl, rfl, Nat.le_refl _, ?_, hgrows.bounded⟩, hw⟩
      show w'.created + w.node.nodeCount = w.created + w.node.nodeCount
      omega

theorem Counts.fillChild {value : Value} (h : Counts store tier.next fill) (id : String)
    (hworthy : ∀ n : IndexNode, n.value = value → n.hasChildren = true →
      Worthy store tier.next n) : Counts store tier (fillChild id value fill) := by
  intro w hw
  cases hc : w.node.child? id with
  | some c => exact Ends.congr (fillChild_of_some hc value fill) (h.within hw hc)
  | none => exact Ends.congr (fillChild_of_none hc value fill) (h.attachFilled hw hc hworthy)

end FillChild
end Indexing

namespace Index

open Indexing (Counts)

variable {source : IndexSource}

namespace Subject

end Subject

end Index
end ChainMapping
