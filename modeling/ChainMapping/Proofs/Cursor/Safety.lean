import ChainMapping.Proofs.Tree.Fields
import ChainMapping.Tree.Cursor

/-!
# Cursors on any chain

A cursor starts at the first node of a chain and goes down by the names of its segments, whether the
chain was resolved in the tree or not.  It never leaves the chain: each node that it meets belongs
to the segment at the same place, so there is always a segment to ask.  And it comes to an end,
because a segment holds it for at most two steps, the container and its member.
-/

namespace ChainMapping
namespace Cursor

/-- Where a cursor is after some steps down. -/
def descendTimes (c : Cursor) : Nat → Option Cursor
  | 0 => some c
  | k + 1 => c.descend?.bind fun next => next.descendTimes k

/-- How far down a cursor is: two for each segment before, and one more at a member. -/
def height (c : Cursor) : Nat :=
  2 * c.tokenIndex + if (c.node?.map (·.descriptor.isMember)).getD false then 1 else 0

/-- A cursor at a node of a segment of its chain. -/
structure Sits (c : Cursor) (n : Node) (token : Token) : Prop where
  wellFormed : c.tree.WellFormed
  node : c.node? = some n
  segment : c.chain.tokens[n.tokenIndex]? = some token
  name : c.tree.segmentName? c.nodeId = some token.name

namespace Sits

variable {c c' : Cursor} {n : Node} {token : Token}

theorem tokenIndex_eq (h : c.Sits n token) : c.tokenIndex = n.tokenIndex := by
  rw [tokenIndex, h.node, Option.map_some, Option.getD_some]

theorem token?_eq (h : c.Sits n token) : c.token? = some token := by
  rw [token?, h.tokenIndex_eq, h.segment]

theorem tokenIndex_lt (h : c.Sits n token) : c.tokenIndex < c.chain.length := by
  rw [h.tokenIndex_eq]
  exact (List.getElem?_eq_some_iff.mp h.segment).1

theorem isContainer_eq (h : c.Sits n token) : c.isContainer = n.isContainer := by
  rw [isContainer, h.node, Option.map_some, Option.getD_some]

theorem height_eq (h : c.Sits n token) :
    c.height = 2 * n.tokenIndex + if n.descriptor.isMember then 1 else 0 := by
  rw [height, h.tokenIndex_eq, h.node, Option.map_some, Option.getD_some]

theorem height_lt (h : c.Sits n token) : c.height < 2 * c.chain.length := by
  have hlt := h.tokenIndex_lt
  rw [h.tokenIndex_eq] at hlt
  rw [h.height_eq]
  split <;> omega

end Sits

theorem sits_first {t : Tree} (h : t.WellFormed) {chain : Chain} {c : Cursor}
    (hfirst : atFirst? t chain = some c) :
    c.tree = t ∧ c.chain = chain ∧ ∃ n token, c.Sits n token := by
  obtain ⟨token, htoken, hrest⟩ := Option.bind_eq_some_iff.mp hfirst
  obtain ⟨id, hid, hc⟩ := Option.bind_eq_some_iff.mp hrest
  obtain rfl : (⟨t, chain, id⟩ : Cursor) = c := Option.some.inj hc
  have hchild : t.childOf? none token.name = some id := hid
  obtain ⟨n, hn, -, hname⟩ := h.childOf?_eq_some_iff.mp hchild
  obtain ⟨hindex, hrole⟩ := h.tokenIndex_of_childOf? (show t.At none 0 from rfl) hchild hn
  refine ⟨rfl, rfl, n, token, h, hn, ?_, ?_⟩
  · rw [hindex, ← List.head?_eq_getElem?]
    exact htoken
  · rw [← hname]
    exact Tree.segmentName?_of_field hn hrole

theorem isMember_of_isContainer {n : Node} (h : n.isContainer = true) :
    n.descriptor.isMember = false := by
  cases hd : n.descriptor <;>
    simp [Node.isContainer, hd, Descriptor.isContainer, Descriptor.isCollection, Descriptor.isMap,
      Descriptor.isMember] at h ⊢

/-- A container leads to a member, which belongs to the same segment. -/
theorem Sits.descend_container {c : Cursor} {n : Node} {token : Token} (h : c.Sits n token)
    (hcontainer : n.isContainer = true) {side : Option MapSide} {m : Nat}
    (hm : c.tree.memberOf? c.nodeId side = some m) :
    (c.withNode m).parent? = some c ∧ c.height < (c.withNode m).height
      ∧ ∃ member, (c.withNode m).Sits member token := by
  have hn : c.tree.node? c.nodeId = some n := h.node
  obtain ⟨key, hkey⟩ : ∃ key, c.tree.childOf? (some c.nodeId) key = some m := by
    rcases (Tree.memberOf?_eq_some_iff hn).mp hm with ⟨-, side, -, hc⟩ | ⟨-, -, hc⟩
    · exact ⟨_, hc⟩
    · exact ⟨_, hc⟩
  obtain ⟨member, hmember, hparent, -⟩ := h.wellFormed.childOf?_eq_some_iff.mp hkey
  have hnode : (c.withNode m).node? = some member := hmember
  obtain ⟨hrole, hindex⟩ : member.descriptor.isMember = true
      ∧ member.tokenIndex = n.tokenIndex := by
    cases h.wellFormed.placed hmember with
    | first parent => simp [hparent] at parent
    | below parent up plain =>
      rw [hparent, Option.some.injEq] at parent
      rw [← parent, hn, Option.some.injEq] at up
      rw [← up, hcontainer] at plain
      cases plain
    | member parent up _ _ role index =>
      rw [hparent, Option.some.injEq] at parent
      rw [← parent, hn, Option.some.injEq] at up
      exact ⟨role, up ▸ index⟩
  have hname := h.name
  rw [Tree.segmentName?_of_field hn (isMember_of_isContainer hcontainer)] at hname
  have hsits : (c.withNode m).Sits member token := by
    refine ⟨h.wellFormed, hnode, ?_, ?_⟩
    · rw [hindex]
      exact h.segment
    · exact (Tree.segmentName?_of_member hmember hrole hparent hn).trans hname
  refine ⟨?_, ?_, member, hsits⟩
  · rw [parent?, hnode, Option.bind_some, hparent]
    rfl
  · rw [h.height_eq, hsits.height_eq, hindex, hrole, isMember_of_isContainer hcontainer]
    simp

/-- Any other node leads to the node of the next segment. -/
theorem Sits.descend_plain {c : Cursor} {n : Node} {token following : Token} (h : c.Sits n token)
    (hplain : n.isContainer = false)
    (hfollowing : c.chain.tokens[c.tokenIndex + 1]? = some following) {id : Nat}
    (hchild : c.tree.childOf? (some c.nodeId) following.name = some id) :
    (c.withNode id).parent? = some c ∧ c.height < (c.withNode id).height
      ∧ ∃ n', (c.withNode id).Sits n' following := by
  have hn : c.tree.node? c.nodeId = some n := h.node
  obtain ⟨n', hn', hparent, htoken⟩ := h.wellFormed.childOf?_eq_some_iff.mp hchild
  have hat : c.tree.At (some c.nodeId) (n.tokenIndex + 1) := ⟨n, hn, hplain, rfl⟩
  obtain ⟨hindex, hrole⟩ := h.wellFormed.tokenIndex_of_childOf? hat hchild hn'
  have hnode : (c.withNode id).node? = some n' := hn'
  have hsits : (c.withNode id).Sits n' following := by
    refine ⟨h.wellFormed, hnode, ?_, ?_⟩
    · rw [hindex, ← h.tokenIndex_eq]
      exact hfollowing
    · rw [← htoken]
      exact Tree.segmentName?_of_field hn' hrole
  refine ⟨?_, ?_, n', hsits⟩
  · rw [parent?, hnode, Option.bind_some, hparent]
    rfl
  · rw [h.height_eq, hsits.height_eq, hindex]
    split <;> omega

/-- One step down: to another node of the same segment or to one of the next segment, further down
in any case, and the way up leads back. -/
theorem Sits.descend {c next : Cursor} {n : Node} {token : Token} (h : c.Sits n token)
    (hdescend : c.descend? = some next) :
    next.tree = c.tree ∧ next.chain = c.chain ∧ next.parent? = some c ∧ c.height < next.height
      ∧ ∃ n' token', next.Sits n' token' := by
  unfold descend? at hdescend
  rw [h.isContainer_eq] at hdescend
  cases hcontainer : n.isContainer with
  | true =>
    rw [if_pos hcontainer] at hdescend
    obtain ⟨m, hm, rfl⟩ := Option.map_eq_some_iff.mp hdescend
    obtain ⟨hparent, hheight, member, hsits⟩ := h.descend_container hcontainer hm
    exact ⟨rfl, rfl, hparent, hheight, member, token, hsits⟩
  | false =>
    rw [if_neg (by simp [hcontainer])] at hdescend
    obtain ⟨following, hfollowing, hrest⟩ := Option.bind_eq_some_iff.mp hdescend
    rw [h.node, Option.pure_def] at hrest
    obtain ⟨_, hsome, hrest⟩ := Option.bind_eq_some_iff.mp hrest
    obtain rfl := Option.some.inj hsome
    obtain ⟨id, hid, hnext⟩ := Option.bind_eq_some_iff.mp hrest
    obtain rfl := Option.some.inj hnext
    have hchild : c.tree.childOf? (some c.nodeId) following.name = some id := by
      have hn : c.tree.node? c.nodeId = some n := h.node
      rw [Tree.childOf?, hn, Option.bind_some]
      exact hid
    obtain ⟨hparent, hheight, n', hsits⟩ := h.descend_plain hcontainer hfollowing hchild
    exact ⟨rfl, rfl, hparent, hheight, n', following, hsits⟩

/-! ## Walks -/

variable {c : Cursor}

theorem walkFrom_succ (steps : Nat) (c : Cursor) :
    c.walkFrom (steps + 1)
      = c :: (c.descend?.map fun next => next.walkFrom steps).getD [] := by
  rw [walkFrom]
  cases c.descend? <;> rfl

theorem length_walkFrom_le (steps : Nat) (c : Cursor) : (c.walkFrom steps).length ≤ steps := by
  induction steps generalizing c with
  | zero => exact Nat.le_refl _
  | succ steps ih =>
    rw [walkFrom_succ, List.length_cons]
    cases c.descend? with
    | none => exact Nat.succ_le_succ (Nat.zero_le _)
    | some next => exact Nat.succ_le_succ (ih next)

/-- Nothing is cut off, as long as there is a step for every place further down. -/
theorem getElem?_walkFrom {n : Node} {token : Token} (h : c.Sits n token) {steps : Nat}
    (hsteps : 2 * c.chain.length ≤ steps + c.height) (k : Nat) :
    (c.walkFrom steps)[k]? = c.descendTimes k := by
  induction steps generalizing c n token k with
  | zero =>
    have hlt := h.height_lt
    omega
  | succ steps ih =>
    rw [walkFrom_succ]
    cases k with
    | zero => rfl
    | succ k =>
      rw [List.getElem?_cons_succ, descendTimes]
      cases hdescend : c.descend? with
      | none => rfl
      | some next =>
        obtain ⟨-, hchain, -, hlower, n', token', hsits⟩ := h.descend hdescend
        exact ih hsits (by rw [hchain]; omega) k

/-- What is true of a cursor that sits somewhere is true of all that it comes to. -/
theorem of_mem_walkFrom {steps : Nat} {d : Cursor} {n : Node} {token : Token} (h : c.Sits n token)
    (hmem : d ∈ c.walkFrom steps) :
    d.tree = c.tree ∧ d.chain = c.chain ∧ ∃ n' token', d.Sits n' token' := by
  induction steps generalizing c n token with
  | zero => cases hmem
  | succ steps ih =>
    rw [walkFrom_succ] at hmem
    rcases List.mem_cons.mp hmem with rfl | hmem
    · exact ⟨rfl, rfl, n, token, h⟩
    · cases hdescend : c.descend? with
      | none => simp [hdescend] at hmem
      | some next =>
        obtain ⟨htree, hchain, -, -, n', token', hsits⟩ := h.descend hdescend
        rw [hdescend] at hmem
        obtain ⟨htree', hchain', hd⟩ := ih hsits hmem
        exact ⟨htree'.trans htree, hchain'.trans hchain, hd⟩

end Cursor

namespace Tree

variable {t : Tree} {chain : Chain}

theorem length_walk_le (t : Tree) (chain : Chain) : (t.walk chain).length ≤ 2 * chain.length := by
  unfold walk
  split
  · exact Cursor.length_walkFrom_le _ _
  · exact Nat.zero_le _

theorem WellFormed.getElem?_walk (h : t.WellFormed) (chain : Chain) (k : Nat) :
    (t.walk chain)[k]? = (Cursor.atFirst? t chain).bind fun first => first.descendTimes k := by
  unfold walk
  cases hfirst : Cursor.atFirst? t chain with
  | none => rfl
  | some first =>
    obtain ⟨-, hchain, n, token, hsits⟩ := Cursor.sits_first h hfirst
    exact Cursor.getElem?_walkFrom hsits (by rw [hchain]; exact Nat.le_add_right _ _) k

theorem WellFormed.sits_of_mem_walk (h : t.WellFormed) {c : Cursor} (hmem : c ∈ t.walk chain) :
    c.tree = t ∧ c.chain = chain ∧ ∃ n token, c.Sits n token := by
  unfold walk at hmem
  split at hmem
  next first hfirst =>
    obtain ⟨htree, hchain, n, token, hsits⟩ := Cursor.sits_first h hfirst
    obtain ⟨htree', hchain', hc⟩ := Cursor.of_mem_walkFrom hsits hmem
    exact ⟨htree'.trans htree, hchain'.trans hchain, hc⟩
  next => cases hmem

end Tree
end ChainMapping
