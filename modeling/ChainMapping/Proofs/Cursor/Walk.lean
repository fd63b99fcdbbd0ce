import ChainMapping.Proofs.Cursor.Safety
import ChainMapping.Proofs.Index.Levels
import ChainMapping.Proofs.Tree.Footprint
import ChainMapping.Proofs.Tree.Representation

/-!
# Walks along chains that have been resolved

The walk along such a chain stops once at each segment, and once more before it at a container, so
that the stops can be told from the segments alone.  It ends at the leaf.  What a cursor says about
its place it reads off the segments; it is the same that one would count on the walk.
-/

namespace ChainMapping
namespace Cursor

/-- A cursor at a segment of a chain that leads on to a leaf: at the container that the segment
names, at its member, or at a node that is neither. -/
structure Goes (c : Cursor) (leaf : Nat) (done : List Token) (token : Token) (after : List Token)
    (n : Node) : Prop where
  wellFormed : c.tree.WellFormed
  tokens : c.chain.tokens = done ++ token :: after
  numbered : Chain.NumberedFrom done.length (token :: after)
  node : c.node? = some n
  index : n.tokenIndex = done.length
  fits : n.isContainer = true → Resolve.notationError? n.descriptor "" token = none
  leads : c.tree.follow? (some (c.tree.onward c.nodeId token)) after = some (some leaf)

namespace Goes

variable {c : Cursor} {leaf : Nat} {done after : List Token} {token : Token} {n : Node}

theorem tokenIndex_eq (h : c.Goes leaf done token after n) : c.tokenIndex = done.length := by
  rw [tokenIndex, h.node, Option.map_some, Option.getD_some, h.index]

theorem token?_eq (h : c.Goes leaf done token after n) : c.token? = some token := by
  rw [token?, h.tokenIndex_eq, h.tokens]
  simp

theorem isContainer_eq (h : c.Goes leaf done token after n) : c.isContainer = n.isContainer := by
  rw [isContainer, h.node, Option.map_some, Option.getD_some]

theorem onward_of_plain (h : c.Goes leaf done token after n) (hplain : n.isContainer = false) :
    c.tree.onward c.nodeId token = c.nodeId := by
  rw [Tree.onward, Tree.memberOf?_of_plain h.node hplain, Option.getD_none]

theorem isLastToken_eq (h : c.Goes leaf done token after n) : c.isLastToken = after.isEmpty := by
  have hlast : c.chain.lastIndex = done.length + after.length := by
    rw [Chain.lastIndex, h.tokens, List.length_append, List.length_cons]
    omega
  rw [isLastToken, h.tokenIndex_eq, hlast]
  cases after with
  | nil => simp
  | cons following rest => simp

/-- From a container the cursor goes to the member that the segment addresses. -/
theorem member (h : c.Goes leaf done token after n) (hcontainer : n.isContainer = true) :
    ∃ m member, c.descend? = some (c.withNode m) ∧ (c.withNode m).Goes leaf done token after member
      ∧ member.isContainer = false ∧ m = c.tree.onward c.nodeId token := by
  obtain ⟨m, member, hm, hnode, -, hrole, hindex⟩ :=
    h.wellFormed.member_of_fits h.node hcontainer (h.fits hcontainer)
  have honward : c.tree.onward c.nodeId token = m := by rw [Tree.onward, hm, Option.getD_some]
  have hplain : member.isContainer = false := by
    cases hcontainer' : member.isContainer with
    | false => rfl
    | true => rw [isMember_of_isContainer hcontainer'] at hrole; cases hrole
  refine ⟨m, member, ?_, ?_, hplain, honward.symm⟩
  · rw [descend?, h.isContainer_eq, if_pos hcontainer, member?, h.token?_eq, Option.bind_some, hm,
      Option.map_some]
  · have hstays : c.tree.onward m token = m := by
      rw [Tree.onward, Tree.memberOf?_of_plain hnode hplain, Option.getD_none]
    refine ⟨h.wellFormed, h.tokens, h.numbered, hnode, hindex.trans h.index, ?_, ?_⟩
    · exact fun hcontainer' => absurd hcontainer' (by simp [hplain])
    · show c.tree.follow? (some (c.tree.onward m token)) after = some (some leaf)
      rw [hstays, ← honward, h.leads]

/-- From any other node it goes to the node of the next segment. -/
theorem next {following : Token} {rest : List Token}
    (h : c.Goes leaf done token (following :: rest) n) (hplain : n.isContainer = false) :
    ∃ id n', c.descend? = some (c.withNode id)
      ∧ (c.withNode id).Goes leaf (done ++ [token]) following rest n'
      ∧ following.isContainer = n'.isContainer := by
  have hleads := h.leads
  rw [h.onward_of_plain hplain] at hleads
  obtain ⟨id, n', hchild, hn', hfits, hrest⟩ := Tree.follow?_cons hleads
  obtain ⟨hindex, hnumbered⟩ := h.numbered
  have hat : c.tree.At (some c.nodeId) (done.length + 1) := ⟨n, h.node, hplain, by rw [h.index]⟩
  obtain ⟨htoken, -⟩ := h.wellFormed.tokenIndex_of_childOf? hat hchild hn'
  have hfollowing : c.chain.tokens[c.tokenIndex + 1]? = some following := by
    rw [h.tokenIndex_eq, h.tokens]
    simp
  have hid : n.child? following.name = some id := by
    rwa [Tree.childOf?, show c.tree.node? c.nodeId = some n from h.node, Option.bind_some] at hchild
  refine ⟨id, n', descend?_eq h.node hplain hfollowing hid, ?_, Resolve.isContainer_of_fits hfits⟩
  refine ⟨h.wellFormed, ?_, ?_, hn', ?_, fun _ => hfits, hrest⟩
  · rw [List.append_assoc]
    exact h.tokens
  · rw [List.length_append]
    exact hnumbered
  · rw [htoken, List.length_append]
    rfl

/-- At the end of the chain it is at the leaf and goes no further. -/
theorem ends (h : c.Goes leaf done token [] n) (hplain : n.isContainer = false) :
    c.descend? = none ∧ c.nodeId = leaf := by
  have hleads := h.leads
  rw [h.onward_of_plain hplain, Tree.follow?, Option.some.injEq, Option.some.injEq] at hleads
  refine ⟨?_, hleads⟩
  have hnone : c.chain.tokens[c.tokenIndex + 1]? = none := by
    rw [h.tokenIndex_eq, h.tokens]
    simp
  rw [descend?, h.isContainer_eq, hplain, if_neg (by simp), hnone]
  rfl

theorem descend {next : Cursor} (h : c.Goes leaf done token after n)
    (hdescend : c.descend? = some next) :
    ∃ done' token' after' n', next.Goes leaf done' token' after' n' := by
  cases hcontainer : n.isContainer with
  | true =>
    obtain ⟨m, member, hnext, hgoes, -⟩ := h.member hcontainer
    rw [hdescend, Option.some.injEq] at hnext
    exact ⟨_, _, _, _, hnext ▸ hgoes⟩
  | false =>
    cases after with
    | nil =>
      rw [(h.ends hcontainer).1] at hdescend
      cases hdescend
    | cons following rest =>
      obtain ⟨id, n', hnext, hgoes, -⟩ := h.next hcontainer
      rw [hdescend, Option.some.injEq] at hnext
      exact ⟨_, _, _, _, hnext ▸ hgoes⟩

theorem of_mem_walkFrom {steps : Nat} {d : Cursor} (h : c.Goes leaf done token after n)
    (hmem : d ∈ c.walkFrom steps) :
    ∃ done' token' after' n', d.Goes leaf done' token' after' n' := by
  induction steps generalizing c done token after n with
  | zero => cases hmem
  | succ steps ih =>
    rw [walkFrom_succ] at hmem
    rcases List.mem_cons.mp hmem with rfl | hmem
    · exact ⟨_, _, _, _, h⟩
    · cases hdescend : c.descend? with
      | none => simp [hdescend] at hmem
      | some next =>
        obtain ⟨_, _, _, _, hgoes⟩ := h.descend hdescend
        rw [hdescend] at hmem
        exact ih hgoes hmem

end Goes

/-! ## The stops of a walk -/

/-- Where a cursor is: the number of its segment, and whether it is at a container. -/
def place (c : Cursor) : Nat × Bool := (c.tokenIndex, c.isContainer)

/-- The stops that segments ask for. -/
def stops (index : Nat) : List Token → List (Nat × Bool)
  | [] => []
  | token :: rest =>
    (if token.isContainer then [(index, true)] else []) ++ (index, false) :: stops (index + 1) rest

namespace Goes

variable {c : Cursor} {leaf : Nat} {done after : List Token} {token : Token} {n : Node}

theorem place_eq (h : c.Goes leaf done token after n) :
    c.place = (done.length, n.isContainer) := by
  rw [place, h.tokenIndex_eq, h.isContainer_eq]

/-- A walk that starts beside a container or at its member. -/
theorem walkFrom_plain (h : c.Goes leaf done token after n) (hplain : n.isContainer = false)
    {steps : Nat} (hsteps : 2 * after.length < steps) :
    (c.walkFrom steps).map place = (done.length, false) :: stops (done.length + 1) after
      ∧ (c.walkFrom steps).getLast? = some (c.withNode leaf) := by
  induction after generalizing c done token n steps with
  | nil =>
    obtain ⟨steps, rfl⟩ : ∃ k, steps = k + 1 := ⟨steps - 1, by omega⟩
    obtain ⟨hnone, rfl⟩ := h.ends hplain
    rw [walkFrom_succ, hnone]
    exact ⟨by rw [List.map_cons, h.place_eq, hplain]; rfl, rfl⟩
  | cons following rest ih =>
    rw [List.length_cons] at hsteps
    obtain ⟨steps, rfl⟩ : ∃ k, steps = k + 2 := ⟨steps - 2, by omega⟩
    obtain ⟨id, n', hnext, hgoes, hsame⟩ := h.next hplain
    have hlength : (done ++ [token]).length = done.length + 1 := by rw [List.length_append]; rfl
    rw [walkFrom_succ, hnext, Option.map_some, Option.getD_some, List.map_cons, h.place_eq, hplain,
      stops, hsame]
    cases hcontainer : n'.isContainer with
    | false =>
      obtain ⟨hmap, hlast⟩ := ih hgoes hcontainer
        (show 2 * rest.length < steps + 1 by omega)
      rw [hlength] at hmap
      refine ⟨by rw [hmap]; rfl, ?_⟩
      rw [List.getLast?_cons, hlast]
      rfl
    | true =>
      obtain ⟨m, member, hmember, hgoes', hplain', -⟩ := hgoes.member hcontainer
      obtain ⟨hmap, hlast⟩ := ih hgoes' hplain' (show 2 * rest.length < steps by omega)
      rw [walkFrom_succ, hmember, Option.map_some, Option.getD_some, List.map_cons, hmap,
        hgoes.place_eq, hcontainer, hlength]
      refine ⟨rfl, ?_⟩
      rw [List.getLast?_cons, List.getLast?_cons, hlast]
      rfl

/-- A walk that starts at the field of a segment stops once for it, and twice if it is a container;
and so on to the leaf. -/
theorem walkFrom (h : c.Goes leaf done token after n) (hfield : token.isContainer = n.isContainer)
    {steps : Nat} (hsteps : 2 * (token :: after).length ≤ steps) :
    (c.walkFrom steps).map place = stops done.length (token :: after)
      ∧ (c.walkFrom steps).getLast? = some (c.withNode leaf) := by
  rw [List.length_cons] at hsteps
  rw [stops, hfield]
  cases hcontainer : n.isContainer with
  | false => exact h.walkFrom_plain hcontainer (by omega)
  | true =>
    obtain ⟨steps, rfl⟩ : ∃ k, steps = k + 1 := ⟨steps - 1, by omega⟩
    obtain ⟨m, member, hmember, hgoes, hplain, -⟩ := h.member hcontainer
    obtain ⟨hmap, hlast⟩ := hgoes.walkFrom_plain hplain
      (show 2 * after.length < steps by omega)
    rw [walkFrom_succ, hmember, Option.map_some, Option.getD_some, List.map_cons, hmap, h.place_eq,
      hcontainer]
    refine ⟨rfl, ?_⟩
    rw [List.getLast?_cons, hlast]
    rfl

end Goes

theorem le_of_mem_stops {index : Nat} {tokens : List Token} {stop : Nat × Bool}
    (h : stop ∈ stops index tokens) : index ≤ stop.1 := by
  induction tokens generalizing index with
  | nil => cases h
  | cons token rest ih =>
    rw [stops, List.mem_append, List.mem_cons] at h
    rcases h with hcontainer | rfl | hrest
    · split at hcontainer
      · exact Nat.le_of_eq (congrArg Prod.fst (List.mem_singleton.mp hcontainer)).symm
      · cases hcontainer
    · exact Nat.le_refl _
    · exact Nat.le_of_succ_le (ih hrest)

/-- The containers that a walk stops at before a segment are those that segments before it name. -/
theorem countP_stops_lt (index k : Nat) (tokens : List Token) :
    (stops index tokens).countP (fun s => s.2 && decide (s.1 < index + k))
      = (tokens.take k).countP Token.isContainer := by
  induction tokens generalizing index k with
  | nil => simp [stops]
  | cons token rest ih =>
    cases k with
    | zero =>
      rw [List.take_zero, List.countP_nil, List.countP_eq_zero]
      intro stop hstop
      have hle := le_of_mem_stops hstop
      simp [hle]
    | succ k =>
      have hrest := ih (index + 1) k
      rw [Nat.add_right_comm index 1 k, Nat.add_assoc index k 1] at hrest
      rw [stops, List.countP_append, List.countP_cons, hrest, List.take_succ_cons, List.countP_cons]
      cases token.isContainer <;> simp [Nat.add_comm]

/-- And those from it on are those that it and segments after it name. -/
theorem countP_stops_ge (index k : Nat) (tokens : List Token) :
    (stops index tokens).countP (fun s => s.2 && decide (index + k ≤ s.1))
      = (tokens.drop k).countP Token.isContainer := by
  induction tokens generalizing index k with
  | nil => simp [stops]
  | cons token rest ih =>
    cases k with
    | zero =>
      have hall : (stops (index + 1) rest).countP (fun s => s.2 && decide (index + 0 ≤ s.1))
          = (stops (index + 1) rest).countP (fun s => s.2 && decide (index + 1 + 0 ≤ s.1)) := by
        refine List.countP_congr fun stop hstop => ?_
        have hle := le_of_mem_stops hstop
        have hle' : index ≤ stop.1 := Nat.le_of_succ_le hle
        simp [hle, hle']
      rw [stops, List.countP_append, List.countP_cons, hall, ih (index + 1) 0, List.drop_zero,
        List.drop_zero, List.countP_cons]
      cases token.isContainer <;> simp [Nat.add_comm]
    | succ k =>
      have hrest := ih (index + 1) k
      rw [Nat.add_right_comm index 1 k, Nat.add_assoc index k 1] at hrest
      rw [stops, List.countP_append, List.countP_cons, hrest, List.drop_succ_cons]
      cases token.isContainer <;> simp

/-! ## The way back up -/

/-- The nodes above the end of a walk are those of the walk, from the end on. -/
theorem ancestors_walkFrom {c d : Cursor} {n : Node} {token : Token} (h : c.Sits n token)
    {steps : Nat} (hlast : (c.walkFrom steps).getLast? = some d) :
    c.tree.ancestors d.nodeId
      = ((c.walkFrom steps).map nodeId).reverse ++ (c.tree.ancestors c.nodeId).tail := by
  induction steps generalizing c n token with
  | zero => cases hlast
  | succ steps ih =>
    have hhead := h.wellFormed.ancestors_eq h.node
    rw [walkFrom_succ] at hlast ⊢
    cases hdescend : c.descend? with
    | none =>
      rw [hdescend] at hlast
      obtain rfl : c = d := Option.some.inj hlast
      rw [hhead]
      rfl
    | some next =>
      obtain ⟨htree, -, hparent, -, n', token', hsits⟩ := h.descend hdescend
      rw [hdescend] at hlast
      rw [Option.map_some, Option.getD_some] at hlast ⊢
      cases hrest : next.walkFrom steps with
      | nil =>
        rw [hrest] at hlast
        obtain rfl : c = d := Option.some.inj hlast
        rw [hhead]
        rfl
      | cons first others =>
        rw [hrest, List.getLast?_cons_cons, ← hrest] at hlast
        have habove := ih hsits hlast
        have hnext := hsits.wellFormed.ancestors_eq hsits.node
        obtain ⟨p, hp, hup⟩ := Option.map_eq_some_iff.mp hparent
        have hid : p = c.nodeId := congrArg nodeId hup
        rw [hsits.node, Option.bind_some] at hp
        rw [hp, Option.map_some, Option.getD_some, hid, htree] at hnext
        rw [htree, hnext, List.tail_cons, hhead] at habove
        rw [habove, ← hrest, List.map_cons, List.reverse_cons, List.append_assoc, hhead]
        rfl

/-! ## What a cursor says about its place -/

namespace Goes

variable {c : Cursor} {leaf : Nat} {done after : List Token} {token : Token} {n : Node}

theorem isLeaf_iff (h : c.Goes leaf done token after n) :
    c.isLeaf = true ↔ c.descend? = none := by
  rw [isLeaf, h.isLastToken_eq, h.isContainer_eq]
  cases hcontainer : n.isContainer with
  | true =>
    obtain ⟨m, member, hmember, -⟩ := h.member hcontainer
    simp [hmember]
  | false =>
    cases after with
    | nil => simp [(h.ends hcontainer).1]
    | cons following rest =>
      obtain ⟨id, n', hnext, -⟩ := h.next hcontainer
      simp [hnext]

/-- The leaf is no container and belongs to the last segment. -/
theorem exists_leaf (h : c.Goes leaf done token after n) :
    ∃ end', c.tree.node? leaf = some end' ∧ end'.isContainer = false
      ∧ end'.tokenIndex = done.length + after.length := by
  have hat : c.tree.At (some (c.tree.onward c.nodeId token)) (done.length + 1) := by
    cases hcontainer : n.isContainer with
    | true =>
      have hnumber := h.numbered.1
      rw [← hnumber]
      exact h.wellFormed.at_next h.node (h.fits hcontainer) (h.index.trans hnumber.symm)
    | false =>
      rw [h.onward_of_plain hcontainer]
      exact ⟨n, h.node, hcontainer, by rw [h.index]⟩
  obtain ⟨end', hend, hplain, hindex⟩ := h.wellFormed.at_follow? hat h.numbered.2 h.leads
  exact ⟨end', hend, hplain, by omega⟩

theorem isLeafParent_iff (h : c.Goes leaf done token after n) :
    c.isLeafParent = true ↔ c.descend? = some (c.withNode leaf) := by
  obtain ⟨end', hend, hplain, hindex⟩ := h.exists_leaf
  have hid {id : Nat} : c.withNode id = c.withNode leaf ↔ id = leaf :=
    ⟨fun he => congrArg nodeId he, fun he => he ▸ rfl⟩
  have hatLeaf {id : Nat} {n' : Node} (hn' : c.tree.node? id = some n') (he : id = leaf) :
      n' = end' := by
    rw [he, hend] at hn'
    exact (Option.some.inj hn').symm
  rw [isLeafParent, h.isLastToken_eq, h.isContainer_eq]
  cases hcontainer : n.isContainer with
  | true =>
    obtain ⟨m, member, hmember, hgoes, -, honward⟩ := h.member hcontainer
    rw [hmember, Option.some.injEq, hid]
    cases after with
    | nil =>
      have hleads := h.leads
      rw [Tree.follow?, Option.some.injEq, Option.some.injEq, ← honward] at hleads
      simp [hleads]
    | cons following rest =>
      -- The member belongs to this segment, and the leaf to a later one.
      refine iff_of_false (by simp) fun he => ?_
      rw [← hatLeaf hgoes.node he, hgoes.index, List.length_cons] at hindex
      omega
  | false =>
    cases after with
    | nil => simp [(h.ends hcontainer).1]
    | cons following rest =>
      obtain ⟨id, n', hnext, hgoes, hsame⟩ := h.next hcontainer
      have hlast : (c.tokenIndex + 1 != c.chain.lastIndex) = !rest.isEmpty := by
        rw [Chain.lastIndex, h.tokenIndex_eq, h.tokens]
        cases rest <;> simp
      rw [hnext, Option.some.injEq, hid, hlast]
      cases rest with
      | nil =>
        have hfollowing : c.chain.tokens.getLast? = some following := by
          rw [h.tokens, List.getLast?_append]
          rfl
        rw [hfollowing, Option.map_some, Option.getD_some, hsame]
        cases hcontainer' : n'.isContainer with
        | false =>
          have hleaf : id = leaf := (hgoes.ends hcontainer').2
          simp [hleaf]
        | true =>
          refine iff_of_false (by simp) fun he => ?_
          rw [← hatLeaf hgoes.node he, hcontainer'] at hplain
          cases hplain
      | cons later others =>
        refine iff_of_false (by simp) fun he => ?_
        rw [← hatLeaf hgoes.node he, hgoes.index, List.length_append, List.length_cons,
          List.length_cons] at hindex
        simp at hindex

end Goes

section Count

variable {walk : List Cursor} {tokens : List Token} {k : Nat}

theorem ancestral_iff (h : walk.map place = stops 0 tokens) :
    (tokens.take k).any Token.isContainer = true
      ↔ ∃ d ∈ walk, d.isContainer = true ∧ d.tokenIndex < k := by
  have hcount := countP_stops_lt 0 k tokens
  rw [Nat.zero_add, ← h, List.countP_map] at hcount
  rw [List.any_eq_true, ← List.countP_pos_iff, ← hcount, List.countP_pos_iff]
  simp only [Function.comp_apply, Bool.and_eq_true, decide_eq_true_eq]
  exact Iff.rfl

theorem remaining_eq (h : walk.map place = stops 0 tokens) :
    (tokens.drop k).countP Token.isContainer
      = walk.countP fun d => d.isContainer && decide (k ≤ d.tokenIndex) := by
  have hcount := countP_stops_ge 0 k tokens
  rw [Nat.zero_add, ← h, List.countP_map] at hcount
  exact hcount.symm

theorem descendant_iff (h : walk.map place = stops 0 tokens) :
    (tokens.drop (k + 1)).any Token.isContainer = true
      ↔ ∃ d ∈ walk, d.isContainer = true ∧ k < d.tokenIndex := by
  rw [List.any_eq_true, ← List.countP_pos_iff, remaining_eq h, List.countP_pos_iff]
  simp only [Bool.and_eq_true, decide_eq_true_eq, Nat.add_one_le_iff]

end Count

/-- A chain that leads to a leaf has a first node, and the cursor there goes along the chain. -/
theorem goes_first {t : Tree} (h : t.WellFormed) {chain : Chain} (hproper : chain.Proper)
    {leaf : Nat} (hleads : t.follow? none chain.tokens = some (some leaf)) :
    ∃ id n token after, atFirst? t chain = some ⟨t, chain, id⟩ ∧ chain.tokens = token :: after
      ∧ (⟨t, chain, id⟩ : Cursor).Goes leaf [] token after n ∧ token.isContainer = n.isContainer
      ∧ n.parent = none := by
  cases htokens : chain.tokens with
  | nil => exact absurd htokens hproper.nonempty
  | cons token after =>
    rw [htokens] at hleads
    obtain ⟨id, n, hchild, hn, hfits, hrest⟩ := Tree.follow?_cons hleads
    obtain ⟨hindex, -⟩ := h.tokenIndex_of_childOf? (show t.At none 0 from rfl) hchild hn
    obtain ⟨n', hn', hparent, -⟩ := h.childOf?_eq_some_iff.mp hchild
    rw [hn, Option.some.injEq] at hn'
    have hfirst : atFirst? t chain = some ⟨t, chain, id⟩ := by
      have hid : t.firstNode? token.name = some id := hchild
      simp [atFirst?, htokens, hid]
    refine ⟨id, n, token, after, hfirst, rfl, ?_, Resolve.isContainer_of_fits hfits, hn' ▸ hparent⟩
    exact ⟨h, htokens, htokens ▸ hproper.numbered, hn, hindex, fun _ => hfits, hrest⟩

end Cursor

namespace Tree

/-- A walk along any chain: it goes down as far as there are nodes, has at most two stops for each
segment, and always stands at a node of the segment that it is at. -/
structure WalkSafe (t : Tree) (calls : List Call) (chain : Chain) : Prop where
  /-- the walk is all that going down comes to -/
  complete : ∀ k, (t.walk chain)[k]?
    = (Cursor.atFirst? t chain).bind fun first => first.descendTimes k
  length_le : (t.walk chain).length ≤ 2 * chain.length
  /-- the field of the node is what some source answered for the name of the segment -/
  segment : ∀ c ∈ t.walk chain, c.tokenIndex < chain.length ∧ ∃ n token, c.node? = some n
    ∧ c.token? = some token ∧ answeredIn calls token.name n.field
  name : (∀ source text, Call.resolve source text ∈ calls → source.Binds) →
    ∀ c ∈ t.walk chain, c.token?.map (·.name) = c.node?.map (·.field.name)
  undo : ∀ c ∈ t.walk chain, ∀ next, c.descend? = some next → next.parent? = some c

/-- A walk along a chain that leads to a leaf: it ends there, and what cursors say about their
places is so on the walk. -/
structure WalkTells (t : Tree) (chain : Chain) (leaf : Nat) : Prop where
  ends : (t.walk chain).getLast? = some ⟨t, chain, leaf⟩
  isLeaf_iff : ∀ c ∈ t.walk chain, c.isLeaf = true ↔ c.descend? = none
  isLeafParent_iff : ∀ c ∈ t.walk chain,
    c.isLeafParent = true ↔ c.descend? = some ⟨t, chain, leaf⟩
  ancestral_iff : ∀ c ∈ t.walk chain, c.hasAncestralContainer = true
    ↔ ∃ d ∈ t.walk chain, d.isContainer = true ∧ d.tokenIndex < c.tokenIndex
  descendant_iff : ∀ c ∈ t.walk chain, c.hasDescendantContainer = true
    ↔ ∃ d ∈ t.walk chain, d.isContainer = true ∧ c.tokenIndex < d.tokenIndex
  remaining_eq : ∀ c ∈ t.walk chain, c.remainingContainers
    = (t.walk chain).countP fun d => d.isContainer && decide (c.tokenIndex ≤ d.tokenIndex)
  count_eq : ∀ c ∈ t.walk chain, c.containerCount
    = (t.ancestors leaf).countP fun id => ((t.node? id).map Node.isContainer).getD false

variable {t : Tree}

theorem WellFormed.walkTells (h : t.WellFormed) {chain : Chain} (hproper : chain.Proper)
    {leaf : Nat} (hleads : t.follow? none chain.tokens = some (some leaf)) :
    t.WalkTells chain leaf := by
  obtain ⟨id, n, token, after, hfirst, htokens, hgoes, hfield, hparent⟩ :=
    Cursor.goes_first h hproper hleads
  have hwalk : t.walk chain = (⟨t, chain, id⟩ : Cursor).walkFrom (2 * chain.length) := by
    simp only [walk, hfirst]
  have hsteps : 2 * (token :: after).length ≤ 2 * chain.length :=
    Nat.le_of_eq (by rw [Chain.length, htokens])
  obtain ⟨hstops, hlast⟩ := hgoes.walkFrom hfield hsteps
  rw [← hwalk] at hstops hlast
  rw [List.length_nil, ← htokens] at hstops
  have hall : ∀ c ∈ t.walk chain, c.tree = t ∧ c.chain = chain
      ∧ ∃ done token after n, c.Goes leaf done token after n := by
    intro c hc
    obtain ⟨htree, hchain, -⟩ := h.sits_of_mem_walk hc
    exact ⟨htree, hchain, hgoes.of_mem_walkFrom (hwalk ▸ hc)⟩
  have hleaf {c : Cursor} (hc : c ∈ t.walk chain) : c.withNode leaf = ⟨t, chain, leaf⟩ := by
    obtain ⟨htree, hchain, -⟩ := hall c hc
    rw [Cursor.withNode, htree, hchain]
  refine ⟨hlast, fun c hc => ?_, fun c hc => ?_, fun c hc => ?_, fun c hc => ?_, fun c hc => ?_,
    fun c hc => ?_⟩
  · obtain ⟨-, -, _, _, _, _, hc'⟩ := hall c hc
    exact hc'.isLeaf_iff
  · obtain ⟨-, -, _, _, _, _, hc'⟩ := hall c hc
    rw [hc'.isLeafParent_iff, hleaf hc]
  · rw [Cursor.hasAncestralContainer, (hall c hc).2.1, Cursor.ancestral_iff hstops]
  · rw [Cursor.hasDescendantContainer, (hall c hc).2.1, Cursor.descendant_iff hstops]
  · rw [Cursor.remainingContainers, (hall c hc).2.1, Cursor.remaining_eq hstops]
  · obtain ⟨htree, hchain, n', token', hsits⟩ := Cursor.sits_first h hfirst
    have habove : t.ancestors leaf = _ := Cursor.ancestors_walkFrom hsits (hwalk ▸ hlast)
    have hroot : (t.ancestors id).tail = [] := by
      rw [h.ancestors_eq hgoes.node, hparent]
      rfl
    have hids : t.ancestors leaf = ((t.walk chain).map Cursor.nodeId).reverse := by
      rw [habove, hroot, List.append_nil, hwalk]
    have hcount := Cursor.remaining_eq (k := 0) hstops
    rw [List.drop_zero] at hcount
    rw [Cursor.containerCount, (hall c hc).2.1, Chain.containerCount, hcount, hids,
      List.countP_reverse, List.countP_map]
    refine List.countP_congr fun d hd => ?_
    have hcontainer : d.isContainer = ((t.node? d.nodeId).map Node.isContainer).getD false := by
      rw [Cursor.isContainer, Cursor.node?, (hall d hd).1]
    simp [hcontainer]

/-- Walks go along chains in every tree, whatever was done to it since it was empty: safely along
any chain, and to the leaf along the chains that were resolved. -/
theorem walks_after (side : Side) (rootType : TypeRef) (overrides : List (String × String))
    (calls : List Call) :
    (∀ chain, ((fresh side rootType overrides).after calls).WalkSafe calls chain)
      ∧ ∀ found ∈ (fresh side rootType overrides).resolved calls,
        ((fresh side rootType overrides).after calls).WalkTells found.1 found.2 := by
  have hfresh := wellFormed_fresh side rootType overrides
  have h := hfresh.after calls
  have hsegment {chain : Chain} {c : Cursor}
      (hc : c ∈ ((fresh side rootType overrides).after calls).walk chain) :
      c.tokenIndex < chain.length ∧ ∃ n token, c.node? = some n ∧ c.token? = some token
        ∧ answeredIn calls token.name n.field := by
    obtain ⟨htree, rfl, n, token, hsits⟩ := h.sits_of_mem_walk hc
    refine ⟨hsits.tokenIndex_lt, n, token, hsits.node, hsits.token?_eq, ?_⟩
    have hn : ((fresh side rootType overrides).after calls).node? c.nodeId = some n :=
      htree ▸ hsits.node
    obtain ⟨name, hname, hanswer⟩ := answeredIn_after side rootType overrides calls hn
    rw [← htree, hsits.name, Option.some.injEq] at hname
    rwa [hname]
  refine ⟨fun chain => ⟨h.getElem?_walk chain, length_walk_le _ chain, fun c hc => hsegment hc,
    ?_, ?_⟩, ?_⟩
  · intro hbinds c hc
    obtain ⟨-, n, token, hn, htoken, source, text, owner, hmem, hfield⟩ := hsegment hc
    rw [hn, htoken, Option.map_some, Option.map_some, hbinds source text hmem _ _ _ hfield]
  · intro c hc next hdescend
    obtain ⟨-, -, n, token, hsits⟩ := h.sits_of_mem_walk hc
    exact (hsits.descend hdescend).2.2.1
  · intro found hfound
    obtain ⟨hproper, hleads⟩ := hfresh.follow?_resolved hfound
    exact h.walkTells hproper hleads

/-- A schema with lists in lists. -/
def depot : Schema where
  types :=
    [("Depot", ⟨.object, [("orders", ⟨"List", .list, [⟨"Order", .object, []⟩]⟩)]⟩),
     ("Order", ⟨.object, [("items", ⟨"List", .list, [⟨"Item", .object, []⟩]⟩),
       ("code", ⟨"String", .scalar, []⟩)]⟩),
     ("Item", ⟨.object, [("sku", ⟨"String", .scalar, []⟩)]⟩)]

/-- Two chains that share their first nodes. -/
def depotCalls : List Call :=
  [.resolve depot.introspector "orders[*].items[*].sku",
   .resolve depot.introspector "orders[*].code"]

/-- `orders[*].items[*].sku` as it is read. -/
def itemSku : Chain where
  text := "orders[*].items[*].sku"
  tokens :=
    [⟨"orders[*]", "orders", 0, ⟨0, 9⟩, .collection none none, none⟩,
     ⟨"items[*]", "items", 1, ⟨10, 18⟩, .collection none none, none⟩,
     ⟨"sku", "sku", 2, ⟨19, 22⟩, .plain, none⟩]

/-- The longer chain stops at both lists, at their members and at its leaf. -/
theorem walks_after_depot :
    (((fresh .source ⟨"Depot", .object, []⟩ []).after depotCalls).walk itemSku).map (·.nodeId)
        = [0, 1, 2, 3, 4]
      ∧ ((fresh .source ⟨"Depot", .object, []⟩ []).after depotCalls).WalkTells itemSku 4
      ∧ ∀ c ∈ ((fresh .source ⟨"Depot", .object, []⟩ []).after depotCalls).walk itemSku,
        c.token?.map (·.name) = c.node?.map (·.field.name) := by
  obtain ⟨hsafe, htells⟩ := walks_after .source ⟨"Depot", .object, []⟩ [] depotCalls
  refine ⟨by decide +kernel, htells (itemSku, 4) (by decide +kernel), ?_⟩
  refine (hsafe itemSku).name fun source text hmem => ?_
  obtain rfl : source = depot.introspector := by
    simp only [depotCalls, List.mem_cons, Call.resolve.injEq, List.not_mem_nil, or_false] at hmem
    exact hmem.elim And.left And.left
  exact depot.binds_introspector

end Tree
end ChainMapping
