import ChainMapping.Index.Object
import ChainMapping.Proofs.Index.Filling

/-!
# A pass over the chains of a mapping

A pass grafts what one chain after the other finds into one tree, and leaves out chains that agree
with an earlier one up to their last container.  `Index.gathered` is what the pass grafts when it is
looked at without the tree.

Leaving a chain out makes no difference: the chain finds what the earlier one found, and nodes that
are grafted a second time change neither a value nor the order of children.
-/

namespace ChainMapping

theorem addNew_of_subset {texts more : List String} (h : ∀ text ∈ more, text ∈ texts) :
    addNew texts more = texts := by
  induction more with
  | nil => rfl
  | cons text rest ih =>
    rw [addNew, if_pos (h text List.mem_cons_self)]
    exact ih fun other hmem => h other (List.mem_cons_of_mem _ hmem)

namespace Index

/-- Lists of nodes that leave the same values and the same children in the same order. -/
structure Alike (nodes nodes' : List IndexNode) : Prop where
  value : ∀ path, IndexNode.valueIn? nodes path = IndexNode.valueIn? nodes' path
  ids : ∀ path, addNew [] (IndexNode.idsIn nodes path) = addNew [] (IndexNode.idsIn nodes' path)

namespace Alike

variable {nodes nodes' nodes'' : List IndexNode}

theorem refl (nodes : List IndexNode) : Alike nodes nodes := ⟨fun _ => rfl, fun _ => rfl⟩

theorem trans (h : Alike nodes nodes') (h' : Alike nodes' nodes'') : Alike nodes nodes'' :=
  ⟨fun path => (h.value path).trans (h'.value path), fun path => (h.ids path).trans (h'.ids path)⟩

theorem symm (h : Alike nodes nodes') : Alike nodes' nodes :=
  ⟨fun path => (h.value path).symm, fun path => (h.ids path).symm⟩

theorem append (h : Alike nodes nodes') (more : List IndexNode) :
    Alike (nodes ++ more) (nodes' ++ more) where
  value path := by rw [IndexNode.valueIn?_append, IndexNode.valueIn?_append, h.value]
  ids path := by
    rw [IndexNode.idsIn_append, IndexNode.idsIn_append, addNew_append, addNew_append, h.ids]

end Alike

/-- Nodes that are there already can be left out. -/
theorem alike_of_present {nodes more : List IndexNode} (h : more <:+: nodes) :
    Alike (nodes ++ more) nodes := by
  obtain ⟨before, after, rfl⟩ := h
  constructor
  · intro path
    simp only [IndexNode.valueIn?_append]
    cases IndexNode.valueIn? before path <;> cases IndexNode.valueIn? more path <;> simp
  · intro path
    rw [IndexNode.idsIn_append, addNew_append, addNew_of_subset]
    intro id hid
    rw [mem_addNew, IndexNode.idsIn_append, IndexNode.idsIn_append]
    exact .inr (List.mem_append_left _ (List.mem_append_right _ hid))

/-! ## What a pass gathers -/

section Gathered

variable (find : Chain → Except IndexingError (List IndexNode))

/-- The nodes that chains find, one chain after the other; of chains with the same normal form up to
the last container only the first is asked. -/
def gathered : List Chain → (seen : List String) → Except (Chain × IndexingError) (List IndexNode)
  | [], _ => .ok []
  | c :: rest, seen =>
    match c.lastContainerIndex? with
    | none => gathered rest seen
    | some last =>
      if seen.contains (c.normalPrefix last) then gathered rest seen
      else
        match find c with
        | .error e => .error (c, e)
        | .ok nodes => (gathered rest (c.normalPrefix last :: seen)).map (nodes ++ ·)

/-- The error of a chain that meets a container. -/
def failure? (c : Chain) : Option (Chain × IndexingError) :=
  match c.lastContainerIndex?, find c with
  | some _, .error e => some (c, e)
  | _, _ => none

/-- The nodes of a chain that meets a container. -/
def share (c : Chain) : List IndexNode :=
  match c.lastContainerIndex?, find c with
  | some _, .ok nodes => nodes
  | _, _ => []

/-- What a pass should come to after nodes that are there before: the error of the first chain that
has one, or what all chains find. -/
def Covers (chains : List Chain) (before : List IndexNode) :
    Except (Chain × IndexingError) (List IndexNode) → Prop
  | .error failed => chains.findSome? (failure? find) = some failed
  | .ok nodes => chains.findSome? (failure? find) = none
      ∧ Alike (before ++ nodes) (before ++ chains.flatMap (share find))

variable {find}

theorem covers_cons_of_ok {c : Chain} {rest : List Chain} {before nodes : List IndexNode}
    {result : Except (Chain × IndexingError) (List IndexNode)} (hfailure : failure? find c = none)
    (hshare : share find c = nodes) (h : Covers find rest (before ++ nodes) result) :
    Covers find (c :: rest) before (result.map (nodes ++ ·)) := by
  cases result with
  | error failed =>
    show (c :: rest).findSome? _ = _
    rw [List.findSome?_cons, hfailure]
    exact h
  | ok more =>
    refine ⟨?_, ?_⟩
    · rw [List.findSome?_cons, hfailure]
      exact h.1
    · rw [List.flatMap_cons, hshare, ← List.append_assoc, ← List.append_assoc]
      exact h.2

theorem covers_cons_of_left_out {c : Chain} {rest : List Chain} {before nodes : List IndexNode}
    {result : Except (Chain × IndexingError) (List IndexNode)} (hfailure : failure? find c = none)
    (hshare : share find c = nodes) (hpresent : nodes <:+: before)
    (h : Covers find rest before result) : Covers find (c :: rest) before result := by
  cases result with
  | error failed =>
    show (c :: rest).findSome? _ = _
    rw [List.findSome?_cons, hfailure]
    exact h
  | ok more =>
    refine ⟨?_, ?_⟩
    · rw [List.findSome?_cons, hfailure]
      exact h.1
    · rw [List.flatMap_cons, hshare, ← List.append_assoc]
      exact h.2.trans ((alike_of_present hpresent).append _).symm

/-- A pass covers its chains, if chains with the same normal form up to the last container find the
same and those seen before have left their nodes. -/
theorem covers_gathered {chains : List Chain} {seen : List String}
    (hfind : ∀ c ∈ chains, ∀ c' ∈ chains, ∀ {last last' : Nat},
      c.lastContainerIndex? = some last → c'.lastContainerIndex? = some last' →
      c.normalPrefix last = c'.normalPrefix last' → find c = find c')
    {before : List IndexNode}
    (hseen : ∀ c ∈ chains, ∀ {last : Nat}, c.lastContainerIndex? = some last →
      c.normalPrefix last ∈ seen → ∃ nodes, find c = .ok nodes ∧ nodes <:+: before) :
    Covers find chains before (gathered find chains seen) := by
  induction chains generalizing seen before with
  | nil => exact ⟨rfl, .refl _⟩
  | cons c rest ih =>
    have hfind' := fun (b : Chain) (hb : b ∈ rest) (b' : Chain) (hb' : b' ∈ rest)
        {last last' : Nat} =>
      @hfind b (List.mem_cons_of_mem _ hb) b' (List.mem_cons_of_mem _ hb') last last'
    have hseen' := fun (b : Chain) (hb : b ∈ rest) {last : Nat} =>
      @hseen b (List.mem_cons_of_mem _ hb) last
    rw [gathered]
    cases hlast : c.lastContainerIndex? with
    | none =>
      have hfailure : failure? find c = none := by simp [failure?, hlast]
      have hshare : share find c = [] := by simp [share, hlast]
      exact covers_cons_of_left_out hfailure hshare List.nil_infix (ih hfind' hseen')
    | some last =>
      simp only
      by_cases hmem : c.normalPrefix last ∈ seen
      · obtain ⟨nodes, hok, hpresent⟩ := hseen c List.mem_cons_self hlast hmem
        have hfailure : failure? find c = none := by simp [failure?, hlast, hok]
        have hshare : share find c = nodes := by simp [share, hlast, hok]
        rw [if_pos (by simpa using hmem)]
        exact covers_cons_of_left_out hfailure hshare hpresent (ih hfind' hseen')
      · rw [if_neg (by simpa using hmem)]
        cases hc : find c with
        | error e =>
          have hfailure : failure? find c = some (c, e) := by simp [failure?, hlast, hc]
          show (c :: rest).findSome? _ = _
          rw [List.findSome?_cons, hfailure]
        | ok nodes =>
          have hfailure : failure? find c = none := by simp [failure?, hlast, hc]
          have hshare : share find c = nodes := by simp [share, hlast, hc]
          refine covers_cons_of_ok hfailure hshare (ih hfind' ?_)
          intro b hb last' hlast' hmem'
          rcases List.mem_cons.mp hmem' with heq | hmem'
          · have hsame := hfind b (List.mem_cons_of_mem _ hb) c List.mem_cons_self hlast' hlast heq
            exact ⟨nodes, hsame.trans hc, (List.suffix_append before nodes).isInfix⟩
          · obtain ⟨others, hok, hpresent⟩ := hseen' b hb hlast' hmem'
            exact ⟨others, hok, hpresent.trans (List.prefix_append before nodes).isInfix⟩

end Gathered

/-! ## What a pass leaves in the tree -/

namespace Subject

/-- The outcome of a pass that starts with a node, next to what is gathered without the tree: the
nodes are grafted, or the error names the chain where gathering ends or is that of the limit. -/
def Leaves (s : Subject) (node : IndexNode)
    (collected : Except (Chain × IndexingError) (List IndexNode)) :
    Except ExecutionError (IndexWork × Nat) → Prop
  | .ok (work, _) => ∃ nodes, collected = .ok nodes ∧ work.node = node.graft nodes
  | .error e => e.cause = .nodeLimitExceeded
      ∨ ∃ c cause, collected = .error (c, cause) ∧ e = ⟨s.mapping.id, c.text, cause⟩

theorem Leaves.graft_first {s : Subject} {node : IndexNode} {nodes : List IndexNode}
    {collected : Except (Chain × IndexingError) (List IndexNode)}
    {result : Except ExecutionError (IndexWork × Nat)}
    (h : s.Leaves (node.graft nodes) collected result) :
    s.Leaves node (collected.map (nodes ++ ·)) result := by
  cases result with
  | ok made =>
    obtain ⟨more, rfl, hnode⟩ := h
    exact ⟨nodes ++ more, rfl, by rw [hnode, IndexNode.graft_append]⟩
  | error e =>
    refine h.imp_right ?_
    intro hcase
    obtain ⟨c, cause, rfl, he⟩ := hcase
    exact ⟨c, cause, rfl, he⟩

/-- A pass leaves what is gathered from its chains. -/
theorem leaves_indexChains (s : Subject) {find : Chain → Except IndexingError (List IndexNode)}
    {chains : List Chain}
    (h : ∀ c ∈ chains, c.tokens.any Token.isContainer = true →
      Indexing.Grafts (chain s.source (s.mapping.tree s.side) c s.root) (find c))
    (work : IndexWork) (hwork : work.node.Distinct) (seen : List String) :
    s.Leaves work.node (gathered find chains seen) (s.indexChains chains work seen).1 := by
  induction chains generalizing work seen with
  | nil => exact ⟨[], rfl, (IndexNode.graft_nil _).symm⟩
  | cons c rest ih =>
    have hrest := fun (b : Chain) (hb : b ∈ rest) => h b (List.mem_cons_of_mem _ hb)
    rw [indexChains, gathered]
    cases hlast : c.lastContainerIndex? with
    | none => exact ih hrest work hwork seen
    | some last =>
      simp only
      by_cases hmem : seen.contains (c.normalPrefix last) = true
      · rw [if_pos hmem, if_pos hmem]
        exact ih hrest work hwork seen
      · rw [if_neg hmem, if_neg hmem]
        have hany := (Chain.lastContainerIndex?_eq_some hlast).2.2
        have hgrafts := h c List.mem_cons_self hany work hwork
        unfold Ends at hgrafts
        simp only [EStateM.run]
        cases hrun : chain s.source (s.mapping.tree s.side) c s.root work with
        | error e w =>
          rw [hrun] at hgrafts
          rcases hgrafts with hlimit | herror
          · exact .inl hlimit
          · rw [herror]
            exact .inr ⟨c, e, rfl, rfl⟩
        | ok u w =>
          rw [hrun] at hgrafts
          obtain ⟨nodes, hok, hnode⟩ := hgrafts
          rw [hok]
          refine Leaves.graft_first ?_
          rw [← hnode]
          exact ih hrest w (hnode ▸ hwork.graft nodes) (c.normalPrefix last :: seen)

end Subject
end Index
end ChainMapping
