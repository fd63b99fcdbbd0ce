import ChainMapping.Proofs.Ending
import ChainMapping.Proofs.Index.Walk

/-!
# Filling an index

Indexing a chain fills a tree that others have been at before.  What it does to the tree depends on
the tree only through `IndexNode.graft`: it grafts the nodes that the walk of the chain finds, or
ends with the error of the walk.  The one thing that can come between is the limit on nodes.

`Indexing.Grafts` is this statement for any step of indexing, and every way of putting steps
together has its law.
-/

namespace ChainMapping
namespace Indexing

/-- Whatever is in the node being filled, the step grafts the nodes given into it, or ends with the
error given or at the limit. -/
def Grafts (m : Indexing Unit) (found : Except IndexingError (List IndexNode)) : Prop :=
  ∀ w : IndexWork, w.node.Distinct →
    Ends m w (fun _ w' => ∃ nodes, found = .ok nodes ∧ w'.node = w.node.graft nodes)
      (fun e _ => e = .nodeLimitExceeded ∨ found = .error e)

theorem grafts_pure : Grafts (pure ()) (.ok []) :=
  fun _ _ => ⟨[], rfl, (IndexNode.graft_nil _).symm⟩

theorem Grafts.andThen {m m' : Indexing Unit} {found found' : Except IndexingError (List IndexNode)}
    (h : Grafts m found) (h' : Grafts m' found') :
    Grafts (do m; m') (do
      let first ← found
      let others ← found'
      return first ++ others) := by
  intro w hw
  refine Ends.bind ((h w hw).mono (fun _ _ hok => hok) ?_) ?_
  · intro e w₁ hcase
    rcases hcase with hlimit | herror
    · exact .inl hlimit
    · exact .inr (by rw [herror]; rfl)
  · rintro ⟨⟩ w₁ ⟨nodes, rfl, hnode⟩
    have hw₁ : w₁.node.Distinct := hnode ▸ hw.graft nodes
    refine (h' w₁ hw₁).mono ?_ ?_
    · intro _ w₂ hcase
      obtain ⟨nodes', rfl, hnode'⟩ := hcase
      exact ⟨nodes ++ nodes', rfl, by rw [hnode', hnode, IndexNode.graft_append]⟩
    · intro e w₂ hcase
      rcases hcase with hlimit | rfl
      · exact .inl hlimit
      · exact .inr rfl

theorem grafts_liftError {α : Type} {answer : Except IndexingError α} {f : α → Indexing Unit}
    {found : α → Except IndexingError (List IndexNode)}
    (h : ∀ a, answer = .ok a → Grafts (f a) (found a)) :
    Grafts (liftError answer >>= f) (answer >>= found) := by
  cases answer with
  | error e => exact fun _ _ => .inr rfl
  | ok a => exact h a rfl

theorem countNode_eq (w : IndexWork) :
    countNode w = if Limits.indexedNodes ≤ w.created then .error .nodeLimitExceeded w
      else .ok () { w with created := w.created + 1 } := by
  show (if Limits.indexedNodes ≤ w.created then do
      throw .nodeLimitExceeded
      modify fun w => { w with created := w.created + 1 }
    else (modify fun w => { w with created := w.created + 1 } : Indexing Unit)) w = _
  by_cases h : Limits.indexedNodes ≤ w.created
  · rw [if_pos h, if_pos h]
    rfl
  · rw [if_neg h, if_neg h]
    rfl

theorem ends_attach_counted (child : IndexNode) (w : IndexWork) :
    Ends (attach child) w
      (fun _ w' => w' = ⟨w.node.push child, w.created + 1⟩ ∧ w'.created ≤ Limits.indexedNodes)
      (fun e _ => e = .nodeLimitExceeded) := by
  have hcount : Ends countNode w
      (fun _ w' => w' = { w with created := w.created + 1 } ∧ w'.created ≤ Limits.indexedNodes)
      (fun e _ => e = .nodeLimitExceeded) := by
    rw [Ends, countNode_eq]
    by_cases h : Limits.indexedNodes ≤ w.created
    · simp [h]
    · simp only [h, if_false, true_and]
      omega
  refine Ends.bind hcount fun _ w₁ hw₁ => ?_
  obtain ⟨rfl, hle⟩ := hw₁
  exact ⟨rfl, hle⟩

theorem ends_attach (child : IndexNode) (w : IndexWork) :
    Ends (attach child) w (fun _ w' => w'.node = w.node.push child)
      (fun e _ => e = .nodeLimitExceeded) :=
  (ends_attach_counted child w).mono (fun _ _ hok => congrArg IndexWork.node hok.1)
    fun _ _ hlimit => hlimit

/-- Looking for a child changes nothing. -/
theorem child?_bind {α : Type} (id : String) (f : Option IndexNode → Indexing α) (w : IndexWork) :
    (child? id >>= f) w = f (w.node.child? id) w := rfl

section Child

variable {id : String} {w : IndexWork}

theorem ensure_of_some {c : IndexNode} (hc : w.node.child? id = some c) (value : Value) :
    ensure id value w = (pure () : Indexing Unit) w := by
  rw [ensure, child?_bind, hc]
  rfl

theorem ensure_of_none (hc : w.node.child? id = none) (value : Value) :
    ensure id value w = attach ⟨id, value, []⟩ w := by
  rw [ensure, child?_bind, hc]
  rfl

theorem fillChild_of_some {c : IndexNode} (hc : w.node.child? id = some c) (value : Value)
    (fill : Indexing Unit) : fillChild id value fill w = within c fill w := by
  rw [fillChild, child?_bind, hc]

theorem fillChild_of_none (hc : w.node.child? id = none) (value : Value) (fill : Indexing Unit) :
    fillChild id value fill w = attachFilled ⟨id, value, []⟩ fill w := by
  rw [fillChild, child?_bind, hc]

end Child

/-- A child that is there stays, and one that is not is attached. -/
theorem grafts_ensure (id : String) (value : Value) :
    Grafts (ensure id value) (.ok [⟨id, value, []⟩]) := by
  intro w hw
  cases hc : w.node.child? id with
  | some c =>
    have hsame : w.node.graft [⟨id, value, []⟩] = w.node := by
      rw [IndexNode.graft_singleton_of_some hc, IndexNode.graft_nil,
        IndexNode.replace_child (hw []) hc]
    exact Ends.congr (ensure_of_some hc value) (Ends.pure ⟨_, rfl, hsame.symm⟩)
  | none =>
    refine Ends.congr (ensure_of_none hc value)
      ((ends_attach _ w).mono (fun _ w' hnode => ⟨_, rfl, ?_⟩) fun _ _ => .inl)
    rw [hnode, IndexNode.graft_singleton_of_none hc, IndexNode.graft_nil]

section FillChild

variable {fill : Indexing Unit} {found : Except IndexingError (List IndexNode)} {id : String}
  {w : IndexWork}

/-- A child that is there is filled in its place. -/
theorem Grafts.within (h : Grafts fill found) (hw : w.node.Distinct) {c : IndexNode}
    (hc : w.node.child? id = some c) (value : Value) :
    Ends (within c fill) w
      (fun _ w' => ∃ nodes, found.map (Index.keep id value) = .ok nodes
        ∧ w'.node = w.node.graft nodes)
      (fun e _ => e = .nodeLimitExceeded ∨ found.map (Index.keep id value) = .error e) := by
  have hfill := h { w with node := c } (hw.child hc)
  unfold Ends Indexing.within
  unfold Ends at hfill
  cases hm : fill { w with node := c } with
  | error e w' =>
    rw [hm] at hfill
    exact hfill.imp_right fun he => by rw [he]; rfl
  | ok u w' =>
    rw [hm] at hfill
    obtain ⟨nodes, rfl, hnode⟩ := hfill
    refine ⟨Index.keep id value nodes, rfl, ?_⟩
    show w.node.replace w'.node = w.node.graft (Index.keep id value nodes)
    rw [hnode]
    cases nodes with
    | nil =>
      rw [IndexNode.graft_nil, IndexNode.replace_child (hw []) hc]
      exact (IndexNode.graft_nil _).symm
    | cons x rest => exact (IndexNode.graft_singleton_of_some hc value _).symm

/-- A new child is filled first, and attached if there is something in it then. -/
theorem Grafts.attachFilled (h : Grafts fill found) (hc : w.node.child? id = none)
    (value : Value) :
    Ends (attachFilled ⟨id, value, []⟩ fill) w
      (fun _ w' => ∃ nodes, found.map (Index.keep id value) = .ok nodes
        ∧ w'.node = w.node.graft nodes)
      (fun e _ => e = .nodeLimitExceeded ∨ found.map (Index.keep id value) = .error e) := by
  have hfill := h { w with node := ⟨id, value, []⟩ } (IndexNode.distinct_leaf id value)
  unfold Ends Indexing.attachFilled
  unfold Ends at hfill
  cases hm : fill { w with node := ⟨id, value, []⟩ } with
  | error e w' =>
    rw [hm] at hfill
    exact hfill.imp_right fun he => by rw [he]; rfl
  | ok u w' =>
    rw [hm] at hfill
    obtain ⟨nodes, rfl, hnode⟩ := hfill
    simp only
    cases nodes with
    | nil =>
      have hempty : w'.node.hasChildren = false := by
        rw [hnode, IndexNode.graft_nil]
        rfl
      simp only [hempty, Bool.false_eq_true, if_false]
      exact ⟨[], rfl, (IndexNode.graft_nil _).symm⟩
    | cons x rest =>
      have hfull : w'.node.hasChildren = true := by
        rw [hnode]
        exact IndexNode.hasChildren_graft (by simp)
      simp only [hfull, if_true]
      refine (ends_attach w'.node { w' with node := w.node }).mono
        (fun _ w₁ hpush => ⟨_, rfl, ?_⟩) fun _ _ => .inl
      rw [hpush, hnode]
      exact (IndexNode.graft_singleton_of_none hc value _).symm

/-- A child is filled with the nodes found, and only stays if it was there or there are any. -/
theorem Grafts.fillChild (h : Grafts fill found) (id : String) (value : Value) :
    Grafts (fillChild id value fill) (found.map (Index.keep id value)) := by
  intro w hw
  cases hc : w.node.child? id with
  | some c => exact Ends.congr (fillChild_of_some hc value fill) (h.within hw hc value)
  | none => exact Ends.congr (fillChild_of_none hc value fill) (h.attachFilled hc value)

end FillChild

end Indexing

namespace Index

open Indexing (Grafts)

theorem grafts_forElements {f : String → Value → Bool → Indexing Unit}
    {nested : Option (Value → Except IndexingError (List IndexNode))}
    (h : ∀ id v addressed, Grafts (f id v addressed) (fromElement nested id v addressed))
    (els : List (String × Value × Bool)) : Grafts (forElements f els) (gather nested els) := by
  induction els with
  | nil => exact Indexing.grafts_pure
  | cons el rest ih => exact (h el.1 el.2.1 el.2.2).andThen ih

theorem grafts_element {fill : Value → Indexing Unit}
    {find : Value → Except IndexingError (List IndexNode)} (h : ∀ u, Grafts (fill u) (find u))
    (id : String) (u : Value) (addressed : Bool) :
    Grafts (element (some fill) id u addressed) (fromElement (some find) id u addressed) := by
  cases addressed with
  | false => exact Indexing.grafts_ensure id u
  | true => exact (h u).fillChild id u

theorem grafts_element_last (id : String) (u : Value) (addressed : Bool) :
    Grafts (element none id u addressed) (fromElement none id u addressed) := by
  cases addressed <;> exact Indexing.grafts_ensure id u

theorem map_keep (id : String) (v : Value) (found : Except IndexingError (List IndexNode)) :
    found.map (keep id v) = (do let nodes ← found; return keep id v nodes) := by
  cases found <;> rfl

/-- From an instance, what the walk finds is grafted. -/
theorem grafts_descend {source : IndexSource} {fuel : Nat} {levels : List ChainLevel}
    (hfuel : levels.length ≤ fuel) {c : Cursor} (hc : c.Follows levels) (path : List Nat)
    (v : Value) : Grafts (descend source fuel path c v) (walk source levels path v) := by
  induction levels generalizing fuel c path v with
  | nil => exact hc.elim
  | cons level rest ih =>
    obtain ⟨c', next, hkey, hread, hvisit, hnext⟩ := hc
    cases fuel with
    | zero => simp at hfuel
    | succ fuel =>
      have helement (id : String) (u : Value) (addressed : Bool) :
          Grafts (element (next.map fun c'' u => do
              let path ← Indexing.liftError (enter source path u)
              descend source fuel path c'' u) id u addressed)
            (fromElement (nestedWalk source rest path) id u addressed) := by
        cases next with
        | none =>
          have hrest : rest = [] := hnext
          subst hrest
          exact grafts_element_last id u addressed
        | some c'' =>
          have hrest : rest.isEmpty = false := by
            cases rest with
            | nil => exact hnext.elim
            | cons _ _ => rfl
          rw [nestedWalk, hrest, if_neg (by simp)]
          refine grafts_element (fun u => Indexing.grafts_liftError fun path' _ => ?_) id u
            addressed
          exact ih (Nat.le_of_succ_le_succ hfuel) hnext path' u
      unfold descend walk
      rw [hread]
      cases hr : source.store.readAlong level.fields v with
      | error e => exact fun _ _ => .inr rfl
      | ok found =>
        cases found with
        | none => exact Indexing.grafts_pure
        | some container =>
          show Grafts (if source.store.isEmptyContainer container then pure () else _)
            (if source.store.isEmptyContainer container then pure [] else _)
          split
          · exact Indexing.grafts_pure
          · rw [hvisit, hkey]
            cases hcheck : level.check container with
            | error e => exact fun _ _ => .inr rfl
            | ok _ =>
              have hfill := (grafts_forElements helement
                (elements source.store container level.side)).fillChild level.key container
              rw [map_keep] at hfill
              exact hfill

/-- What a chain of a tree finds from an instance. -/
def found (source : IndexSource) (tree : Tree) (c : Chain) (v : Value) :
    Except IndexingError (List IndexNode) := do
  let path ← enter source [] v
  walk source (tree.levels none c.tokens) path v

/-- Indexing a chain that has been resolved grafts what the chain finds. -/
theorem grafts_chain (source : IndexSource) {tree : Tree} {c : Chain} (h : tree.WellFormed)
    (hc : tree.Resolves c) (hany : c.tokens.any Token.isContainer = true) (v : Value) :
    Grafts (chain source tree c v) (found source tree c v) := by
  obtain ⟨last, hleads⟩ := hc.leads
  obtain ⟨first, hfirst, hfollows⟩ := h.follows_levels hc.proper hleads hany
  have hdepth : (tree.levels none c.tokens).length ≤ Limits.indexDepth :=
    Nat.le_trans (tree.length_levels_le none c.tokens) hc.proper.length_le
  unfold chain found
  rw [hfirst]
  exact Indexing.grafts_liftError fun path _ => grafts_descend hdepth hfollows path v

end Index
end ChainMapping
