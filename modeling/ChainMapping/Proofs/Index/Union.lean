import ChainMapping.Proofs.Index.Agreement
import ChainMapping.Proofs.Index.Pass
import ChainMapping.Proofs.Mapping.Compiled

/-!
# The index of an object is a union

Every chain of a mapping can be indexed alone, into a tree of its own.  The index for the whole
mapping has the nodes of all of these trees, each with its value, and nothing else; and it fails
with the error of the first chain that fails alone.  It follows that the order of the commands
decides neither which nodes there are nor what they hold.

The limit on nodes is the one thing that is not the business of a single chain, so it is set aside.
-/

namespace ChainMapping

/-- A node of an index below its root: the path of ids to it, and its value. -/
def IndexNode.Holds (n : IndexNode) (path : List String) (value : Value) : Prop :=
  path ≠ [] ∧ n.valueAt? path = some value

namespace Index

/-- The root of an index in which nothing has been indexed. -/
def blank (root : Value) : IndexNode := ⟨IndexNode.rootId, root, []⟩

/-- The index of one chain in a tree of its own. -/
def alone (source : IndexSource) (tree : Tree) (c : Chain) (root : Value) :
    Except IndexingError IndexNode :=
  match (chain source tree c root).run { node := blank root } with
  | .ok () work => .ok work.node
  | .error e _ => .error e

/-- The error of a chain of a mapping that meets a container and fails alone, with the place that it
is reported for. -/
def failsAlone (source : IndexSource) (m : Mapping) (side : Side) (root : Value) (c : Chain) :
    Option ExecutionError :=
  if 0 < c.containerCount then
    match alone source (m.tree side) c root with
    | .error cause => some ⟨m.id, c.text, cause⟩
    | .ok _ => none
  else none

/-- What an indexer reads from. -/
def sourceOf (settings : IndexerSettings) (store : Store) : IndexSource :=
  { store, detectCycles := settings.detectCycles }

/-! ## One chain -/

section Alone

variable {source : IndexSource} {tree : Tree} {c : Chain} {root : Value}

theorem containerCount_pos_iff : 0 < c.containerCount ↔ c.tokens.any Token.isContainer = true := by
  rw [Chain.containerCount, List.countP_pos_iff, List.any_eq_true]

theorem lastContainerIndex?_of_pos (h : 0 < c.containerCount) :
    ∃ last, c.lastContainerIndex? = some last := by
  cases hlast : c.lastContainerIndex? with
  | some last => exact ⟨last, rfl⟩
  | none =>
    rw [containerCount_pos_iff, Chain.lastContainerIndex?_eq_none hlast] at h
    exact absurd h (by simp)

theorem lastContainerIndex?_of_not_pos (h : ¬0 < c.containerCount) :
    c.lastContainerIndex? = none := by
  cases hlast : c.lastContainerIndex? with
  | none => rfl
  | some last =>
    exact absurd (containerCount_pos_iff.mpr (Chain.lastContainerIndex?_eq_some hlast).2.2) h

theorem alone_eq (h : tree.WellFormed) (hc : tree.Resolves c) (hcount : 0 < c.containerCount)
    (hlimit : alone source tree c root ≠ .error .nodeLimitExceeded) :
    alone source tree c root = (found source tree c root).map (blank root).graft := by
  have hgrafts := grafts_chain source h hc (containerCount_pos_iff.mp hcount) root
    { node := blank root } (IndexNode.distinct_leaf _ _)
  unfold Ends at hgrafts
  unfold alone EStateM.run at hlimit ⊢
  cases hrun : chain source tree c root { node := blank root } with
  | ok u w =>
    rw [hrun] at hgrafts
    obtain ⟨nodes, hfound, hnode⟩ := hgrafts
    rw [hfound]
    exact congrArg Except.ok hnode
  | error e w =>
    rw [hrun] at hgrafts hlimit
    rcases hgrafts with rfl | herror
    · exact absurd rfl hlimit
    · rw [herror]
      rfl

end Alone

theorem holds_graft_blank {root : Value} {nodes : List IndexNode} {path : List String}
    {value : Value} : ((blank root).graft nodes).Holds path value
      ↔ IndexNode.valueIn? nodes path = some value := by
  rw [IndexNode.Holds, IndexNode.valueAt?_graft]
  cases path with
  | nil => simp [IndexNode.valueIn?]
  | cons id rest => simp [blank, IndexNode.valueAt?_leaf]

/-! ## All chains of a mapping -/

section Object

variable {settings : IndexerSettings} {store : Store} {m : Mapping} {side : Side} {root : Value}

def subjectOf (settings : IndexerSettings) (store : Store) (m : Mapping) (side : Side)
    (root : Value) : Subject where
  mapping := m
  side := side
  root := root
  source := sourceOf settings store
  logSkipped := settings.logSkippedChains

/-- The index is the tree that the pass leaves, none if the root has no children there. -/
theorem Subject.index_eq (s : Subject) :
    s.index.1 = (s.indexChains (s.mapping.chains s.side) { node := blank s.root } []).1.map
      fun (work, _) => if work.node.hasChildren then some work.node else none := by
  unfold Subject.index blank
  simp only
  rcases s.indexChains (s.mapping.chains s.side) { node := ⟨IndexNode.rootId, s.root, []⟩ } [] with
    ⟨e | ⟨work, walked⟩, log⟩
  · rfl
  · by_cases hchildren : work.node.hasChildren = true
    · simp [hchildren, Except.map]
    · simp [hchildren, Except.map]

/-- What a chain of a mapping finds. -/
def foundIn (settings : IndexerSettings) (store : Store) (m : Mapping) (side : Side) (root : Value)
    (c : Chain) : Except IndexingError (List IndexNode) :=
  found (sourceOf settings store) (m.tree side) c root

theorem foundIn_of_normalPrefix (h : m.Ready) {c c' : Chain} (hc : c ∈ m.chains side)
    (hc' : c' ∈ m.chains side) {last last' : Nat} (hlast : c.lastContainerIndex? = some last)
    (hlast' : c'.lastContainerIndex? = some last')
    (heq : c.normalPrefix last = c'.normalPrefix last') :
    foundIn settings store m side root c = foundIn settings store m side root c' := by
  rw [foundIn, foundIn, found, found,
    Tree.levels_of_normalPrefix (h.resolves hc) (h.resolves hc') hlast hlast' heq]

/-- The three ways in which indexing an object ends. -/
theorem object_cases (h : m.Ready) :
    (∃ e, (object settings store m side root).1 = .error e ∧ e.cause = .nodeLimitExceeded)
      ∨ (∃ c cause,
        (m.chains side).findSome? (failure? (foundIn settings store m side root)) = some (c, cause)
          ∧ (object settings store m side root).1 = .error ⟨m.id, c.text, cause⟩)
      ∨ ∃ nodes, (m.chains side).findSome? (failure? (foundIn settings store m side root)) = none
        ∧ Alike nodes ((m.chains side).flatMap (share (foundIn settings store m side root)))
        ∧ (object settings store m side root).1
          = .ok (if nodes.isEmpty then none else some ((blank root).graft nodes)) := by
  have hgrafts : ∀ c ∈ m.chains side, c.tokens.any Token.isContainer = true →
      Indexing.Grafts (chain (sourceOf settings store) (m.tree side) c root)
        (foundIn settings store m side root c) :=
    fun c hc hany => grafts_chain _ (h.wellFormed side) (h.resolves hc) hany root
  have hcovers : Covers (foundIn settings store m side root) (m.chains side) []
      (gathered (foundIn settings store m side root) (m.chains side) []) :=
    covers_gathered (fun c hc c' hc' => foundIn_of_normalPrefix h hc hc')
      (fun c _ _ _ hmem => by simp at hmem)
  have hleaves := Subject.leaves_indexChains (subjectOf settings store m side root) hgrafts
    { node := blank root } (IndexNode.distinct_leaf _ _) []
  have hobject : (object settings store m side root).1
      = ((subjectOf settings store m side root).indexChains (m.chains side)
          { node := blank root } []).1.map
        fun (work, _) => if work.node.hasChildren then some work.node else none :=
    Subject.index_eq (subjectOf settings store m side root)
  rw [hobject]
  generalize ((subjectOf settings store m side root).indexChains (m.chains side)
    { node := blank root } []).1 = outcome at hleaves ⊢
  cases outcome with
  | error e =>
    rcases hleaves with hlimit | ⟨c, cause, hgathered, rfl⟩
    · exact .inl ⟨e, rfl, hlimit⟩
    · rw [hgathered] at hcovers
      exact .inr (.inl ⟨c, cause, hcovers, rfl⟩)
  | ok made =>
    obtain ⟨nodes, hgathered, hnode⟩ := hleaves
    rw [hgathered] at hcovers
    refine .inr (.inr ⟨nodes, hcovers.1, hcovers.2, ?_⟩)
    simp only [Except.map, Except.ok.injEq]
    rw [hnode]
    cases nodes with
    | nil => rw [IndexNode.graft_nil]; rfl
    | cons n rest => rw [IndexNode.hasChildren_graft (by simp)]; rfl

theorem walk_of_foundIn {c : Chain} {nodes : List IndexNode}
    (h : foundIn settings store m side root c = .ok nodes) :
    ∃ path, walk (sourceOf settings store) ((m.tree side).levels none c.tokens) path root
      = .ok nodes := by
  unfold foundIn found at h
  cases henter : enter (sourceOf settings store) [] root with
  | error e => simp [henter, bind, Except.bind] at h
  | ok path => exact ⟨path, by simpa [henter, bind, Except.bind] using h⟩

theorem valueIn?_foundIn {c : Chain} {nodes : List IndexNode}
    (h : foundIn settings store m side root c = .ok nodes) {path : List String} {w : Value} :
    IndexNode.valueIn? nodes path = some w
      ↔ Kept store ((m.tree side).levels none c.tokens) root path w := by
  obtain ⟨path', hwalk⟩ := walk_of_foundIn h
  exact valueIn?_walk hwalk

/-- Two chains of a mapping have the same value at a path that both have. -/
theorem kept_unique (h : m.Ready) {c c' : Chain} (hc : c ∈ m.chains side)
    (hc' : c' ∈ m.chains side) {path : List String} {w w' : Value}
    (hw : Kept store ((m.tree side).levels none c.tokens) root path w)
    (hw' : Kept store ((m.tree side).levels none c'.tokens) root path w') : w = w' :=
  hw.unique (Tree.agree_levels _ (h.resolves hc).proper.names (h.resolves hc').proper.names) hw'

theorem share_eq_nil {find : Chain → Except IndexingError (List IndexNode)} {c : Chain}
    (hcount : ¬0 < c.containerCount) : share find c = [] := by
  simp [share, lastContainerIndex?_of_not_pos hcount]

theorem share_eq {find : Chain → Except IndexingError (List IndexNode)} {c : Chain}
    {nodes : List IndexNode} (hcount : 0 < c.containerCount) (h : find c = .ok nodes) :
    share find c = nodes := by
  obtain ⟨last, hlast⟩ := lastContainerIndex?_of_pos hcount
  simp [share, hlast, h]

theorem failure?_eq_none {find : Chain → Except IndexingError (List IndexNode)} {c : Chain}
    (hcount : 0 < c.containerCount) (h : failure? find c = none) :
    ∃ nodes, find c = .ok nodes := by
  obtain ⟨last, hlast⟩ := lastContainerIndex?_of_pos hcount
  cases hfind : find c with
  | ok nodes => exact ⟨nodes, rfl⟩
  | error e => simp [failure?, hlast, hfind] at h

theorem valueIn?_flatMap {α : Type} (f : α → List IndexNode) (xs : List α) (path : List String) :
    IndexNode.valueIn? (xs.flatMap f) path
      = xs.findSome? fun x => IndexNode.valueIn? (f x) path := by
  induction xs with
  | nil => exact IndexNode.valueIn?_nil path
  | cons x rest ih =>
    rw [List.flatMap_cons, IndexNode.valueIn?_append, List.findSome?_cons, ih]
    cases IndexNode.valueIn? (f x) path <;> rfl

theorem valueIn?_flatMap_share (h : m.Ready)
    (hok : ∀ c ∈ m.chains side, 0 < c.containerCount →
      ∃ nodes, foundIn settings store m side root c = .ok nodes)
    {path : List String} {w : Value} :
    IndexNode.valueIn? ((m.chains side).flatMap (share (foundIn settings store m side root))) path
        = some w
      ↔ ∃ c ∈ m.chains side, 0 < c.containerCount
        ∧ Kept store ((m.tree side).levels none c.tokens) root path w := by
  have hfrom {w : Value} (hw : (m.chains side).findSome? (fun c =>
      IndexNode.valueIn? (share (foundIn settings store m side root) c) path) = some w) :
      ∃ c ∈ m.chains side, 0 < c.containerCount
        ∧ Kept store ((m.tree side).levels none c.tokens) root path w := by
    obtain ⟨c, hc, hvalue⟩ := List.exists_of_findSome?_eq_some hw
    by_cases hcount : 0 < c.containerCount
    · obtain ⟨nodes, hnodes⟩ := hok c hc hcount
      rw [share_eq hcount hnodes] at hvalue
      exact ⟨c, hc, hcount, (valueIn?_foundIn hnodes).mp hvalue⟩
    · rw [share_eq_nil hcount, IndexNode.valueIn?_nil] at hvalue
      exact absurd hvalue (by simp)
  rw [valueIn?_flatMap]
  refine ⟨hfrom, ?_⟩
  intro hcase
  obtain ⟨c, hc, hcount, hkept⟩ := hcase
  obtain ⟨nodes, hnodes⟩ := hok c hc hcount
  have hvalue := (valueIn?_foundIn hnodes).mpr hkept
  cases hw : (m.chains side).findSome? (fun c =>
      IndexNode.valueIn? (share (foundIn settings store m side root) c) path) with
  | none =>
    have hnone := List.findSome?_eq_none_iff.mp hw c hc
    rw [share_eq hcount hnodes, hvalue] at hnone
    exact absurd hnone (by simp)
  | some w' =>
    obtain ⟨c', hc', -, hkept'⟩ := hfrom hw
    rw [kept_unique h hc hc' hkept hkept']

/-! ## The union -/

/-- The limit on nodes is met neither by the whole index nor by a chain alone. -/
structure WithinLimit (settings : IndexerSettings) (store : Store) (m : Mapping) (side : Side)
    (root : Value) : Prop where
  together : ∀ e, (object settings store m side root).1 = .error e →
    e.cause ≠ .nodeLimitExceeded
  apart : ∀ c ∈ m.chains side, 0 < c.containerCount →
    alone (sourceOf settings store) (m.tree side) c root ≠ .error .nodeLimitExceeded

/-- Some chain holds a value at a path, alone. -/
def HeldApart (settings : IndexerSettings) (store : Store) (m : Mapping) (side : Side)
    (root : Value) (path : List String) (w : Value) : Prop :=
  ∃ c ∈ m.chains side, 0 < c.containerCount
    ∧ ∃ a, alone (sourceOf settings store) (m.tree side) c root = .ok a ∧ a.Holds path w

/-- What indexing an object has to come to. -/
structure IsUnion (settings : IndexerSettings) (store : Store) (m : Mapping) (side : Side)
    (root : Value) (result : Except ExecutionError (Option IndexNode)) : Prop where
  /-- the error is that of the first chain that fails alone -/
  error_iff : ∀ e, result = .error e ↔
    (m.chains side).findSome? (failsAlone (sourceOf settings store) m side root) = some e
  /-- a chain alone has the nodes that the rules give it -/
  kept : ∀ c ∈ m.chains side, 0 < c.containerCount → ∀ a,
    alone (sourceOf settings store) (m.tree side) c root = .ok a → ∀ path w,
      a.Holds path w ↔ Kept store ((m.tree side).levels none c.tokens) root path w
  /-- the index has exactly the nodes of its chains -/
  holds : ∀ n, result = .ok (some n) → n.Distinct ∧ n.id = IndexNode.rootId ∧ n.value = root
    ∧ ∀ path w, n.Holds path w ↔ HeldApart settings store m side root path w
  /-- and there is none if there are no nodes -/
  none_iff : result = .ok none ↔ ∀ c ∈ m.chains side, 0 < c.containerCount →
    ∃ a, alone (sourceOf settings store) (m.tree side) c root = .ok a ∧ ∀ path w, ¬a.Holds path w
  /-- a chain that agrees with another one up to the last container adds nothing -/
  repeated : ∀ c ∈ m.chains side, ∀ c' ∈ m.chains side, ∀ last last',
    c.lastContainerIndex? = some last → c'.lastContainerIndex? = some last' →
    c.normalPrefix last = c'.normalPrefix last' →
    alone (sourceOf settings store) (m.tree side) c root
      = alone (sourceOf settings store) (m.tree side) c' root

/-- Results with the same nodes and values. -/
structure SameNodes (result result' : Except ExecutionError (Option IndexNode)) : Prop where
  error_iff : (∃ e, result = .error e) ↔ ∃ e, result' = .error e
  none_iff : result = .ok none ↔ result' = .ok none
  holds_iff : ∀ path w, (∃ n, result = .ok (some n) ∧ n.Holds path w)
    ↔ ∃ n, result' = .ok (some n) ∧ n.Holds path w

theorem alone_eq_foundIn (h : m.Ready) (hlimit : WithinLimit settings store m side root) {c : Chain}
    (hc : c ∈ m.chains side) (hcount : 0 < c.containerCount) :
    alone (sourceOf settings store) (m.tree side) c root
      = (foundIn settings store m side root c).map (blank root).graft :=
  alone_eq (h.wellFormed side) (h.resolves hc) hcount (hlimit.apart c hc hcount)

theorem alone_eq_ok_iff (h : m.Ready) (hlimit : WithinLimit settings store m side root) {c : Chain}
    (hc : c ∈ m.chains side) (hcount : 0 < c.containerCount) {a : IndexNode} :
    alone (sourceOf settings store) (m.tree side) c root = .ok a
      ↔ ∃ nodes, foundIn settings store m side root c = .ok nodes
        ∧ (blank root).graft nodes = a := by
  rw [alone_eq_foundIn h hlimit hc hcount]
  cases foundIn settings store m side root c with
  | ok nodes => simp [Except.map]
  | error e => simp [Except.map]

theorem failsAlone_eq (h : m.Ready) (hlimit : WithinLimit settings store m side root) {c : Chain}
    (hc : c ∈ m.chains side) :
    failsAlone (sourceOf settings store) m side root c
      = (failure? (foundIn settings store m side root) c).map
        fun (c, cause) => ⟨m.id, c.text, cause⟩ := by
  by_cases hcount : 0 < c.containerCount
  · obtain ⟨last, hlast⟩ := lastContainerIndex?_of_pos hcount
    rw [failsAlone, if_pos hcount, alone_eq_foundIn h hlimit hc hcount]
    cases hfound : foundIn settings store m side root c with
    | ok nodes => simp [failure?, hlast, hfound, Except.map]
    | error e => simp [failure?, hlast, hfound, Except.map]
  · rw [failsAlone, if_neg hcount]
    simp [failure?, lastContainerIndex?_of_not_pos hcount]

theorem findSome?_failsAlone (h : m.Ready) (hlimit : WithinLimit settings store m side root) :
    (m.chains side).findSome? (failsAlone (sourceOf settings store) m side root)
      = ((m.chains side).findSome? (failure? (foundIn settings store m side root))).map
        fun (c, cause) => ⟨m.id, c.text, cause⟩ := by
  rw [List.map_findSome?, ← List.head?_filterMap, ← List.head?_filterMap]
  exact congrArg List.head? (List.filterMap_congr fun c hc => failsAlone_eq h hlimit hc)

theorem holds_alone_iff (h : m.Ready) (hlimit : WithinLimit settings store m side root) {c : Chain}
    (hc : c ∈ m.chains side) (hcount : 0 < c.containerCount) {a : IndexNode}
    (ha : alone (sourceOf settings store) (m.tree side) c root = .ok a) {path : List String}
    {w : Value} :
    a.Holds path w ↔ Kept store ((m.tree side).levels none c.tokens) root path w := by
  obtain ⟨nodes, hfound, rfl⟩ := (alone_eq_ok_iff h hlimit hc hcount).mp ha
  rw [holds_graft_blank, valueIn?_foundIn hfound]

theorem forall_foundIn_iff :
    (m.chains side).findSome? (failure? (foundIn settings store m side root)) = none
    ↔ ∀ c ∈ m.chains side, 0 < c.containerCount →
      ∃ nodes, foundIn settings store m side root c = .ok nodes := by
  rw [List.findSome?_eq_none_iff]
  constructor
  · exact fun hnone c hc hcount => failure?_eq_none hcount (hnone c hc)
  · intro hall c hc
    by_cases hcount : 0 < c.containerCount
    · obtain ⟨nodes, hnodes⟩ := hall c hc hcount
      simp [failure?, hnodes]
    · simp [failure?, lastContainerIndex?_of_not_pos hcount]

/-- If no chain fails, what all of them find is what some chain holds. -/
theorem valueIn?_iff_heldApart (h : m.Ready) (hlimit : WithinLimit settings store m side root)
    (hnone : (m.chains side).findSome? (failure? (foundIn settings store m side root)) = none)
    {nodes : List IndexNode}
    (halike : Alike nodes ((m.chains side).flatMap (share (foundIn settings store m side root))))
    {path : List String} {w : Value} :
    IndexNode.valueIn? nodes path = some w ↔ HeldApart settings store m side root path w := by
  have hok := forall_foundIn_iff.mp hnone
  rw [halike.value, valueIn?_flatMap_share h hok]
  constructor
  · intro hcase
    obtain ⟨c, hc, hcount, hkept⟩ := hcase
    obtain ⟨nodes, hnodes⟩ := hok c hc hcount
    have ha := (alone_eq_ok_iff h hlimit hc hcount).mpr ⟨nodes, hnodes, rfl⟩
    exact ⟨c, hc, hcount, _, ha, (holds_alone_iff h hlimit hc hcount ha).mpr hkept⟩
  · intro hcase
    obtain ⟨c, hc, hcount, a, ha, hholds⟩ := hcase
    exact ⟨c, hc, hcount, (holds_alone_iff h hlimit hc hcount ha).mp hholds⟩

theorem findSome?_failsAlone_eq_none_iff :
    (m.chains side).findSome? (failsAlone (sourceOf settings store) m side root) = none
      ↔ ∀ c ∈ m.chains side, 0 < c.containerCount →
        ∃ a, alone (sourceOf settings store) (m.tree side) c root = .ok a := by
  rw [List.findSome?_eq_none_iff]
  refine forall₂_congr fun c hc => ?_
  by_cases hcount : 0 < c.containerCount
  · rw [failsAlone, if_pos hcount]
    cases alone (sourceOf settings store) (m.tree side) c root <;> simp [hcount]
  · simp [failsAlone, hcount]

/-- If all chains succeed, nothing is held exactly if each of them has an empty index. -/
theorem forall_not_heldApart_iff (hsucceed : ∀ c ∈ m.chains side, 0 < c.containerCount →
      ∃ a, alone (sourceOf settings store) (m.tree side) c root = .ok a) :
    (∀ path w, ¬HeldApart settings store m side root path w)
      ↔ ∀ c ∈ m.chains side, 0 < c.containerCount →
        ∃ a, alone (sourceOf settings store) (m.tree side) c root = .ok a
          ∧ ∀ path w, ¬a.Holds path w := by
  constructor
  · intro hno c hc hcount
    obtain ⟨a, ha⟩ := hsucceed c hc hcount
    exact ⟨a, ha, fun path w hholds => hno path w ⟨c, hc, hcount, a, ha, hholds⟩⟩
  · intro hall path w hheld
    obtain ⟨c, hc, hcount, a, ha, hholds⟩ := hheld
    obtain ⟨a', ha', hno⟩ := hall c hc hcount
    rw [ha, Except.ok.injEq] at ha'
    exact hno path w (ha' ▸ hholds)

/-- Within the limit, the outcome is told by the chains alone. -/
theorem object_cases_apart (h : m.Ready) (hlimit : WithinLimit settings store m side root) :
    (∃ e, (m.chains side).findSome? (failsAlone (sourceOf settings store) m side root) = some e
        ∧ (object settings store m side root).1 = .error e)
      ∨ ∃ nodes,
        (m.chains side).findSome? (failsAlone (sourceOf settings store) m side root) = none
        ∧ (∀ path w, IndexNode.valueIn? nodes path = some w
          ↔ HeldApart settings store m side root path w)
        ∧ (object settings store m side root).1
          = .ok (if nodes.isEmpty then none else some ((blank root).graft nodes)) := by
  rw [findSome?_failsAlone h hlimit]
  rcases @object_cases settings store m side root h with
    ⟨e, hresult, hcause⟩ | ⟨c, cause, hfirst, hresult⟩ | ⟨nodes, hnone, halike, hresult⟩
  · exact absurd hcause (hlimit.together e hresult)
  · exact .inl ⟨_, by rw [hfirst]; rfl, hresult⟩
  · exact .inr ⟨nodes, by rw [hnone]; rfl,
      fun path w => valueIn?_iff_heldApart h hlimit hnone halike, hresult⟩

theorem alone_of_normalPrefix (h : m.Ready) (hlimit : WithinLimit settings store m side root)
    {c c' : Chain} (hc : c ∈ m.chains side) (hc' : c' ∈ m.chains side) {last last' : Nat}
    (hlast : c.lastContainerIndex? = some last) (hlast' : c'.lastContainerIndex? = some last')
    (heq : c.normalPrefix last = c'.normalPrefix last') :
    alone (sourceOf settings store) (m.tree side) c root
      = alone (sourceOf settings store) (m.tree side) c' root := by
  have hcount := containerCount_pos_iff.mpr (Chain.lastContainerIndex?_eq_some hlast).2.2
  have hcount' := containerCount_pos_iff.mpr (Chain.lastContainerIndex?_eq_some hlast').2.2
  rw [alone_eq_foundIn h hlimit hc hcount, alone_eq_foundIn h hlimit hc' hcount',
    foundIn_of_normalPrefix h hc hc' hlast hlast' heq]

theorem isUnion_object (h : m.Ready) (hlimit : WithinLimit settings store m side root) :
    IsUnion settings store m side root (object settings store m side root).1 := by
  rcases object_cases_apart h hlimit with ⟨e, hfirst, hresult⟩ | ⟨nodes, hnone, hheld, hresult⟩
  · rw [hresult]
    refine ⟨fun e' => ?_, fun c hc hcount a ha path w => holds_alone_iff h hlimit hc hcount ha,
      fun n hn => by simp at hn, ?_,
      fun c hc c' hc' last last' hlast => alone_of_normalPrefix h hlimit hc hc' hlast⟩
    · rw [hfirst, Except.error.injEq, Option.some.injEq]
    · refine iff_of_false (by simp) fun hall => ?_
      have hnone := findSome?_failsAlone_eq_none_iff.mpr
        fun c hc hcount => (hall c hc hcount).imp fun _ ha => ha.1
      rw [hfirst] at hnone
      exact absurd hnone (by simp)
  · rw [hresult]
    refine ⟨fun e' => ?_, fun c hc hcount a ha path w => holds_alone_iff h hlimit hc hcount ha,
      ?_, ?_, fun c hc c' hc' last last' hlast => alone_of_normalPrefix h hlimit hc hc' hlast⟩
    · rw [hnone]
      exact iff_of_false (by simp) (by simp)
    · intro n hn
      by_cases hnodes : nodes = []
      · simp [hnodes] at hn
      · rw [if_neg (by simpa using hnodes), Except.ok.injEq, Option.some.injEq] at hn
        rw [← hn]
        refine ⟨(IndexNode.distinct_leaf _ _).graft _, IndexNode.graft_id _ _,
          IndexNode.graft_value _ _, fun path w => ?_⟩
        rw [holds_graft_blank]
        exact hheld path w
    · have hempty : nodes = [] ↔ ∀ path w, ¬HeldApart settings store m side root path w := by
        simp only [← hheld]
        rw [← not_iff_not, ← ne_eq, ne_nil_iff_valueIn?]
        simp only [not_forall, not_not]
      have hresult' : (Except.ok (if nodes.isEmpty then none else some ((blank root).graft nodes))
          : Except ExecutionError _) = .ok none ↔ nodes = [] := by simp
      rw [hresult', hempty]
      exact forall_not_heldApart_iff (findSome?_failsAlone_eq_none_iff.mp hnone)

/-! ## The order of commands -/

theorem IsUnion.exists_holds_iff {result : Except ExecutionError (Option IndexNode)}
    (h : IsUnion settings store m side root result) {path : List String} {w : Value} :
    (∃ n, result = .ok (some n) ∧ n.Holds path w)
      ↔ (m.chains side).findSome? (failsAlone (sourceOf settings store) m side root) = none
        ∧ HeldApart settings store m side root path w := by
  constructor
  · intro hcase
    obtain ⟨n, rfl, hholds⟩ := hcase
    refine ⟨?_, ((h.holds n rfl).2.2.2 path w).mp hholds⟩
    cases hfirst : (m.chains side).findSome? (failsAlone (sourceOf settings store) m side root) with
    | none => rfl
    | some e => exact absurd ((h.error_iff e).mpr hfirst) (by simp)
  · intro hcase
    obtain ⟨hnone, hheld⟩ := hcase
    rcases hresult : result with e | n | n
    · have hfirst := (h.error_iff e).mp hresult
      rw [hnone] at hfirst
      exact absurd hfirst (by simp)
    · obtain ⟨c, hc, hcount, a, ha, hholds⟩ := hheld
      obtain ⟨a', ha', hno⟩ := h.none_iff.mp hresult c hc hcount
      rw [ha, Except.ok.injEq] at ha'
      exact absurd (ha' ▸ hholds) (hno path w)
    · exact ⟨n, rfl, ((h.holds n hresult).2.2.2 path w).mpr hheld⟩

/-- Only which chains there are decides which nodes there are. -/
theorem IsUnion.sameNodes {m' : Mapping} {result result' : Except ExecutionError (Option IndexNode)}
    (h : IsUnion settings store m side root result)
    (h' : IsUnion settings store m' side root result') (htree : m'.tree side = m.tree side)
    (hchains : ∀ c, c ∈ m'.chains side ↔ c ∈ m.chains side) : SameNodes result result' := by
  have hnone : (m'.chains side).findSome? (failsAlone (sourceOf settings store) m' side root) = none
      ↔ (m.chains side).findSome? (failsAlone (sourceOf settings store) m side root) = none := by
    rw [findSome?_failsAlone_eq_none_iff, findSome?_failsAlone_eq_none_iff]
    simp only [hchains, htree]
  have hheld (path : List String) (w : Value) : HeldApart settings store m' side root path w
      ↔ HeldApart settings store m side root path w := by
    simp only [HeldApart, hchains, htree]
  constructor
  · simp only [h.error_iff, h'.error_iff]
    rw [← Option.isSome_iff_exists, ← Option.isSome_iff_exists, ← Option.ne_none_iff_isSome,
      ← Option.ne_none_iff_isSome, ne_eq, ne_eq, hnone]
  · rw [h.none_iff, h'.none_iff]
    simp only [hchains, htree]
  · intro path w
    rw [h.exists_holds_iff, h'.exists_holds_iff, hnone, hheld]

theorem mem_chains_of_perm {commands : List Command} (h : commands.Perm m.commands) (c : Chain) :
    c ∈ ({ m with commands } : Mapping).chains side ↔ c ∈ m.chains side :=
  (h.filterMap _).mem_iff

theorem ready_of_perm (hm : m.Ready) {commands : List Command} (h : commands.Perm m.commands) :
    ({ m with commands } : Mapping).Ready where
  wellFormed side := by
    cases side
    · exact hm.wellFormed .source
    · exact hm.wellFormed .target
  resolves {side c} hc := by
    have hresolves := hm.resolves ((mem_chains_of_perm h c).mp hc)
    cases side
    · exact hresolves
    · exact hresolves

/-- The index of an object for a compiled mapping is the union of what its chains index alone, and
the order of the commands makes no difference to its nodes. -/
theorem object_isUnion_of_compile {compiler : Compiler} {script : Script}
    (hm : (compiler.compile script).1.mapping = some m)
    (hlimit : WithinLimit settings store m side root) :
    IsUnion settings store m side root (object settings store m side root).1
      ∧ ∀ commands, commands.Perm m.commands →
        WithinLimit settings store { m with commands } side root →
        SameNodes (object settings store m side root).1
          (object settings store { m with commands } side root).1 := by
  have hready := Compiler.ready_of_compile hm
  have hunion := isUnion_object hready hlimit
  refine ⟨hunion, fun commands hperm hlimit' => ?_⟩
  have hunion' := isUnion_object (ready_of_perm hready hperm) hlimit'
  refine hunion.sameNodes hunion' ?_ (mem_chains_of_perm hperm)
  cases side <;> rfl

end Object

/-- A source in which `orders` and `items` are lists of objects and any other field is a text. -/
def shops : Introspector where
  typeRef name := .ok ⟨name, .object, []⟩
  fieldType owner field :=
    .ok ⟨owner, field,
      if field = "orders" then ⟨"List", .list, [⟨"Order", .object, []⟩]⟩
      else if field = "items" then ⟨"List", .list, [⟨"Item", .object, []⟩]⟩
      else ⟨"String", .scalar, []⟩⟩

/-- A script with a chain that goes on from orders to items, and then one that does not. -/
def sales : Script where
  id := "sales"
  sourceType := "Shop"
  targetType := "Report"
  commands :=
    [{ id := "skus", source := some "orders[*].items[*].sku", target := "skus" },
     { id := "codes", source := some "orders[*].code", target := "codes" }]

def salesMapping : Mapping :=
  (({ introspector := shops } : Compiler).compile sales).1.mapping.get (by decide +kernel)

theorem compile_sales :
    (({ introspector := shops } : Compiler).compile sales).1.mapping = some salesMapping :=
  (Option.some_get _).symm

/-- A shop with two orders, the first without items. -/
def twoOrders : Store where
  objects := #[⟨"Shop", [("orders", .sequence 0)]⟩, ⟨"Order", []⟩,
    ⟨"Order", [("items", .sequence 1)]⟩, ⟨"Item", []⟩]
  sequences := #[[.object 1, .object 2], [.object 3]]

/-- The chain to the items drops the first order, and the other chain brings it in. -/
theorem object_isUnion_of_compile_sales :
    WithinLimit {} twoOrders salesMapping .source (.object 0)
      ∧ IsUnion {} twoOrders salesMapping .source (.object 0)
        (object {} twoOrders salesMapping .source (.object 0)).1
      ∧ ∀ commands, commands.Perm salesMapping.commands →
        WithinLimit {} twoOrders { salesMapping with commands } .source (.object 0) →
        SameNodes (object {} twoOrders salesMapping .source (.object 0)).1
          (object {} twoOrders { salesMapping with commands } .source (.object 0)).1 := by
  have htogether : (object {} twoOrders salesMapping .source (.object 0)).1.toBool = true := by
    decide +kernel
  have hapart : (salesMapping.chains .source).all (fun c =>
      (alone (sourceOf {} twoOrders) (salesMapping.tree .source) c (.object 0)).toBool) = true := by
    decide +kernel
  have hlimit : WithinLimit {} twoOrders salesMapping .source (.object 0) := by
    constructor
    · intro e he
      simp [he, Except.toBool] at htogether
    · intro c hc _ he
      have hc' := List.all_eq_true.mp hapart c hc
      simp [he, Except.toBool] at hc'
  exact ⟨hlimit, object_isUnion_of_compile compile_sales hlimit⟩

end Index
end ChainMapping
