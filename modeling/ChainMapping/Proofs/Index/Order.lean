import Mathlib.Data.List.Induction
import ChainMapping.Proofs.Index.Union

/-!
# The order of elements

The elements of one chain stand in the index in the order of their container.  With several chains
this can be lost: an element that is dropped by one chain, because nothing is found below it, may be
brought in by a later one, and then it comes after elements that follow it in the container.

`Index.inOrder_iff` says that nothing else disturbs the order.
-/

namespace ChainMapping

/-- A part of a list without repetitions, in the order of the list. -/
theorem sublist_iff_pairwise_idxOf {part whole : List String} (h : whole.Nodup) :
    part.Sublist whole
      ↔ (∀ text ∈ part, text ∈ whole)
        ∧ part.Pairwise fun a b => whole.idxOf a < whole.idxOf b := by
  have hwhole : whole.Pairwise fun a b => whole.idxOf a < whole.idxOf b := by
    rw [List.pairwise_iff_getElem]
    intro i j hi hj hlt
    rwa [h.idxOf_getElem, h.idxOf_getElem]
  constructor
  · exact fun hsub => ⟨fun text hmem => hsub.subset hmem, hwhole.sublist hsub⟩
  · intro hcase
    obtain ⟨hmem, hpair⟩ := hcase
    have hnodup : part.Nodup := hpair.imp fun hlt heq => by
      subst heq
      exact Nat.lt_irrefl _ hlt
    -- The part is what is left of the whole, because both are sorted.
    have hperm : part.Perm (whole.filter (· ∈ part)) := by
      rw [List.perm_ext_iff_of_nodup hnodup (h.filter _)]
      intro text
      simpa using hmem text
    have heq : part = whole.filter (· ∈ part) :=
      hperm.eq_of_pairwise (fun a b _ _ hab hba => by omega) hpair
        (hwhole.sublist List.filter_sublist)
    rw [heq]
    exact List.filter_sublist

theorem addNew_of_nodup {texts more : List String} (h : more.Nodup) :
    addNew texts more = texts ++ more.filter (· ∉ texts) := by
  induction more generalizing texts with
  | nil => simp [addNew]
  | cons text rest ih =>
    obtain ⟨hnew, hrest⟩ := List.nodup_cons.mp h
    rw [addNew, ih hrest]
    by_cases hmem : text ∈ texts
    · simp [hmem]
    · have hsame : rest.filter (· ∉ texts ++ [text]) = rest.filter (· ∉ texts) := by
        refine List.filter_congr fun other hother => ?_
        have hne : other ≠ text := fun heq => hnew (heq ▸ hother)
        simp [hne]
      rw [if_neg hmem, hsame, List.filter_cons_of_pos (by simpa using hmem), List.append_assoc]
      rfl

theorem prefix_addNew (texts more : List String) : texts <+: addNew texts more := by
  induction more generalizing texts with
  | nil => exact List.prefix_rfl
  | cons text rest ih =>
    rw [addNew]
    split
    · exact ih texts
    · exact (List.prefix_append texts [text]).trans (ih _)

/-- A part that brings in nothing before what is there keeps the order. -/
theorem addNew_sublist {texts more whole : List String} (h : whole.Nodup)
    (htexts : texts.Sublist whole) (hmore : more.Sublist whole)
    (hnew : ∀ a ∈ more, ∀ b ∈ texts, whole.idxOf a < whole.idxOf b → a ∈ texts) :
    (addNew texts more).Sublist whole := by
  obtain ⟨htexts, htexts'⟩ := (sublist_iff_pairwise_idxOf h).mp htexts
  obtain ⟨hmem, hmem'⟩ := (sublist_iff_pairwise_idxOf h).mp hmore
  rw [addNew_of_nodup (h.sublist hmore), sublist_iff_pairwise_idxOf h, List.pairwise_append]
  refine ⟨?_, htexts', hmem'.sublist List.filter_sublist, ?_⟩
  · intro text htext
    rcases List.mem_append.mp htext with htext | htext
    · exact htexts text htext
    · exact hmem text (List.mem_filter.mp htext).1
  · intro b hb a ha
    obtain ⟨ha, hna⟩ := List.mem_filter.mp ha
    rw [decide_eq_true_eq] at hna
    have hle : ¬whole.idxOf a < whole.idxOf b := fun hlt => hna (hnew a ha b hb hlt)
    have hne : whole.idxOf a ≠ whole.idxOf b := by
      intro heq
      have hab := (List.idxOf_inj (hmem a ha)).mp heq
      exact hna (hab ▸ hb)
    omega

/-- What parts of a list come to one after the other is in the order of the list exactly if no part
brings in something that stands before what earlier parts have brought. -/
theorem addNew_flatMap_sublist_iff {α : Type} {parts : α → List String} {xs : List α}
    {whole : List String} (h : whole.Nodup) (hparts : ∀ x ∈ xs, (parts x).Sublist whole) :
    (addNew [] (xs.flatMap parts)).Sublist whole
      ↔ ∀ earlier later, xs = earlier ++ later → ∀ a b, whole.idxOf a < whole.idxOf b →
        b ∈ earlier.flatMap parts → a ∈ later.flatMap parts → a ∈ earlier.flatMap parts := by
  have hmem {text : String} {texts : List String} : text ∈ addNew [] texts ↔ text ∈ texts := by
    simp [mem_addNew]
  constructor
  · rintro hsub earlier later rfl a b hlt hb ha
    by_contra hnew
    rw [List.flatMap_append, addNew_append] at hsub
    obtain ⟨added, hadded⟩ :=
      prefix_addNew (addNew [] (earlier.flatMap parts)) (later.flatMap parts)
    have ha' : a ∈ added := by
      have hboth : a ∈ addNew [] (earlier.flatMap parts) ++ added := by
        rw [hadded]
        exact mem_addNew.mpr (.inr ha)
      rcases List.mem_append.mp hboth with hold | hadd
      · exact absurd (hmem.mp hold) hnew
      · exact hadd
    rw [← hadded, sublist_iff_pairwise_idxOf h, List.pairwise_append] at hsub
    have hgt := hsub.2.2.2 b (hmem.mpr hb) a ha'
    omega
  · intro hearlier
    induction xs using List.reverseRecOn with
    | nil => exact List.nil_sublist _
    | append_singleton xs x ih =>
      have hxs : (addNew [] (xs.flatMap parts)).Sublist whole := by
        refine ih (fun y hy => hparts y (List.mem_append_left _ hy)) ?_
        rintro earlier later rfl a b hlt hb ha
        refine hearlier earlier (later ++ [x]) (by simp) a b hlt hb ?_
        rw [List.flatMap_append]
        exact List.mem_append_left _ ha
      rw [List.flatMap_append, addNew_append, List.flatMap_singleton]
      refine addNew_sublist h hxs (hparts x (by simp)) fun a ha b hb hlt => ?_
      rw [hmem] at hb ⊢
      exact hearlier xs [x] rfl a b hlt hb (by simpa using ha)

namespace IndexNode

theorem mem_idsIn {nodes : List IndexNode} {path : List String} {id : String} :
    id ∈ idsIn nodes path ↔ ∃ w, valueIn? nodes (path ++ [id]) = some w := by
  induction path generalizing nodes with
  | nil => simp [idsIn, valueIn?, List.find?_isSome, ← Option.isSome_iff_exists]
  | cons first rest ih =>
    rw [idsIn, ih]
    cases rest <;> rfl

theorem idsIn_eq_nil {nodes : List IndexNode} {path : List String} (hpath : path ≠ [])
    (h : valueIn? nodes path = none) : idsIn nodes path = [] := by
  induction path generalizing nodes with
  | nil => exact absurd rfl hpath
  | cons id rest ih =>
    cases rest with
    | nil =>
      rw [valueIn?, Option.map_eq_none_iff] at h
      rw [idsIn, under_eq_nil h, idsIn_nil]
    | cons next tail => exact ih (by simp) h

theorem idsIn_flatMap {α : Type} (f : α → List IndexNode) (xs : List α) (path : List String) :
    idsIn (xs.flatMap f) path = xs.flatMap fun x => idsIn (f x) path := by
  induction xs with
  | nil => exact idsIn_nil path
  | cons x rest ih => rw [List.flatMap_cons, idsIn_append, ih, List.flatMap_cons]

theorem idsIn_filter (nodes : List IndexNode) (id : String) (path : List String) :
    idsIn (nodes.filter (·.id == id)) (id :: path) = idsIn nodes (id :: path) := by
  simp [idsIn, under]

end IndexNode

namespace Index

/-! ## One chain -/

/-- The ids of the elements of a container, nulls included, in the order of the container. -/
def liveIds (store : Store) : Value → List String
  | .sequence id => (List.range (store.items id).length).map toString
  | .map id => (List.range (store.entries id).length).flatMap fun i =>
      [toString i ++ "<K>", toString i ++ "<V>"]
  | _ => []

theorem places_map_fst (store : Store) (container : Value) :
    (places store container).map Prod.fst = liveIds store container := by
  cases container with
  | sequence id =>
    rw [liveIds, List.range_eq_range', ← List.zipIdx_map_snd, places, List.map_map, List.map_map]
    rfl
  | map id =>
    rw [liveIds, List.range_eq_range', ← List.zipIdx_map_snd, places, List.map_flatMap,
      List.flatMap_map]
    rfl
  | _ => rfl

theorem nodup_liveIds (store : Store) (container : Value) : (liveIds store container).Nodup := by
  rw [← places_map_fst]
  exact nodup_places store container

theorem idsIn_keep (id : String) (v : Value) (nodes : List IndexNode) (path : List String) :
    IndexNode.idsIn (keep id v nodes) (id :: path) = IndexNode.idsIn nodes path := by
  cases nodes with
  | nil => simp [keep, IndexNode.idsIn_nil]
  | cons n rest => simp [keep, IndexNode.idsIn, IndexNode.under]

theorem ids_elements (store : Store) (container : Value) (side : Option MapSide) :
    ((elements store container side).map Prod.fst).Sublist (liveIds store container) := by
  rw [← places_map_fst, elements, List.map_map]
  exact List.filter_sublist.map Prod.fst

/-- The elements of a walk stand in the order of their container. -/
theorem idsIn_walk {source : IndexSource} {levels : List ChainLevel} {path : List Nat} {v : Value}
    {nodes : List IndexNode} (h : walk source levels path v = .ok nodes) {p : List String}
    (hodd : p.length % 2 = 1) {container : Value}
    (hvalue : IndexNode.valueIn? nodes p = some container) :
    (IndexNode.idsIn nodes p).Sublist (liveIds source.store container) := by
  induction levels generalizing path v nodes p with
  | nil =>
    simp only [walk, Except.ok.injEq] at h
    rw [← h, IndexNode.valueIn?_nil] at hvalue
    exact absurd hvalue (by simp)
  | cons level rest ih =>
    rcases walk_cons_ok h with ⟨-, rfl⟩ | ⟨found, kept, -, hgather, rfl⟩
    · rw [IndexNode.valueIn?_nil] at hvalue
      exact absurd hvalue (by simp)
    · obtain ⟨key, tail, rfl⟩ := List.exists_cons_of_length_pos (l := p) (by omega)
      rw [valueIn?_keep] at hvalue
      split at hvalue
      · simp at hvalue
      next hkey =>
        obtain ⟨-, rfl⟩ : kept ≠ [] ∧ level.key = key := by simpa using hkey
        rw [idsIn_keep]
        -- A path of odd length goes to the position, or on through one of its elements.
        cases tail with
        | nil =>
          obtain rfl : found = container := by simpa using hvalue
          exact (ids_gather hgather).trans (ids_elements ..)
        | cons id tail =>
          have hodd' : tail.length % 2 = 1 := by
            simp only [List.length_cons] at hodd
            omega
          obtain ⟨u, addressed, own, hmem, hown, hvalue⟩ :=
            (valueIn?_gather (nodup_elements ..) hgather).mp (by simpa using hvalue)
          rw [← IndexNode.idsIn_filter, filter_gather (nodup_elements ..) hgather hmem hown]
          obtain ⟨next, tail, rfl⟩ := List.exists_cons_of_length_pos (l := tail) (by omega)
          rcases fromElement_nestedWalk_ok hown with ⟨-, -, path', nodes, hwalk, rfl⟩ | ⟨-, rfl⟩
          · rw [valueIn?_keep] at hvalue
            split at hvalue
            · simp at hvalue
            · rw [idsIn_keep]
              exact ih hwalk hodd' (by simpa using hvalue)
          · simp [IndexNode.valueIn?, IndexNode.under, IndexNode.valueIn?_nil] at hvalue

/-! ## All chains of a mapping -/

/-- Wherever there is a position, its children stand in the order of its container.  Positions are
the nodes at the end of paths of odd length. -/
def InOrder (store : Store) (n : IndexNode) : Prop :=
  ∀ path node, path.length % 2 = 1 → n.find? path = some node →
    node.childIds.Sublist (liveIds store node.value)

/-- One of some chains has a node at a path. -/
def Reaches (store : Store) (tree : Tree) (root : Value) (chains : List Chain)
    (path : List String) : Prop :=
  ∃ c ∈ chains, ∃ w, Kept store (tree.levels none c.tokens) root path w

/-- At a position, no chain is the first to have an element that stands in the container before an
element of an earlier chain. -/
def NoLateElement (store : Store) (m : Mapping) (side : Side) (root : Value) (path : List String)
    (container : Value) : Prop :=
  ∀ earlier later, m.chains side = earlier ++ later → ∀ a b,
    (liveIds store container).idxOf a < (liveIds store container).idxOf b →
    Reaches store (m.tree side) root earlier (path ++ [b]) →
    Reaches store (m.tree side) root later (path ++ [a]) →
    Reaches store (m.tree side) root earlier (path ++ [a])

section Object

variable {settings : IndexerSettings} {store : Store} {m : Mapping} {side : Side} {root : Value}

theorem mem_idsIn_share (h : m.Ready)
    (hnone : (m.chains side).findSome? (failure? (foundIn settings store m side root)) = none)
    {c : Chain} (hc : c ∈ m.chains side) {path : List String} {id : String} :
    id ∈ IndexNode.idsIn (share (foundIn settings store m side root) c) path
      ↔ ∃ w, Kept store ((m.tree side).levels none c.tokens) root (path ++ [id]) w := by
  by_cases hcount : 0 < c.containerCount
  · obtain ⟨nodes, hnodes⟩ := forall_foundIn_iff.mp hnone c hc hcount
    rw [share_eq hcount hnodes, IndexNode.mem_idsIn]
    simp only [valueIn?_foundIn hnodes]
  · obtain ⟨last, hleads⟩ := (h.resolves hc).leads
    have hlevels : (m.tree side).levels none c.tokens = [] := by
      rw [Tree.levels_eq_nil_iff hleads, ← Bool.not_eq_true, ← containerCount_pos_iff]
      exact hcount
    rw [share_eq_nil hcount, IndexNode.idsIn_nil, hlevels]
    refine iff_of_false (by simp) ?_
    intro hcase
    obtain ⟨w, ⟨⟩⟩ := hcase

theorem idsIn_share (h : m.Ready)
    (hnone : (m.chains side).findSome? (failure? (foundIn settings store m side root)) = none)
    {path : List String} (hodd : path.length % 2 = 1) {container : Value}
    (hvalue : IndexNode.valueIn?
      ((m.chains side).flatMap (share (foundIn settings store m side root))) path = some container)
    {c : Chain} (hc : c ∈ m.chains side) :
    (IndexNode.idsIn (share (foundIn settings store m side root) c) path).Sublist
      (liveIds store container) := by
  have hok := forall_foundIn_iff.mp hnone
  obtain ⟨c', hc', -, hkept'⟩ := (valueIn?_flatMap_share h hok).mp hvalue
  by_cases hcount : 0 < c.containerCount
  · obtain ⟨nodes, hnodes⟩ := hok c hc hcount
    obtain ⟨path', hwalk⟩ := walk_of_foundIn hnodes
    rw [share_eq hcount hnodes]
    cases hown : IndexNode.valueIn? nodes path with
    | none =>
      have hpath : path ≠ [] := hkept'.ne_nil
      rw [IndexNode.idsIn_eq_nil hpath hown]
      exact List.nil_sublist _
    | some w =>
      -- All chains with this position have the same container there.
      have hkept := (valueIn?_foundIn hnodes).mp hown
      rw [← kept_unique h hc hc' hkept hkept']
      exact idsIn_walk hwalk hodd hown
  · rw [share_eq_nil hcount, IndexNode.idsIn_nil]
    exact List.nil_sublist _

/-- The children at a position stand in order exactly if none of them came late. -/
theorem childIds_sublist_iff (h : m.Ready) {n : IndexNode}
    (hresult : (object settings store m side root).1 = .ok (some n)) {path : List String}
    (hodd : path.length % 2 = 1) {node : IndexNode} (hnode : n.find? path = some node) :
    node.childIds.Sublist (liveIds store node.value)
      ↔ NoLateElement store m side root path node.value := by
  rcases @object_cases settings store m side root h with
    ⟨e, herror, -⟩ | ⟨c, cause, -, herror⟩ | ⟨nodes, hnone, halike, hok⟩
  · simp [hresult] at herror
  · simp [hresult] at herror
  · have hn : n = (blank root).graft nodes := by
      rw [hresult, Except.ok.injEq] at hok
      split at hok
      · simp at hok
      · exact Option.some.inj hok
    have hids : node.childIds = addNew [] ((m.chains side).flatMap fun c =>
        IndexNode.idsIn (share (foundIn settings store m side root) c) path) := by
      have hat : node.childIds = n.idsAt path := by rw [IndexNode.idsAt, hnode]; rfl
      rw [hat, hn, IndexNode.idsAt_graft, blank, IndexNode.idsAt_leaf, halike.ids,
        IndexNode.idsIn_flatMap]
    have hvalue : IndexNode.valueIn?
        ((m.chains side).flatMap (share (foundIn settings store m side root))) path
          = some node.value := by
      have hat : n.valueAt? path = some node.value := by rw [IndexNode.valueAt?, hnode]; rfl
      have hholds : n.Holds path node.value := ⟨by rintro rfl; simp at hodd, hat⟩
      rw [hn, holds_graft_blank] at hholds
      rw [← halike.value]
      exact hholds
    rw [hids, addNew_flatMap_sublist_iff (nodup_liveIds store node.value)
      fun c hc => idsIn_share h hnone hodd hvalue hc]
    have hreaches {chains : List Chain} (hsub : chains ⊆ m.chains side) (id : String) :
        id ∈ (chains.flatMap fun c =>
            IndexNode.idsIn (share (foundIn settings store m side root) c) path)
          ↔ Reaches store (m.tree side) root chains (path ++ [id]) := by
      rw [List.mem_flatMap, Reaches]
      refine exists_congr fun c => and_congr_right fun hc => ?_
      exact mem_idsIn_share h hnone (hsub hc)
    refine forall₃_congr fun earlier later hsplit => forall₃_congr fun a b hlt => ?_
    have hearlier : earlier ⊆ m.chains side := by simp [hsplit]
    have hlater : later ⊆ m.chains side := by simp [hsplit]
    rw [hreaches hearlier, hreaches hlater, hreaches hearlier]

/-- The index of an object for a compiled mapping keeps the order of all containers exactly if at no
position an element comes late. -/
theorem inOrder_iff_of_compile {compiler : Compiler} {script : Script}
    (hm : (compiler.compile script).1.mapping = some m) {n : IndexNode}
    (hresult : (object settings store m side root).1 = .ok (some n)) :
    InOrder store n ↔ ∀ path node, path.length % 2 = 1 → n.find? path = some node →
      NoLateElement store m side root path node.value :=
  forall₄_congr fun _ _ hodd hnode =>
    childIds_sublist_iff (Compiler.ready_of_compile hm) hresult hodd hnode

end Object

/-- The second order comes first in the index of the shop, as the first one has no items. -/
theorem index_sales : ∃ n, (object {} twoOrders salesMapping .source (.object 0)).1 = .ok (some n)
    ∧ ∃ node, n.find? ["orders[*]"] = some node ∧ node.childIds = ["1", "0"]
      ∧ liveIds twoOrders node.value = ["0", "1"] := by
  have hindex : ((object {} twoOrders salesMapping .source (.object 0)).1.toOption.join.bind
      (·.find? ["orders[*]"])).map (fun node => (node.childIds, liveIds twoOrders node.value))
      = some (["1", "0"], ["0", "1"]) := by
    decide +kernel
  obtain ⟨node, hnode, hpair⟩ := Option.map_eq_some_iff.mp hindex
  obtain ⟨n, hn, hfind⟩ := Option.bind_eq_some_iff.mp hnode
  rw [Prod.mk.injEq] at hpair
  refine ⟨n, ?_, node, hfind, hpair.1, hpair.2⟩
  cases hresult : (object {} twoOrders salesMapping .source (.object 0)).1 with
  | error e => simp [hresult, Except.toOption] at hn
  | ok index =>
    rw [hresult] at hn
    exact congrArg Except.ok hn

theorem inOrder_iff_of_compile_sales :
    ∃ n, (object {} twoOrders salesMapping .source (.object 0)).1 = .ok (some n)
      ∧ (InOrder twoOrders n ↔ ∀ path node, path.length % 2 = 1 → n.find? path = some node →
        NoLateElement twoOrders salesMapping .source (.object 0) path node.value) := by
  obtain ⟨n, hn, -⟩ := index_sales
  exact ⟨n, hn, inOrder_iff_of_compile compile_sales hn⟩

/-- The order of a container can be lost. -/
theorem not_inOrder_sales :
    (({ introspector := shops } : Compiler).compile sales).1.mapping = some salesMapping
      ∧ ∃ n, (object {} twoOrders salesMapping .source (.object 0)).1 = .ok (some n)
        ∧ ¬InOrder twoOrders n := by
  obtain ⟨n, hn, node, hnode, hids, hlive⟩ := index_sales
  refine ⟨compile_sales, n, hn, fun horder => ?_⟩
  have hsub := horder ["orders[*]"] node rfl hnode
  rw [hids, hlive] at hsub
  exact absurd hsub (by decide)

end Index
end ChainMapping
