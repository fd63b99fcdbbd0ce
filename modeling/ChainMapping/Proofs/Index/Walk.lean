import ChainMapping.Proofs.Index.Graft
import ChainMapping.Proofs.Index.Levels

/-!
# What one chain indexes

`Index.ElementAt` says by rules under which ids the elements of a container stand, and `Index.Kept`
which nodes a chain has in an index of its own, and with which values.  `Index.walk` computes them
along the levels of the chain, or the error that ends the way, without an index that is being
filled.
-/

namespace ChainMapping
namespace Index

/-- An element of a container under its id: an item has its number, and the key and the value of an
entry have the number of the entry and the marker of their side. -/
inductive ElementAt (store : Store) : (container : Value) → (id : String) → Option MapSide →
    (element : Value) → Prop where
  | item {handle i : Nat} {u : Value} (item : (store.items handle)[i]? = some u) :
      ElementAt store (.sequence handle) (toString i) none u
  | key {handle i : Nat} {k v : Value} (entry : (store.entries handle)[i]? = some (k, v)) :
      ElementAt store (.map handle) (toString i ++ "<K>") (some .key) k
  | value {handle i : Nat} {k v : Value} (entry : (store.entries handle)[i]? = some (k, v)) :
      ElementAt store (.map handle) (toString i ++ "<V>") (some .value) v

/-- The nodes of one chain: at a path of ids below an instance stands a value. -/
inductive Kept (store : Store) : List ChainLevel → Value → List String → Value → Prop where
  /-- a position, if there is something below it -/
  | position {level : ChainLevel} {rest : List ChainLevel} {v container u : Value} {id : String}
      (read : store.readAlong level.fields v = .ok (some container))
      (child : Kept store (level :: rest) v [level.key, id] u) :
      Kept store (level :: rest) v [level.key] container
  /-- an element of the last container -/
  | last {level : ChainLevel} {v container u : Value} {id : String} {side : Option MapSide}
      (read : store.readAlong level.fields v = .ok (some container))
      (place : ElementAt store container id side u) (set : u.isNull = false) :
      Kept store [level] v [level.key, id] u
  /-- the side of an entry that the chain does not go on from -/
  | other {level : ChainLevel} {rest : List ChainLevel} {v container u : Value} {id : String}
      {side : Option MapSide} (read : store.readAlong level.fields v = .ok (some container))
      (place : ElementAt store container id side u) (set : u.isNull = false)
      (unaddressed : side ≠ level.side) : Kept store (level :: rest) v [level.key, id] u
  /-- an element from which the chain goes on and finds something -/
  | element {level : ChainLevel} {rest : List ChainLevel} {v container u w : Value} {id : String}
      {path : List String} (read : store.readAlong level.fields v = .ok (some container))
      (place : ElementAt store container id level.side u) (set : u.isNull = false)
      (nested : Kept store rest u path w) : Kept store (level :: rest) v [level.key, id] u
  /-- what it finds there -/
  | within {level : ChainLevel} {rest : List ChainLevel} {v container u w : Value} {id : String}
      {path : List String} (read : store.readAlong level.fields v = .ok (some container))
      (place : ElementAt store container id level.side u) (set : u.isNull = false)
      (nested : Kept store rest u path w) : Kept store (level :: rest) v (level.key :: id :: path) w

/-- A node with others below it, or nothing if there are none. -/
def keep (id : String) (value : Value) (nodes : List IndexNode) : List IndexNode :=
  if nodes.isEmpty then [] else [⟨id, value, nodes⟩]

/-- What one element leaves in the index; `nested` is what the rest of the chain finds from there,
absent at the last container. -/
def fromElement (nested : Option (Value → Except IndexingError (List IndexNode))) (id : String)
    (v : Value) (addressed : Bool) : Except IndexingError (List IndexNode) :=
  match addressed, nested with
  | true, some find => (find v).map (keep id v)
  | _, _ => .ok [⟨id, v, []⟩]

/-- What the elements of a container leave in the index. -/
def gather (nested : Option (Value → Except IndexingError (List IndexNode))) :
    List (String × Value × Bool) → Except IndexingError (List IndexNode)
  | [] => .ok []
  | (id, v, addressed) :: rest => do
    let first ← fromElement nested id v addressed
    let others ← gather nested rest
    return first ++ others

/-- What a chain indexes below an instance, along its levels. -/
def walk (source : IndexSource) : List ChainLevel → (path : List Nat) → Value →
    Except IndexingError (List IndexNode)
  | [], _, _ => .ok []
  | level :: rest, path, v => do
    match ← source.store.readAlong level.fields v with
    | none => return []
    | some container =>
      if source.store.isEmptyContainer container then return []
      else
        level.check container
        let nested := if rest.isEmpty then none else some fun u => do
          let path ← enter source path u
          walk source rest path u
        let kept ← gather nested (elements source.store container level.side)
        return keep level.key container kept

/-! ## Elements of containers -/

/-- The indexer goes through the elements of a container and nothing else. -/
theorem mem_places_iff {store : Store} {container u : Value} {id : String}
    {side : Option MapSide} :
    (id, side, u) ∈ places store container ↔ ElementAt store container id side u := by
  constructor
  · intro h
    cases container with
    | sequence handle =>
      obtain ⟨⟨item, i⟩, hmem, heq⟩ := List.mem_map.mp h
      obtain ⟨rfl, rfl, rfl⟩ : toString i = id ∧ none = side ∧ item = u := by simpa using heq
      exact .item (List.mem_zipIdx_iff_getElem?.mp hmem)
    | map handle =>
      obtain ⟨⟨⟨k, v⟩, i⟩, hmem, hside⟩ := List.mem_flatMap.mp h
      have hentry := List.mem_zipIdx_iff_getElem?.mp hmem
      rcases List.mem_pair.mp hside with heq | heq
      · obtain ⟨rfl, rfl, rfl⟩ := heq
        exact .key hentry
      · obtain ⟨rfl, rfl, rfl⟩ := heq
        exact .value hentry
    | _ => cases h
  · intro h
    cases h with
    | @item handle i _ hitem =>
      have hmem : (u, i) ∈ (store.items handle).zipIdx := List.mem_zipIdx_iff_getElem?.mpr hitem
      exact List.mem_map.mpr ⟨(u, i), hmem, rfl⟩
    | @key handle i _ v hentry =>
      have hmem : ((u, v), i) ∈ (store.entries handle).zipIdx :=
        List.mem_zipIdx_iff_getElem?.mpr hentry
      exact List.mem_flatMap.mpr ⟨((u, v), i), hmem, List.mem_cons_self⟩
    | @value handle i k _ hentry =>
      have hmem : ((k, u), i) ∈ (store.entries handle).zipIdx :=
        List.mem_zipIdx_iff_getElem?.mpr hentry
      exact List.mem_flatMap.mpr
        ⟨((k, u), i), hmem, List.mem_cons_of_mem _ List.mem_cons_self⟩

theorem entryId_inj {i j : Nat} {side side' : MapSide}
    (h : toString i ++ side.marker = toString j ++ side'.marker) : i = j ∧ side = side' := by
  have hlist := congrArg String.toList h
  rw [String.toList_append, String.toList_append] at hlist
  have hlength : side.marker.toList.length = side'.marker.toList.length := by
    cases side <;> cases side' <;> simp [MapSide.marker]
  obtain ⟨hid, hmarker⟩ := List.append_inj' hlist hlength
  refine ⟨Text.toString_inj (String.toList_inj.mp hid), ?_⟩
  cases side <;> cases side' <;> simp [MapSide.marker] at hmarker ⊢

/-- The places of a container have different ids. -/
theorem nodup_places (store : Store) (container : Value) :
    ((places store container).map Prod.fst).Nodup := by
  cases container with
  | sequence id =>
    rw [places, List.map_map, List.Nodup, List.pairwise_map]
    exact (pairwise_lt_zipIdx _).imp fun hlt heq => Nat.ne_of_lt hlt (Text.toString_inj heq)
  | map id =>
    rw [places, List.map_flatMap, List.nodup_flatMap]
    constructor
    · rintro ⟨⟨key, value⟩, i⟩ -
      simp only [List.map_cons, List.map_nil, List.nodup_cons, List.mem_singleton,
        List.not_mem_nil, not_false_eq_true, List.nodup_nil, and_true]
      exact fun heq => by simpa using (entryId_inj heq).2
    · refine (pairwise_lt_zipIdx _).imp ?_
      rintro ⟨⟨key, value⟩, i⟩ ⟨⟨key', value'⟩, j⟩ hlt
      simp only [Function.onFun, List.map_cons, List.map_nil, List.disjoint_left, List.mem_cons,
        List.not_mem_nil, or_false]
      rintro id (rfl | rfl) (heq | heq)
      · exact Nat.ne_of_lt hlt (entryId_inj heq).1
      · exact Nat.ne_of_lt hlt (entryId_inj heq).1
      · exact Nat.ne_of_lt hlt (entryId_inj heq).1
      · exact Nat.ne_of_lt hlt (entryId_inj heq).1
  | _ => exact List.nodup_nil

/-- Under one id stands one element. -/
theorem ElementAt.unique {store : Store} {container u u' : Value} {id : String}
    {side side' : Option MapSide} (h : ElementAt store container id side u)
    (h' : ElementAt store container id side' u') : side = side' ∧ u = u' := by
  have hsame : (id, side, u) = (id, side', u') :=
    List.inj_on_of_nodup_map (nodup_places store container) (mem_places_iff.mpr h)
      (mem_places_iff.mpr h') rfl
  simpa using hsame

theorem mem_elements {store : Store} {container : Value} {side : Option MapSide} {id : String}
    {v : Value} {addressed : Bool} :
    (id, v, addressed) ∈ elements store container side
      ↔ ∃ placed, ElementAt store container id placed v ∧ v.isNull = false
        ∧ addressed = decide (placed = side) := by
  simp only [← mem_places_iff, elements, List.mem_map, List.mem_filter, Bool.not_eq_eq_eq_not,
    Bool.not_true, Prod.mk.injEq, Prod.exists]
  constructor
  · intro hcase
    obtain ⟨_, placed, _, ⟨hplace, hnull⟩, rfl, rfl, rfl⟩ := hcase
    exact ⟨placed, hplace, hnull, rfl⟩
  · intro hcase
    obtain ⟨placed, hplace, hnull, rfl⟩ := hcase
    exact ⟨id, placed, v, ⟨hplace, hnull⟩, rfl, rfl, rfl⟩

theorem nodup_elements (store : Store) (container : Value) (side : Option MapSide) :
    ((elements store container side).map Prod.fst).Nodup := by
  rw [elements, List.map_map]
  exact (nodup_places store container).sublist (List.filter_sublist.map Prod.fst)

theorem places_eq_nil {store : Store} {container : Value}
    (h : store.isEmptyContainer container = true) : places store container = [] := by
  cases container with
  | sequence id =>
    have hnil : store.items id = [] := by simpa [Store.isEmptyContainer, Store.length?] using h
    simp [places, hnil]
  | map id =>
    have hnil : store.entries id = [] := by simpa [Store.isEmptyContainer, Store.length?] using h
    simp [places, hnil]
  | _ => rfl

/-! ## The walk keeps what the rules say -/

theorem ne_nil_iff_valueIn? {nodes : List IndexNode} :
    nodes ≠ [] ↔ ∃ path v, IndexNode.valueIn? nodes path = some v := by
  cases nodes with
  | nil => simp [IndexNode.valueIn?_nil]
  | cons n rest => exact iff_of_true (by simp) ⟨[n.id], n.value, by simp [IndexNode.valueIn?]⟩

theorem valueIn?_keep (id : String) (v : Value) (nodes : List IndexNode) (other : String)
    (path : List String) :
    IndexNode.valueIn? (keep id v nodes) (other :: path)
      = if nodes = [] ∨ id ≠ other then none
        else if path = [] then some v else IndexNode.valueIn? nodes path := by
  cases nodes with
  | nil => simp [keep, IndexNode.valueIn?_nil]
  | cons n rest =>
    by_cases hid : id = other
    · cases path with
      | nil => simp [keep, hid, IndexNode.valueIn?]
      | cons next tail => simp [keep, hid, IndexNode.valueIn?, IndexNode.under]
    · cases path with
      | nil => simp [keep, hid, IndexNode.valueIn?]
      | cons next tail =>
        simp [keep, hid, IndexNode.valueIn?, IndexNode.under, IndexNode.valueIn?_nil]

/-! ## Elements one after the other -/

section Gather

variable {nested : Option (Value → Except IndexingError (List IndexNode))}
  {els : List (String × Value × Bool)} {kept own : List IndexNode} {id : String} {v : Value}
  {addressed : Bool}

theorem ids_fromElement (h : fromElement nested id v addressed = .ok own) :
    (own.map (·.id)).Sublist [id] := by
  unfold fromElement at h
  split at h
  next find =>
    cases hfind : find v with
    | error e => simp [hfind, Except.map] at h
    | ok nodes =>
      simp only [hfind, Except.map, Except.ok.injEq] at h
      rw [← h, keep]
      split
      · exact List.nil_sublist _
      · exact List.Sublist.refl _
  next =>
    simp only [Except.ok.injEq] at h
    rw [← h]
    exact List.Sublist.refl _

theorem gather_cons_ok (h : gather nested ((id, v, addressed) :: els) = .ok kept) :
    ∃ own others, fromElement nested id v addressed = .ok own ∧ gather nested els = .ok others
      ∧ kept = own ++ others := by
  simp only [gather, bind, Except.bind, pure, Except.pure] at h
  cases hown : fromElement nested id v addressed with
  | error e => simp [hown] at h
  | ok own =>
    cases hothers : gather nested els with
    | error e => simp [hown, hothers] at h
    | ok others =>
      simp only [hown, hothers, Except.ok.injEq] at h
      exact ⟨own, others, rfl, rfl, h.symm⟩

/-- Elements are gathered in their order. -/
theorem ids_gather (h : gather nested els = .ok kept) :
    (kept.map (·.id)).Sublist (els.map Prod.fst) := by
  induction els generalizing kept with
  | nil =>
    simp only [gather, Except.ok.injEq] at h
    rw [← h]
    exact List.Sublist.refl _
  | cons el rest ih =>
    obtain ⟨own, others, hown, hothers, rfl⟩ := gather_cons_ok h
    rw [List.map_append, List.map_cons, ← List.singleton_append]
    exact (ids_fromElement hown).append (ih hothers)

theorem fromElement_of_gather (h : gather nested els = .ok kept) (hmem : (id, v, addressed) ∈ els) :
    ∃ own, fromElement nested id v addressed = .ok own := by
  induction els generalizing kept with
  | nil => simp at hmem
  | cons el rest ih =>
    obtain ⟨own, others, hown, hothers, rfl⟩ := gather_cons_ok h
    rcases List.mem_cons.mp hmem with rfl | hmem
    · exact ⟨own, hown⟩
    · exact ih hothers hmem

theorem filter_eq_nil {nodes : List IndexNode} (h : id ∉ nodes.map (·.id)) :
    nodes.filter (·.id == id) = [] := by
  rw [List.filter_eq_nil_iff]
  intro n hn heq
  exact h (List.mem_map.mpr ⟨n, hn, by simpa using heq⟩)

/-- What has an id comes from the element with that id. -/
theorem filter_gather (hnodup : (els.map Prod.fst).Nodup) (h : gather nested els = .ok kept)
    (hmem : (id, v, addressed) ∈ els) (hown : fromElement nested id v addressed = .ok own) :
    kept.filter (·.id == id) = own := by
  induction els generalizing kept with
  | nil => simp at hmem
  | cons el rest ih =>
    obtain ⟨own', others, hown', hothers, rfl⟩ := gather_cons_ok h
    obtain ⟨hnew, hrest⟩ := List.nodup_cons.mp hnodup
    rw [List.filter_append]
    rcases List.mem_cons.mp hmem with rfl | hmem
    · rw [hown, Except.ok.injEq] at hown'
      subst hown'
      have hall : ∀ n ∈ own, (n.id == id) = true := fun n hn => by
        simpa using (ids_fromElement hown).subset (List.mem_map_of_mem hn)
      rw [List.filter_eq_self.mpr hall,
        filter_eq_nil fun hid => hnew ((ids_gather hothers).subset hid), List.append_nil]
    · have hother : id ∉ own'.map (·.id) := by
        intro hid
        have heq : id = el.1 := by simpa using (ids_fromElement hown').subset hid
        exact hnew (heq ▸ List.mem_map_of_mem hmem)
      rw [filter_eq_nil hother, List.nil_append]
      exact ih hrest hothers hmem

theorem valueIn?_gather (hnodup : (els.map Prod.fst).Nodup) (h : gather nested els = .ok kept)
    {path : List String} {w : Value} :
    IndexNode.valueIn? kept (id :: path) = some w
      ↔ ∃ u addressed own, (id, u, addressed) ∈ els ∧ fromElement nested id u addressed = .ok own
        ∧ IndexNode.valueIn? own (id :: path) = some w := by
  rw [← IndexNode.valueIn?_filter]
  constructor
  · intro hvalue
    by_cases hid : id ∈ kept.map (·.id)
    · obtain ⟨⟨_, u, a⟩, hmem, rfl⟩ := List.mem_map.mp ((ids_gather h).subset hid)
      obtain ⟨own, hown⟩ := fromElement_of_gather h hmem
      rw [filter_gather hnodup h hmem hown] at hvalue
      exact ⟨u, a, own, hmem, hown, hvalue⟩
    · rw [filter_eq_nil hid, IndexNode.valueIn?_nil] at hvalue
      exact absurd hvalue (by simp)
  · intro hcase
    obtain ⟨u, a, own, hmem, hown, hvalue⟩ := hcase
    rw [filter_gather hnodup h hmem hown]
    exact hvalue

end Gather

/-- What the rest of a chain finds from an element. -/
def nestedWalk (source : IndexSource) (rest : List ChainLevel) (path : List Nat) :
    Option (Value → Except IndexingError (List IndexNode)) :=
  if rest.isEmpty then none else some fun u => do
    let path ← enter source path u
    walk source rest path u

/-- A walk that succeeds finds a field that is not set, or keeps what it gathers. -/
theorem walk_cons_ok {source : IndexSource} {level : ChainLevel} {rest : List ChainLevel}
    {path : List Nat} {v : Value} {nodes : List IndexNode}
    (h : walk source (level :: rest) path v = .ok nodes) :
    (source.store.readAlong level.fields v = .ok none ∧ nodes = [])
      ∨ ∃ container kept, source.store.readAlong level.fields v = .ok (some container)
        ∧ gather (nestedWalk source rest path) (elements source.store container level.side)
          = .ok kept
        ∧ nodes = keep level.key container kept := by
  simp only [walk, bind, Except.bind, pure, Except.pure] at h
  split at h
  next => simp at h
  next found hread =>
    cases found with
    | none =>
      simp only [Except.ok.injEq] at h
      exact .inl ⟨hread, h.symm⟩
    | some container =>
      simp only at h
      refine .inr ⟨container, ?_⟩
      split at h
      next hempty =>
        simp only [Except.ok.injEq] at h
        have hnone : elements source.store container level.side = [] := by
          rw [elements, places_eq_nil hempty]
          rfl
        exact ⟨[], hread, by rw [hnone, gather], h.symm⟩
      next =>
        cases hcheck : level.check container with
        | error e => simp [hcheck] at h
        | ok _ =>
          simp only [hcheck] at h
          split at h
          next => simp at h
          next kept hkept =>
            simp only [Except.ok.injEq] at h
            exact ⟨kept, hread, hkept, h.symm⟩

variable {store : Store} {level : ChainLevel} {rest : List ChainLevel} {v : Value}

theorem Kept.ne_nil {levels : List ChainLevel} {path : List String} {w : Value}
    (h : Kept store levels v path w) : path ≠ [] := by
  cases h <;> simp

theorem Kept.key_eq {key : String} {path : List String} {w : Value}
    (h : Kept store (level :: rest) v (key :: path) w) : key = level.key := by
  cases h <;> rfl

theorem kept_position_iff {container : Value}
    (hread : store.readAlong level.fields v = .ok (some container)) {w : Value} :
    Kept store (level :: rest) v [level.key] w
      ↔ w = container ∧ ∃ id u, Kept store (level :: rest) v [level.key, id] u := by
  constructor
  · intro h
    cases h with
    | position read child =>
      rw [hread, Except.ok.injEq, Option.some.injEq] at read
      exact ⟨read.symm, _, _, child⟩
  · intro hcase
    obtain ⟨rfl, id, u, child⟩ := hcase
    exact .position hread child

theorem kept_below_iff {container : Value}
    (hread : store.readAlong level.fields v = .ok (some container)) {id : String}
    {path : List String} {w : Value} :
    Kept store (level :: rest) v (level.key :: id :: path) w
      ↔ ∃ side u, ElementAt store container id side u ∧ u.isNull = false
        ∧ (path = [] ∧ w = u
            ∧ (rest = [] ∨ side ≠ level.side ∨ ∃ path' w', Kept store rest u path' w')
          ∨ side = level.side ∧ Kept store rest u path w) := by
  constructor
  · intro h
    cases h with
    | last read place set =>
      rw [hread, Except.ok.injEq, Option.some.injEq] at read
      exact ⟨_, _, read ▸ place, set, .inl ⟨rfl, rfl, .inl rfl⟩⟩
    | other read place set unaddressed =>
      rw [hread, Except.ok.injEq, Option.some.injEq] at read
      exact ⟨_, _, read ▸ place, set, .inl ⟨rfl, rfl, .inr (.inl unaddressed)⟩⟩
    | element read place set nested =>
      rw [hread, Except.ok.injEq, Option.some.injEq] at read
      exact ⟨_, _, read ▸ place, set, .inl ⟨rfl, rfl, .inr (.inr ⟨_, _, nested⟩)⟩⟩
    | within read place set nested =>
      rw [hread, Except.ok.injEq, Option.some.injEq] at read
      exact ⟨_, _, read ▸ place, set, .inr ⟨rfl, nested⟩⟩
  · intro hcase
    rcases hcase with ⟨side, u, place, set, ⟨rfl, rfl, hkept⟩ | ⟨rfl, hkept⟩⟩
    · by_cases hside : side = level.side
      · subst hside
        rcases hkept with rfl | hside | ⟨path', w', nested⟩
        · exact .last hread place set
        · exact absurd rfl hside
        · exact .element hread place set nested
      · exact .other hread place set hside
    · exact .within hread place set hkept

/-- An element leaves what the chain finds from it, or itself if the chain does not go on there. -/
theorem fromElement_nestedWalk_ok {source : IndexSource} {path : List Nat} {id : String} {u : Value}
    {addressed : Bool} {own : List IndexNode}
    (h : fromElement (nestedWalk source rest path) id u addressed = .ok own) :
    (addressed = true ∧ rest ≠ [] ∧ ∃ path' nodes, walk source rest path' u = .ok nodes
        ∧ own = keep id u nodes)
      ∨ ((addressed = false ∨ rest = []) ∧ own = [⟨id, u, []⟩]) := by
  by_cases hgoes : addressed = true ∧ rest ≠ []
  · obtain ⟨rfl, hrest⟩ := hgoes
    refine .inl ⟨rfl, hrest, ?_⟩
    simp only [fromElement, nestedWalk, List.isEmpty_iff, hrest, if_false] at h
    cases henter : enter source path u with
    | error e => simp [henter, bind, Except.bind, Except.map] at h
    | ok path' =>
      cases hwalk : walk source rest path' u with
      | error e => simp [henter, hwalk, bind, Except.bind, Except.map] at h
      | ok nodes =>
        simp only [henter, hwalk, bind, Except.bind, Except.map, Except.ok.injEq] at h
        exact ⟨path', nodes, hwalk, h.symm⟩
  · have hends : addressed = false ∨ rest = [] := by
      rwa [not_and_or, Bool.not_eq_true, not_not] at hgoes
    refine .inr ⟨hends, ?_⟩
    rcases hends with rfl | rfl
    · simpa [fromElement, eq_comm] using h
    · cases addressed <;> simpa [fromElement, nestedWalk, eq_comm] using h

theorem valueIn?_fromElement_self {source : IndexSource} {path : List Nat}
    (ih : ∀ {path : List Nat} {u : Value} {nodes : List IndexNode},
      walk source rest path u = .ok nodes → ∀ {p : List String} {w : Value},
        IndexNode.valueIn? nodes p = some w ↔ Kept source.store rest u p w)
    {id : String} {u : Value} {side : Option MapSide} {own : List IndexNode}
    (h : fromElement (nestedWalk source rest path) id u (decide (side = level.side)) = .ok own)
    {p : List String} {w : Value} :
    IndexNode.valueIn? own (id :: p) = some w
      ↔ p = [] ∧ w = u
          ∧ (rest = [] ∨ side ≠ level.side ∨ ∃ p' w', Kept source.store rest u p' w')
        ∨ side = level.side ∧ Kept source.store rest u p w := by
  rcases fromElement_nestedWalk_ok h with ⟨hside, hrest, path', nodes, hwalk, rfl⟩ | ⟨hends, rfl⟩
  · -- The chain goes on from this element.
    rw [decide_eq_true_eq] at hside
    have hsome : nodes ≠ [] ↔ ∃ p' w', Kept source.store rest u p' w' := by
      rw [ne_nil_iff_valueIn?]
      simp only [ih hwalk]
    rw [valueIn?_keep]
    by_cases hn : nodes = []
    · have hnone : ¬∃ p' w', Kept source.store rest u p' w' := fun he => hsome.mpr he hn
      rw [if_pos (.inl hn)]
      refine iff_of_false (by simp) ?_
      intro hcase
      rcases hcase with ⟨-, -, hempty | hother | hsome'⟩ | ⟨-, hkept⟩
      · exact hrest hempty
      · exact hother hside
      · exact hnone hsome'
      · exact hnone ⟨_, _, hkept⟩
    · rw [if_neg (by simp [hn])]
      by_cases hp : p = []
      · subst hp
        rw [if_pos rfl, Option.some.injEq]
        constructor
        · exact fun he => .inl ⟨rfl, he.symm, .inr (.inr (hsome.mp hn))⟩
        · intro hcase
          rcases hcase with ⟨-, rfl, -⟩ | ⟨-, hkept⟩
          · rfl
          · exact absurd rfl hkept.ne_nil
      · rw [if_neg hp, ih hwalk]
        exact ⟨fun hkept => .inr ⟨hside, hkept⟩, fun hor => by simpa [hp, hside] using hor⟩
  · have hfree : rest = [] ∨ side ≠ level.side := by
      rwa [decide_eq_false_iff_not, or_comm] at hends
    have hno : ¬(side = level.side ∧ Kept source.store rest u p w) := by
      intro hcase
      obtain ⟨hside, hkept⟩ := hcase
      rcases hfree with rfl | hne
      · cases hkept
      · exact hne hside
    cases p with
    | nil =>
      simp only [IndexNode.valueIn?, List.find?_cons, beq_self_eq_true, Option.map_some,
        Option.some.injEq, hno, or_false, true_and]
      exact ⟨fun he => ⟨he.symm, hfree.imp_right .inl⟩, fun he => he.1.symm⟩
    | cons next tail =>
      refine iff_of_false ?_ (by simp [hno])
      simp [IndexNode.valueIn?, IndexNode.under, IndexNode.valueIn?_nil]

/-- A walk that succeeds keeps what the rules say. -/
theorem valueIn?_walk {source : IndexSource} {levels : List ChainLevel} {path : List Nat}
    {nodes : List IndexNode} (h : walk source levels path v = .ok nodes) {p : List String}
    {w : Value} : IndexNode.valueIn? nodes p = some w ↔ Kept source.store levels v p w := by
  induction levels generalizing path v nodes p w with
  | nil =>
    simp only [walk, Except.ok.injEq] at h
    rw [← h, IndexNode.valueIn?_nil]
    exact iff_of_false (by simp) (by rintro ⟨⟩)
  | cons level rest ih =>
    rcases walk_cons_ok h with ⟨hread, rfl⟩ | ⟨container, kept, hread, hgather, rfl⟩
    · rw [IndexNode.valueIn?_nil]
      refine iff_of_false (by simp) fun hkept => ?_
      cases hkept <;> simp_all
    · -- Below the position stands what the elements leave.
      have hbelow (id : String) (tail : List String) (w : Value) :
          IndexNode.valueIn? kept (id :: tail) = some w
            ↔ Kept source.store (level :: rest) v (level.key :: id :: tail) w := by
        rw [valueIn?_gather (nodup_elements ..) hgather, kept_below_iff hread]
        constructor
        · intro hcase
          obtain ⟨u, addressed, own, hmem, hown, hvalue⟩ := hcase
          obtain ⟨side, place, set, rfl⟩ := mem_elements.mp hmem
          exact ⟨side, u, place, set, (valueIn?_fromElement_self ih hown).mp hvalue⟩
        · intro hcase
          obtain ⟨side, u, place, set, hkept⟩ := hcase
          have hmem : (id, u, decide (side = level.side))
              ∈ elements source.store container level.side :=
            mem_elements.mpr ⟨side, place, set, rfl⟩
          obtain ⟨own, hown⟩ := fromElement_of_gather hgather hmem
          exact ⟨u, _, own, hmem, hown, (valueIn?_fromElement_self ih hown).mpr hkept⟩
      cases p with
      | nil => exact iff_of_false (by simp [IndexNode.valueIn?]) fun hkept => hkept.ne_nil rfl
      | cons key tail =>
        rw [valueIn?_keep]
        by_cases hkey : level.key = key
        · subst hkey
          cases tail with
          | cons id tail =>
            rw [← hbelow]
            by_cases hnil : kept = []
            · simp [hnil, IndexNode.valueIn?_nil]
            · simp [hnil]
          | nil =>
            rw [kept_position_iff hread]
            simp only [← hbelow]
            cases kept with
            | nil => simp [IndexNode.valueIn?_nil]
            | cons n more =>
              have hchild : ∃ id u, IndexNode.valueIn? (n :: more) [id] = some u :=
                ⟨n.id, n.value, by simp [IndexNode.valueIn?]⟩
              rw [if_neg (by simp), if_pos trivial, Option.some.injEq]
              exact ⟨fun he => ⟨he.symm, hchild⟩, fun he => he.1.symm⟩
        · rw [if_pos (.inr hkey)]
          exact iff_of_false (by simp) fun hkept => hkey hkept.key_eq.symm

end Index
end ChainMapping
