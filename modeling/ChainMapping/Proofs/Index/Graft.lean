import Mathlib.Data.List.Nodup
import ChainMapping.Index.Node

/-!
# Grafting nodes into an index

Several chains are indexed into one tree: a node that is there is entered again, and only what is
new is attached, at the end.  `IndexNode.graft` does this with nodes that are already complete, and
two laws say what a reader sees of the outcome.  The value at a path is the one that was there
first, and the children at a path are the old ones followed by the new ones.

A list of nodes to graft may name an id more than once, as if it were indexed twice; `under` puts
together what all of them have below them.
-/

namespace ChainMapping

/-- Texts after others, without those that are there already. -/
def addNew (texts : List String) : List String → List String
  | [] => texts
  | text :: rest => addNew (if text ∈ texts then texts else texts ++ [text]) rest

theorem addNew_append (texts more others : List String) :
    addNew texts (more ++ others) = addNew (addNew texts more) others := by
  induction more generalizing texts with
  | nil => rfl
  | cons text rest ih => exact ih _

theorem mem_addNew {texts more : List String} {text : String} :
    text ∈ addNew texts more ↔ text ∈ texts ∨ text ∈ more := by
  induction more generalizing texts with
  | nil => simp [addNew]
  | cons first rest ih =>
    rw [addNew, ih]
    split
    next hmem => grind
    next => simp [or_assoc]

theorem nodup_addNew {texts : List String} (h : texts.Nodup) (more : List String) :
    (addNew texts more).Nodup := by
  induction more generalizing texts with
  | nil => exact h
  | cons text rest ih =>
    rw [addNew]
    split
    · exact ih h
    next hnew =>
      refine ih (List.nodup_append.mpr ⟨h, List.nodup_singleton text, ?_⟩)
      rintro a ha b hb rfl
      exact hnew (List.mem_singleton.mp hb ▸ ha)

namespace IndexNode

/-! ## Reading an index -/

/-- The value at the end of a path of ids. -/
def valueAt? (n : IndexNode) (path : List String) : Option Value := (n.find? path).map (·.value)

/-- The ids of the children at the end of a path. -/
def idsAt (n : IndexNode) (path : List String) : List String :=
  ((n.find? path).map childIds).getD []

/-- No two children of a node have the same id, at the root and everywhere below. -/
def Distinct (n : IndexNode) : Prop := ∀ path, (n.idsAt path).Nodup

variable (n : IndexNode)

theorem find?_cons (id : String) (rest : List String) :
    n.find? (id :: rest) = (n.child? id).bind (·.find? rest) := by
  rw [find?]
  cases n.child? id <;> rfl

@[simp] theorem valueAt?_nil : n.valueAt? [] = some n.value := rfl

theorem valueAt?_cons (id : String) (rest : List String) :
    n.valueAt? (id :: rest) = (n.child? id).bind (·.valueAt? rest) := by
  rw [valueAt?, find?_cons]
  cases n.child? id <;> rfl

@[simp] theorem idsAt_nil : n.idsAt [] = n.childIds := rfl

theorem idsAt_cons (id : String) (rest : List String) :
    n.idsAt (id :: rest) = ((n.child? id).map (·.idsAt rest)).getD [] := by
  rw [idsAt, find?_cons]
  cases n.child? id <;> rfl

variable {n} {c : IndexNode} {id : String}

theorem id_of_child? (h : n.child? id = some c) : c.id = id := by
  simpa using List.find?_some h

theorem child?_isSome_iff : (n.child? id).isSome ↔ id ∈ n.childIds := by
  simp [child?, childIds]

theorem Distinct.child (h : n.Distinct) (hc : n.child? id = some c) : c.Distinct := by
  intro path
  have hpath := h (id :: path)
  rwa [idsAt_cons, hc] at hpath

theorem distinct_leaf (id : String) (value : Value) : Distinct ⟨id, value, []⟩ := by
  intro path
  cases path with
  | nil => exact List.nodup_nil
  | cons first rest => exact List.nodup_nil

theorem child?_push (h : n.child? c.id = none) (id : String) :
    (n.push c).child? id = if id = c.id then some c else n.child? id := by
  simp only [child?, push] at h ⊢
  rw [List.find?_append]
  by_cases hid : id = c.id
  · simp [hid, h]
  · simp [hid, Ne.symm hid]

theorem replaced_id (c d : IndexNode) : (if d.id = c.id then c else d).id = d.id := by
  by_cases hd : d.id = c.id
  · rw [if_pos hd, hd]
  · rw [if_neg hd]

theorem child?_replace (n c : IndexNode) (id : String) :
    (n.replace c).child? id = (n.child? id).map fun d => if id = c.id then c else d := by
  have hsame : ((fun d : IndexNode => d.id == id) ∘ fun d => if d.id = c.id then c else d)
      = fun d => d.id == id := by
    funext d
    simp only [Function.comp_apply, replaced_id]
  rw [child?, replace, List.find?_map, hsame, ← child?]
  cases hd : n.child? id with
  | none => rfl
  | some d => rw [Option.map_some, Option.map_some, id_of_child? hd]

@[simp] theorem childIds_push (n c : IndexNode) : (n.push c).childIds = n.childIds ++ [c.id] := by
  simp [childIds, push]

@[simp] theorem childIds_replace (n c : IndexNode) : (n.replace c).childIds = n.childIds := by
  simp only [childIds, replace, List.map_map]
  exact List.map_congr_left fun d _ => replaced_id c d

/-- A child can be put in its own place if no other has its id. -/
theorem replace_child (h : n.childIds.Nodup) (hc : n.child? id = some c) : n.replace c = n := by
  have hmem : c ∈ n.children := List.mem_of_find?_eq_some hc
  have hall : ∀ d ∈ n.children, (if d.id = c.id then c else d) = d := by
    intro d hd
    by_cases hid : d.id = c.id
    · rw [if_pos hid]
      exact List.inj_on_of_nodup_map h hmem hd hid.symm
    · rw [if_neg hid]
  obtain ⟨i, v, children⟩ := n
  rw [replace, List.map_congr_left hall, List.map_id']

/-! ## Grafting -/

mutual

/-- A node with other nodes grafted below it, one after the other. -/
def graft (n : IndexNode) : List IndexNode → IndexNode
  | [] => n
  | x :: rest => (n.absorb x).graft rest

/-- A node with one node grafted below it: into the child with its id if there is one, at the end
if not. -/
def absorb (n : IndexNode) : IndexNode → IndexNode
  | ⟨id, value, children⟩ =>
    match n.child? id with
    | some c => n.replace (c.graft children)
    | none => n.push (graft ⟨id, value, []⟩ children)

end

/-- What nodes have below them under an id. -/
def under (nodes : List IndexNode) (id : String) : List IndexNode :=
  (nodes.filter (·.id == id)).flatMap (·.children)

/-- The value that nodes bring to a path. -/
def valueIn? : List IndexNode → List String → Option Value
  | _, [] => none
  | nodes, [id] => (nodes.find? (·.id == id)).map (·.value)
  | nodes, id :: next :: rest => valueIn? (under nodes id) (next :: rest)

/-- The children that nodes bring to a path. -/
def idsIn : List IndexNode → List String → List String
  | nodes, [] => nodes.map (·.id)
  | nodes, id :: rest => idsIn (under nodes id) rest

theorem under_append (nodes more : List IndexNode) (id : String) :
    under (nodes ++ more) id = under nodes id ++ under more id := by
  simp [under]

theorem valueIn?_append (nodes more : List IndexNode) (path : List String) :
    valueIn? (nodes ++ more) path = (valueIn? nodes path).or (valueIn? more path) := by
  induction path generalizing nodes more with
  | nil => rfl
  | cons id rest ih =>
    cases rest with
    | nil => simp [valueIn?, List.find?_append, Option.map_or]
    | cons next tail => rw [valueIn?, valueIn?, valueIn?, under_append, ih]

theorem idsIn_append (nodes more : List IndexNode) (path : List String) :
    idsIn (nodes ++ more) path = idsIn nodes path ++ idsIn more path := by
  induction path generalizing nodes more with
  | nil => exact List.map_append
  | cons id rest ih => rw [idsIn, idsIn, idsIn, under_append, ih]

theorem valueIn?_nil (path : List String) : valueIn? [] path = none := by
  induction path with
  | nil => rfl
  | cons id rest ih =>
    cases rest with
    | nil => rfl
    | cons next tail => exact ih

theorem idsIn_nil (path : List String) : idsIn [] path = [] := by
  induction path with
  | nil => rfl
  | cons id rest ih => exact ih

theorem valueIn?_filter (nodes : List IndexNode) (id : String) (path : List String) :
    valueIn? (nodes.filter (·.id == id)) (id :: path) = valueIn? nodes (id :: path) := by
  cases path with
  | nil => simp only [valueIn?, List.find?_filter, and_self, Bool.decide_eq_true]
  | cons next rest => simp [valueIn?, under]

theorem graft_append (n : IndexNode) (nodes more : List IndexNode) :
    n.graft (nodes ++ more) = (n.graft nodes).graft more := by
  induction nodes generalizing n with
  | nil => rw [graft, List.nil_append]
  | cons x rest ih => rw [List.cons_append, graft, graft, ih]

@[simp] theorem graft_nil (n : IndexNode) : n.graft [] = n := by rw [graft]

theorem absorb_eq (n x : IndexNode) :
    n.absorb x = match n.child? x.id with
      | some c => n.replace (c.graft x.children)
      | none => n.push (graft ⟨x.id, x.value, []⟩ x.children) := by
  obtain ⟨id, value, children⟩ := x
  rw [absorb]

@[simp] theorem absorb_id (n x : IndexNode) : (n.absorb x).id = n.id := by
  rw [absorb_eq]
  split <;> rfl

@[simp] theorem absorb_value (n x : IndexNode) : (n.absorb x).value = n.value := by
  rw [absorb_eq]
  split <;> rfl

@[simp] theorem graft_id (n : IndexNode) (nodes : List IndexNode) : (n.graft nodes).id = n.id := by
  induction nodes generalizing n with
  | nil => rw [graft]
  | cons x rest ih => rw [graft, ih, absorb_id]

@[simp] theorem graft_value (n : IndexNode) (nodes : List IndexNode) :
    (n.graft nodes).value = n.value := by
  induction nodes generalizing n with
  | nil => rw [graft]
  | cons x rest ih => rw [graft, ih, absorb_value]

theorem childIds_absorb (n x : IndexNode) :
    (n.absorb x).childIds = if x.id ∈ n.childIds then n.childIds else n.childIds ++ [x.id] := by
  rw [absorb_eq]
  cases hc : n.child? x.id with
  | some c =>
    have hmem : x.id ∈ n.childIds := child?_isSome_iff.mp (by rw [hc]; rfl)
    rw [if_pos hmem]
    exact childIds_replace _ _
  | none =>
    have hmem : x.id ∉ n.childIds := fun h => by simpa [hc] using child?_isSome_iff.mpr h
    rw [if_neg hmem, childIds_push, graft_id]

theorem graft_singleton_of_some {n c : IndexNode} {id : String} (h : n.child? id = some c)
    (value : Value) (children : List IndexNode) :
    n.graft [⟨id, value, children⟩] = n.replace (c.graft children) := by
  rw [graft, graft_nil, absorb, h]

theorem graft_singleton_of_none {n : IndexNode} {id : String} (h : n.child? id = none)
    (value : Value) (children : List IndexNode) :
    n.graft [⟨id, value, children⟩] = n.push (graft ⟨id, value, []⟩ children) := by
  rw [graft, graft_nil, absorb, h]

theorem child?_absorb (n x : IndexNode) (id : String) :
    (n.absorb x).child? id
      = if id = x.id then some (((n.child? id).getD ⟨id, x.value, []⟩).graft x.children)
        else n.child? id := by
  rw [absorb_eq]
  cases hc : n.child? x.id with
  | some c =>
    have hid := id_of_child? hc
    rw [child?_replace, graft_id, hid]
    by_cases h : id = x.id
    · simp [h, hc]
    · simp [h]
  | none =>
    rw [child?_push (by rw [graft_id]; exact hc), graft_id]
    by_cases h : id = x.id
    · simp [h, hc]
    · simp [h]

/-- A child after grafting: the one that was there or a new one, with all that the nodes have below
them under its id. -/
theorem child?_graft (n : IndexNode) (nodes : List IndexNode) (id : String) :
    (n.graft nodes).child? id
      = ((n.child? id).or ((nodes.find? (·.id == id)).map fun x => ⟨id, x.value, []⟩)).map
          (·.graft (under nodes id)) := by
  induction nodes generalizing n with
  | nil => simp [under]
  | cons x rest ih =>
    rw [graft, ih, child?_absorb]
    by_cases h : id = x.id
    · subst h
      have hunder : under (x :: rest) x.id = x.children ++ under rest x.id := by simp [under]
      rw [if_pos rfl, hunder]
      cases n.child? x.id <;> simp [graft_append]
    · have hunder : under (x :: rest) id = under rest id := by simp [under, Ne.symm h]
      rw [if_neg h, hunder, List.find?_cons_of_neg (by simpa using Ne.symm h)]

theorem under_eq_nil {nodes : List IndexNode} {id : String}
    (h : nodes.find? (·.id == id) = none) : under nodes id = [] := by
  rw [under, List.filter_eq_nil_iff.mpr (List.find?_eq_none.mp h), List.flatMap_nil]

theorem valueAt?_leaf (id : String) (value : Value) (next : String) (rest : List String) :
    valueAt? ⟨id, value, []⟩ (next :: rest) = none := rfl

theorem idsAt_leaf (id : String) (value : Value) (path : List String) :
    idsAt ⟨id, value, []⟩ path = [] := by
  cases path with
  | nil => rfl
  | cons next rest => rfl

/-- A value is the one that was there first. -/
theorem valueAt?_graft (n : IndexNode) (nodes : List IndexNode) (path : List String) :
    (n.graft nodes).valueAt? path = (n.valueAt? path).or (valueIn? nodes path) := by
  induction path generalizing n nodes with
  | nil => simp
  | cons id rest ih =>
    rw [valueAt?_cons, valueAt?_cons, child?_graft]
    cases rest with
    | nil =>
      cases hc : n.child? id <;> cases hx : nodes.find? (·.id == id) <;> simp [valueIn?, hx]
    | cons next tail =>
      rw [valueIn?]
      cases hc : n.child? id with
      | some c => simp [ih]
      | none =>
        cases hx : nodes.find? (·.id == id) with
        | none => simp [under_eq_nil hx, valueIn?_nil]
        | some x => simp [ih, valueAt?_leaf]

/-- New children come after the old ones. -/
theorem idsAt_graft (n : IndexNode) (nodes : List IndexNode) (path : List String) :
    (n.graft nodes).idsAt path = addNew (n.idsAt path) (idsIn nodes path) := by
  induction path generalizing n nodes with
  | nil =>
    rw [idsAt_nil, idsAt_nil, idsIn]
    induction nodes generalizing n with
    | nil => rw [graft_nil, List.map_nil, addNew]
    | cons x rest ih => rw [graft, ih, childIds_absorb, List.map_cons, addNew]
  | cons id rest ih =>
    rw [idsAt_cons, idsAt_cons, child?_graft, idsIn]
    cases hc : n.child? id with
    | some c => simp [ih]
    | none =>
      cases hx : nodes.find? (·.id == id) with
      | none => simp [under_eq_nil hx, idsIn_nil, addNew]
      | some x => simp [ih, idsAt_leaf]

theorem hasChildren_graft {n : IndexNode} {nodes : List IndexNode} (h : nodes ≠ []) :
    (n.graft nodes).hasChildren = true := by
  obtain ⟨x, rest, rfl⟩ := List.exists_cons_of_ne_nil h
  have hmem : x.id ∈ (n.graft (x :: rest)).idsAt [] := by
    rw [idsAt_graft, mem_addNew]
    exact .inr List.mem_cons_self
  obtain ⟨c, hc, -⟩ := List.mem_map.mp hmem
  rw [hasChildren, Bool.not_eq_eq_eq_not, Bool.not_true, List.isEmpty_eq_false_iff]
  exact List.ne_nil_of_mem hc

theorem Distinct.graft {n : IndexNode} (h : n.Distinct) (nodes : List IndexNode) :
    (n.graft nodes).Distinct := by
  intro path
  rw [idsAt_graft]
  exact nodup_addNew (h path) _

end IndexNode
end ChainMapping
