import ChainMapping.Proofs.Chain.Reading
import ChainMapping.Proofs.Tree.Insertion

/-!
# Well-formed trees

What is true of every tree between two resolutions.  `Sound` is kept by every single insertion, so
it also holds halfway through a container whose members are still missing; `WellFormed` adds that
every container has its members and nothing else below it.

The links are described by one equivalence: a table has an entry exactly for the nodes that name it
as their parent.  With keys that do not repeat this says that every node is linked once, in the
place where it says it is.
-/

namespace ChainMapping

/-- What the path of a member has after the path of its container. -/
def Descriptor.pathSuffix : Descriptor → String
  | mapKey => MapSide.key.marker
  | mapValue => MapSide.value.marker
  | collectionMember => "[*]"
  | _ => ""

namespace Tree

/-- The place of a node: at the root, below a node that is no container, or as a member of one. -/
inductive Placed (t : Tree) (n : Node) : Prop where
  | first (parent : n.parent = none) (isFirst : n.isFirst = true)
      (role : n.descriptor.isMember = false) (index : n.tokenIndex = 0)
      (path : n.path = n.token) (name : Chain.IsName n.token)
  | below {p : Nat} {up : Node} (parent : n.parent = some p) (node : t.node? p = some up)
      (plain : up.isContainer = false) (isFirst : n.isFirst = false)
      (role : n.descriptor.isMember = false) (index : n.tokenIndex = up.tokenIndex + 1)
      (path : n.path = up.path ++ "." ++ n.token) (name : Chain.IsName n.token)
  | member {p : Nat} {up : Node} (parent : n.parent = some p) (node : t.node? p = some up)
      (container : up.isContainer = true) (isFirst : n.isFirst = false)
      (role : n.descriptor.isMember = true) (index : n.tokenIndex = up.tokenIndex)
      (path : n.path = up.path ++ n.descriptor.pathSuffix)

/-- The role of a node. -/
def role? (t : Tree) (id : Nat) : Option Descriptor := (t.node? id).map (·.descriptor)

/-- A container has its members below it: one for a collection, two for a map. -/
structure HasMembers (t : Tree) (n : Node) : Prop where
  collection : n.descriptor.isCollection = true →
    ∃ member, n.children = some [(n.field.name, member)]
      ∧ t.role? member = some .collectionMember
  map : n.descriptor.isMap = true →
    ∃ key value, n.children = some [(MapSide.key.memberKey n.field.name, key),
        (MapSide.value.memberKey n.field.name, value)]
      ∧ t.role? key = some .mapKey ∧ t.role? value = some .mapValue

/-- What holds after every insertion. -/
structure Sound (t : Tree) : Prop where
  id_eq : ∀ {id : Nat} {n : Node}, t.node? id = some n → n.id = id
  mem_table : ∀ {parent : Option Nat} {key : String} {id : Nat},
    (key, id) ∈ t.childTable parent ↔ ∃ n, t.node? id = some n ∧ n.parent = parent ∧ n.token = key
  keys_nodup : ∀ parent, (Ordered.keys (t.childTable parent)).Nodup
  parent_lt : ∀ {id p : Nat} {n : Node}, t.node? id = some n → n.parent = some p → p < id
  placed : ∀ {id : Nat} {n : Node}, t.node? id = some n → t.Placed n
  container_children : ∀ {id : Nat} {n : Node}, t.node? id = some n → n.isContainer = true →
    n.children ≠ none
  plain_children : ∀ {id : Nat} {n : Node}, t.node? id = some n → n.isContainer = false →
    n.children ≠ some []
  size_le : t.size ≤ Limits.treeNodes
  table_le : ∀ parent, (t.childTable parent).length ≤ Limits.childrenPerNode

/-- What holds between two resolutions. -/
structure WellFormed (t : Tree) : Prop extends Sound t where
  members : ∀ {id : Nat} {n : Node}, t.node? id = some n → t.HasMembers n

theorem Placed.mono {t t' : Tree} (he : t.Extends t') {n : Node} (h : t.Placed n)
    (children : Option (List (String × Nat))) : t'.Placed { n with children } := by
  cases h with
  | first parent isFirst role index path name => exact .first parent isFirst role index path name
  | below parent node plain isFirst role index path name =>
    obtain ⟨cs, hup⟩ := he.node node
    exact .below parent hup plain isFirst role index path name
  | member parent node container isFirst role index path =>
    obtain ⟨cs, hup⟩ := he.node node
    exact .member parent hup container isFirst role index path

theorem role?_mono {t t' : Tree} (he : t.Extends t') {id : Nat} {d : Descriptor}
    (h : t.role? id = some d) : t'.role? id = some d := by
  obtain ⟨n, hn, hd⟩ := Option.map_eq_some_iff.mp h
  obtain ⟨cs, hn'⟩ := he.node hn
  rw [role?, hn', Option.map_some]
  exact congrArg some hd

theorem HasMembers.mono {t t' : Tree} (he : t.Extends t') {n : Node} (h : t.HasMembers n) :
    t'.HasMembers n where
  collection hc := by
    obtain ⟨member, hchildren, hrole⟩ := h.collection hc
    exact ⟨member, hchildren, role?_mono he hrole⟩
  map hm := by
    obtain ⟨key, value, hchildren, hkey, hvalue⟩ := h.map hm
    exact ⟨key, value, hchildren, role?_mono he hkey, role?_mono he hvalue⟩

theorem HasMembers.of_plain {t : Tree} {n : Node} (h : n.isContainer = false) : t.HasMembers n := by
  simp only [Node.isContainer, Descriptor.isContainer, Bool.or_eq_false_iff] at h
  exact ⟨fun hc => absurd hc (by simp [h.1]), fun hm => absurd hm (by simp [h.2])⟩

theorem sound_empty {t : Tree} (hnodes : t.nodes = #[]) (hfirst : t.firstNodes = []) :
    t.Sound := by
  have hnone (id : Nat) : t.node? id = none := by simp [node?, hnodes]
  have htable (parent : Option Nat) : t.childTable parent = [] := by
    cases parent with
    | none => exact hfirst
    | some id => simp [childTable, hnone]
  constructor
  · intro id n hn; simp [hnone] at hn
  · intro parent key id; simp [hnone, htable]
  · intro parent; simp [htable, Ordered.keys]
  · intro id p n hn; simp [hnone] at hn
  · intro id n hn; simp [hnone] at hn
  · intro id n hn; simp [hnone] at hn
  · intro id n hn; simp [hnone] at hn
  · simp [size, hnodes]
  · intro parent; simp [htable]

theorem wellFormed_empty {t : Tree} (hnodes : t.nodes = #[]) (hfirst : t.firstNodes = []) :
    t.WellFormed where
  toSound := sound_empty hnodes hfirst
  members hn := by simp [node?, hnodes] at hn

/-! ## Insertion keeps a tree sound -/

namespace Sound

variable {t t' : Tree}

theorem childOf?_eq_some_iff (h : t.Sound) {parent : Option Nat} {key : String} {id : Nat} :
    t.childOf? parent key = some id
      ↔ ∃ n, t.node? id = some n ∧ n.parent = parent ∧ n.token = key := by
  rw [childOf?_eq_lookup, Ordered.lookup_eq_some_iff (h.keys_nodup parent), h.mem_table]

theorem lt_of_mem_table (h : t.Sound) {parent : Option Nat} {key : String} {id : Nat}
    (hmem : (key, id) ∈ t.childTable parent) : id < t.size := by
  obtain ⟨n, hn, -, -⟩ := h.mem_table.mp hmem
  exact node?_lt hn

variable {parent : Option Nat} {key : String} {node : Node} {id : Nat}

/-- The links after an insertion: the old ones, and the one to the new node. -/
theorem mem_table_insert (h : t.Sound) (hi : t.Inserted parent key node id t')
    (hfresh : t.childOf? parent key = none) (hparent : ∀ p, parent = some p → p < t.size)
    (hchildren : node.children.getD [] = []) {q : Option Nat} {name : String} {other : Nat} :
    (name, other) ∈ t'.childTable q
      ↔ ∃ n, t'.node? other = some n ∧ n.parent = q ∧ n.token = name := by
  by_cases hq : q = some t.size
  · -- Nothing is below the new node yet.
    subst hq
    rw [hi.table_new, hchildren]
    refine iff_of_false (List.not_mem_nil) ?_
    intro hcase
    obtain ⟨n, hn, hup, -⟩ := hcase
    rcases hi.node_cases hn with ⟨old, hold, rfl⟩ | ⟨-, rfl⟩
    · obtain ⟨cs, heq⟩ := relinked_eq t parent key other old
      rw [heq] at hup
      have hlt := h.parent_lt hold hup
      have := node?_lt hold
      omega
    · exact absurd (hparent _ hup) (Nat.lt_irrefl _)
  · rw [hi.table_eq hfresh hparent hq, List.mem_append, h.mem_table]
    constructor
    · intro hcase
      rcases hcase with ⟨n, hn, hup, htoken⟩ | hnew
      · obtain ⟨cs, heq⟩ := relinked_eq t parent key other n
        exact ⟨_, hi.node_kept hn, by rw [heq]; exact hup, by rw [heq]; exact htoken⟩
      · by_cases hp : parent = q
        · rw [if_pos hp, List.mem_singleton, Prod.mk.injEq] at hnew
          obtain ⟨rfl, rfl⟩ := hnew
          exact ⟨_, hi.node_new, hp, rfl⟩
        · simp [hp] at hnew
    · intro hcase
      obtain ⟨n, hn, hup, htoken⟩ := hcase
      rcases hi.node_cases hn with ⟨old, hold, rfl⟩ | ⟨rfl, rfl⟩
      · obtain ⟨cs, heq⟩ := relinked_eq t parent key other old
        rw [heq] at hup htoken
        exact .inl ⟨old, hold, hup, htoken⟩
      · have hp : parent = q := hup
        have hkey : key = name := htoken
        exact .inr (by simp [hp, hkey])

theorem keys_nodup_insert (h : t.Sound) (hi : t.Inserted parent key node id t')
    (hfresh : t.childOf? parent key = none) (hparent : ∀ p, parent = some p → p < t.size)
    (hchildren : node.children.getD [] = []) (q : Option Nat) :
    (Ordered.keys (t'.childTable q)).Nodup := by
  by_cases hq : q = some t.size
  · subst hq
    rw [hi.table_new, hchildren]
    exact List.nodup_nil
  · rw [hi.table_eq hfresh hparent hq]
    by_cases hp : parent = q
    · subst hp
      rw [childOf?_eq_lookup, Ordered.lookup_eq_none_iff] at hfresh
      rw [if_pos rfl, Ordered.keys, List.map_append, List.nodup_append]
      refine ⟨h.keys_nodup parent, by simp, ?_⟩
      intro a ha b hb
      simp only [List.map_cons, List.map_nil, List.mem_singleton] at hb
      subst hb
      exact fun heq => hfresh (heq ▸ ha)
    · rw [if_neg hp, List.append_nil]
      exact h.keys_nodup q

theorem table_le_insert (h : t.Sound) (hi : t.Inserted parent key node id t')
    (hfresh : t.childOf? parent key = none) (hparent : ∀ p, parent = some p → p < t.size)
    (hchildren : node.children.getD [] = []) (q : Option Nat) :
    (t'.childTable q).length ≤ Limits.childrenPerNode := by
  by_cases hq : q = some t.size
  · subst hq
    rw [hi.table_new, hchildren]
    exact Nat.zero_le _
  · rw [hi.table_eq hfresh hparent hq, List.length_append]
    have hold := h.table_le q
    by_cases hp : parent = q
    · subst hp
      have hlt := hi.table_lt
      rw [if_pos rfl, List.length_singleton]
      omega
    · rw [if_neg hp, List.length_nil]
      omega

theorem relinked_children (t : Tree) (parent : Option Nat) (key : String) (other : Nat) (n : Node) :
    (t.relinked parent key other n).children = n.children
      ∨ ∃ entry rest, (t.relinked parent key other n).children = some (entry :: rest) := by
  unfold relinked
  split
  · refine .inr ?_
    simp only [linkChild]
    cases n.children.getD [] with
    | nil => exact ⟨_, _, rfl⟩
    | cons entry rest =>
      obtain ⟨name, child⟩ := entry
      simp only [Ordered.put]
      split
      · exact ⟨_, _, rfl⟩
      · exact ⟨_, _, rfl⟩
  · exact .inl rfl

/-- A node inserted under a new name, in its place, leaves the tree sound.  A container starts with
an empty table and any other node with none. -/
theorem insert (h : t.Sound) (hi : t.Inserted parent key node id t')
    (hfresh : t.childOf? parent key = none) (hparent : ∀ p, parent = some p → p < t.size)
    (hplaced : t'.Placed (t.stored parent key node))
    (hchildren : node.children = if node.isContainer then some [] else none) : t'.Sound := by
  have he := hi.extends hfresh hparent
  have hempty : node.children.getD [] = [] := by rw [hchildren]; split <;> rfl
  constructor
  · intro other n hn
    rcases hi.node_cases hn with ⟨old, hold, rfl⟩ | ⟨rfl, rfl⟩
    · obtain ⟨cs, heq⟩ := relinked_eq t parent key other old
      rw [heq]
      show old.id = other
      exact h.id_eq hold
    · rfl
  · exact h.mem_table_insert hi hfresh hparent hempty
  · exact h.keys_nodup_insert hi hfresh hparent hempty
  · intro other p n hn hup
    rcases hi.node_cases hn with ⟨old, hold, rfl⟩ | ⟨rfl, rfl⟩
    · obtain ⟨cs, heq⟩ := relinked_eq t parent key other old
      rw [heq] at hup
      exact h.parent_lt hold hup
    · exact hparent p hup
  · intro other n hn
    rcases hi.node_cases hn with ⟨old, hold, rfl⟩ | ⟨-, rfl⟩
    · obtain ⟨cs, heq⟩ := relinked_eq t parent key other old
      rw [heq]
      exact (h.placed hold).mono he cs
    · exact hplaced
  · intro other n hn hcontainer
    rcases hi.node_cases hn with ⟨old, hold, rfl⟩ | ⟨-, rfl⟩
    · rcases relinked_children t parent key other old with hsame | ⟨entry, rest, hsome⟩
      · obtain ⟨cs, heq⟩ := relinked_eq t parent key other old
        rw [hsame]
        refine h.container_children hold ?_
        rw [heq] at hcontainer
        exact hcontainer
      · simp [hsome]
    · have hc : node.isContainer = true := hcontainer
      simp [stored, hchildren, hc]
  · intro other n hn hplain
    rcases hi.node_cases hn with ⟨old, hold, rfl⟩ | ⟨-, rfl⟩
    · rcases relinked_children t parent key other old with hsame | ⟨entry, rest, hsome⟩
      · obtain ⟨cs, heq⟩ := relinked_eq t parent key other old
        rw [hsame]
        refine h.plain_children hold ?_
        rw [heq] at hplain
        exact hplain
      · simp [hsome]
    · have hc : node.isContainer = false := hplain
      simp [stored, hchildren, hc]
  · rw [hi.size_eq]
    exact hi.size_lt
  · exact h.table_le_insert hi hfresh hparent hempty

/-- Members are only added below a container, so another container keeps the ones it has. -/
theorem hasMembers_insert (hi : t.Inserted parent key node id t')
    (hfresh : t.childOf? parent key = none) (hparent : ∀ p, parent = some p → p < t.size)
    {other : Nat} {n : Node} (hm : t.HasMembers n)
    (hother : n.isContainer = false ∨ parent ≠ some other) :
    t'.HasMembers (t.relinked parent key other n) := by
  rcases hother with hplain | hne
  · refine .of_plain ?_
    obtain ⟨cs, heq⟩ := relinked_eq t parent key other n
    rw [heq]
    exact hplain
  · have hsame : t.relinked parent key other n = n := by simp [relinked, hne]
    rw [hsame]
    exact hm.mono (hi.extends hfresh hparent)

end Sound

end Tree
end ChainMapping
