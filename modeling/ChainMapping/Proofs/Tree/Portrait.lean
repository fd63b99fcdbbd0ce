import Mathlib.Data.List.Nodup
import ChainMapping.Proofs.Tree.Paths

/-!
# Nodes without their ids

Ids say in which order nodes were made, and nothing else depends on them.  A portrait is a node with
its parent named by path instead of by id, and without its table of children, which follows from the
portraits of the others.  An insertion adds one portrait and keeps the rest, and two trees with the
same portraits differ in ids and in the order of children only.
-/

namespace ChainMapping

/-- What a node says about itself, and the path of its parent. -/
structure Portrait where
  tokenIndex : Nat
  token : String
  path : String
  field : FieldType
  descriptor : Descriptor
  declared : TypeRef
  concrete : Option TypeRef
  isFirst : Bool
  side : Side
  parent : Option String
  deriving DecidableEq, Repr

def Portrait.effectiveType (p : Portrait) : TypeRef := p.concrete.getD p.declared

namespace Tree

variable {t t' : Tree}

def pathOf? (t : Tree) (id : Nat) : Option String := (t.node? id).map (·.path)

def portraitOf (t : Tree) (n : Node) : Portrait where
  tokenIndex := n.tokenIndex
  token := n.token
  path := n.path
  field := n.field
  descriptor := n.descriptor
  declared := n.declared
  concrete := n.concrete
  isFirst := n.isFirst
  side := n.side
  parent := n.parent.bind t.pathOf?

def portrait? (t : Tree) (id : Nat) : Option Portrait := (t.node? id).map t.portraitOf

/-- The portraits of all nodes, in the order of creation. -/
def portraits (t : Tree) : List Portrait := t.nodes.toList.map t.portraitOf

theorem getElem?_portraits (t : Tree) (id : Nat) : t.portraits[id]? = t.portrait? id := by
  simp [portraits, portrait?, node?]

theorem length_portraits (t : Tree) : t.portraits.length = t.size := by
  simp [portraits, size]

theorem portrait?_of_node {id : Nat} {n : Node} (hn : t.node? id = some n) :
    t.portrait? id = some (t.portraitOf n) := by
  rw [portrait?, hn, Option.map_some]

theorem pathOf?_of_node {id : Nat} {n : Node} (hn : t.node? id = some n) :
    t.pathOf? id = some n.path := by
  rw [pathOf?, hn, Option.map_some]

theorem mem_portraits {p : Portrait} :
    p ∈ t.portraits ↔ ∃ id n, t.node? id = some n ∧ p = t.portraitOf n := by
  rw [List.mem_iff_getElem?]
  constructor
  · intro hmem
    obtain ⟨id, hid⟩ := hmem
    rw [getElem?_portraits] at hid
    obtain ⟨n, hn, hp⟩ := Option.map_eq_some_iff.mp hid
    exact ⟨id, n, hn, hp.symm⟩
  · intro hmem
    obtain ⟨id, n, hn, rfl⟩ := hmem
    exact ⟨id, by rw [getElem?_portraits, portrait?_of_node hn]⟩

theorem portraitOf_mem {id : Nat} {n : Node} (hn : t.node? id = some n) :
    t.portraitOf n ∈ t.portraits := mem_portraits.mpr ⟨id, n, hn, rfl⟩

theorem mem_of_portrait? {id : Nat} {p : Portrait} (hp : t.portrait? id = some p) :
    p ∈ t.portraits := by
  obtain ⟨n, hn, rfl⟩ := Option.map_eq_some_iff.mp hp
  exact portraitOf_mem hn

/-! ## Trees that grow -/

theorem Extends.pathOf? (he : t.Extends t') {id : Nat} {n : Node} (hn : t.node? id = some n) :
    t'.pathOf? id = t.pathOf? id := by
  obtain ⟨children, hn'⟩ := he.node hn
  rw [pathOf?_of_node hn, pathOf?_of_node hn']

theorem Sound.parent_pathOf? (h : t.Sound) (he : t.Extends t') {id : Nat} {n : Node}
    (hn : t.node? id = some n) : n.parent.bind t'.pathOf? = n.parent.bind t.pathOf? := by
  cases hup : n.parent with
  | none => rfl
  | some p =>
    have hlt : p < t.size := Nat.lt_trans (h.parent_lt hn hup) (node?_lt hn)
    obtain ⟨up, hnode⟩ := exists_node_of_lt hlt
    exact he.pathOf? hnode

/-- A node looks the same in a tree that grew. -/
theorem Sound.portraitOf_extends (h : t.Sound) (he : t.Extends t') {id : Nat} {n : Node}
    (hn : t.node? id = some n) (children : Option (List (String × Nat))) :
    t'.portraitOf { n with children } = t.portraitOf n := by
  have hparent := h.parent_pathOf? he hn
  simp only [portraitOf, hparent]

theorem Sound.portrait?_extends (h : t.Sound) (he : t.Extends t') {id : Nat} {p : Portrait}
    (hp : t.portrait? id = some p) : t'.portrait? id = some p := by
  obtain ⟨n, hn, rfl⟩ := Option.map_eq_some_iff.mp hp
  obtain ⟨children, hn'⟩ := he.node hn
  rw [portrait?_of_node hn', h.portraitOf_extends he hn]

/-- An insertion adds the portrait of the new node at the end. -/
theorem Inserted.portraits_eq {parent : Option Nat} {key : String} {node : Node} {id : Nat}
    (hi : t.Inserted parent key node id t') (h : t.Sound)
    (hfresh : t.childOf? parent key = none) (hparent : ∀ p, parent = some p → p < t.size) :
    t'.portraits = t.portraits
      ++ [{ t.portraitOf node with token := key, parent := parent.bind t.pathOf? }] := by
  have he := hi.extends hfresh hparent
  have hup : parent.bind t'.pathOf? = parent.bind t.pathOf? := by
    cases parent with
    | none => rfl
    | some p =>
      obtain ⟨up, hnode⟩ := exists_node_of_lt (hparent p rfl)
      exact he.pathOf? hnode
  apply List.ext_getElem?
  intro other
  rw [getElem?_portraits]
  rcases Nat.lt_trichotomy other t.size with hlt | heq | hgt
  · obtain ⟨n, hn⟩ := exists_node_of_lt hlt
    have hkept := h.portrait?_extends he (portrait?_of_node hn)
    rw [hkept, List.getElem?_append_left (by rw [length_portraits]; exact hlt),
      getElem?_portraits, portrait?_of_node hn]
  · subst heq
    rw [portrait?_of_node hi.node_new, ← length_portraits, List.getElem?_concat_length]
    simp only [portraitOf, stored, hup]
  · have hgone : t'.node? other = none := node?_eq_none_of_le (by rw [hi.size_eq]; omega)
    rw [portrait?, hgone, Option.map_none, eq_comm, List.getElem?_eq_none_iff, List.length_append,
      length_portraits, List.length_singleton]
    omega

/-! ## Portraits in a tree as a whole -/

theorem WellFormed.portrait_of_path (h : t.WellFormed) {p q : Portrait} (hp : p ∈ t.portraits)
    (hq : q ∈ t.portraits) (hpath : p.path = q.path) : p = q := by
  obtain ⟨a, m, hm, rfl⟩ := mem_portraits.mp hp
  obtain ⟨b, n, hn, rfl⟩ := mem_portraits.mp hq
  have hsame : a = b := h.path_inj hm hn hpath
  subst hsame
  rw [hm, Option.some.injEq] at hn
  rw [hn]

theorem WellFormed.nodup_portraits (h : t.WellFormed) : t.portraits.Nodup := by
  rw [List.nodup_iff_injective_getElem]
  intro a b hab
  have ha : t.portrait? a = some (t.portraits[a]) := by
    rw [← getElem?_portraits, List.getElem?_eq_getElem a.isLt]
    rfl
  have hb : t.portrait? b = some (t.portraits[b]) := by
    rw [← getElem?_portraits, List.getElem?_eq_getElem b.isLt]
    rfl
  obtain ⟨m, hm, hm'⟩ := Option.map_eq_some_iff.mp ha
  obtain ⟨n, hn, hn'⟩ := Option.map_eq_some_iff.mp hb
  have hpath : m.path = n.path := by
    have hsame : t.portraitOf m = t.portraitOf n := hm'.trans (hab.trans hn'.symm)
    exact congrArg Portrait.path hsame
  exact Fin.ext (h.path_inj hm hn hpath)

/-- The entries of a table with the paths of the nodes instead of their ids. -/
def byPath (t : Tree) (table : List (String × Nat)) : List (String × Option String) :=
  table.map fun entry => (entry.1, t.pathOf? entry.2)

theorem Sound.mem_byPath (h : t.Sound) {parent : Option Nat} {key path : String} :
    (key, some path) ∈ t.byPath (t.childTable parent)
      ↔ ∃ id n, t.node? id = some n ∧ n.parent = parent ∧ n.token = key ∧ n.path = path := by
  simp only [byPath, List.mem_map, Prod.mk.injEq]
  constructor
  · intro hmem
    obtain ⟨⟨name, id⟩, hentry, hname, hpath⟩ := hmem
    obtain ⟨n, hn, hup, htoken⟩ := h.mem_table.mp hentry
    rw [pathOf?_of_node hn, Option.some.injEq] at hpath
    exact ⟨id, n, hn, hup, htoken.trans hname, hpath⟩
  · intro hmem
    obtain ⟨id, n, hn, hup, htoken, hpath⟩ := hmem
    have hentry : (key, id) ∈ t.childTable parent := h.mem_table.mpr ⟨n, hn, hup, htoken⟩
    exact ⟨(key, id), hentry, rfl, by rw [pathOf?_of_node hn, hpath]⟩

theorem Sound.nodup_byPath (h : t.Sound) (parent : Option Nat) :
    (t.byPath (t.childTable parent)).Nodup := by
  refine List.Nodup.of_map Prod.fst ?_
  rw [byPath, List.map_map]
  exact h.keys_nodup parent

theorem Sound.path_of_mem_byPath (h : t.Sound) {parent : Option Nat}
    {entry : String × Option String} (hentry : entry ∈ t.byPath (t.childTable parent)) :
    ∃ path, entry = (entry.1, some path) := by
  obtain ⟨⟨key, id⟩, hmem, rfl⟩ := List.mem_map.mp hentry
  obtain ⟨n, hn, -, -⟩ := h.mem_table.mp hmem
  exact ⟨n.path, by rw [pathOf?_of_node hn]⟩

/-- Trees that differ in the ids of their nodes and in the order of children only. -/
structure Alike (t t' : Tree) : Prop where
  side_eq : t.side = t'.side
  rootType_eq : t.rootType = t'.rootType
  overrides_eq : t.overrides = t'.overrides
  /-- the nodes are the same, with their attributes and the paths of their parents -/
  portraits : t.portraits.Perm t'.portraits
  firstNodes : (t.byPath t.firstNodes).Perm (t'.byPath t'.firstNodes)
  /-- a table of children is there in both or in neither, with the same keys for the same nodes -/
  children : ∀ {id id' : Nat} {n n' : Node}, t.node? id = some n → t'.node? id' = some n' →
    n.path = n'.path →
    (n.children = none ↔ n'.children = none)
      ∧ (t.byPath (n.children.getD [])).Perm (t'.byPath (n'.children.getD []))

theorem Sound.children_eq_none_iff (h : t.Sound) {id : Nat} {n : Node} (hn : t.node? id = some n) :
    n.children = none ↔ n.isContainer = false ∧ t.childTable (some id) = [] := by
  rw [table_of_node hn]
  constructor
  · intro hnone
    refine ⟨?_, by rw [hnone]; rfl⟩
    by_contra hcontainer
    exact h.container_children hn (by simpa using hcontainer) hnone
  · intro hcase
    obtain ⟨hplain, hempty⟩ := hcase
    cases hc : n.children with
    | none => rfl
    | some table =>
      rw [hc, Option.getD_some] at hempty
      exact absurd (by rw [hc, hempty]) (h.plain_children hn hplain)

/-- What stands below a node can be read off the portraits. -/
theorem WellFormed.mem_byPath_iff (h : t.WellFormed) {id : Nat} {up : Node}
    (hup : t.node? id = some up) {key path : String} :
    (key, some path) ∈ t.byPath (t.childTable (some id))
      ↔ ∃ p ∈ t.portraits, p.parent = some up.path ∧ p.token = key ∧ p.path = path := by
  rw [h.mem_byPath]
  constructor
  · intro hcase
    obtain ⟨child, n, hn, hparent, htoken, hpath⟩ := hcase
    refine ⟨t.portraitOf n, portraitOf_mem hn, ?_, htoken, hpath⟩
    simp only [portraitOf, hparent, Option.bind_some, pathOf?_of_node hup]
  · intro hcase
    obtain ⟨p, hp, hparent, htoken, hpath⟩ := hcase
    obtain ⟨child, n, hn, rfl⟩ := mem_portraits.mp hp
    obtain ⟨q, hq, hqpath⟩ := Option.bind_eq_some_iff.mp hparent
    obtain ⟨m, hm, hmpath⟩ := Option.map_eq_some_iff.mp hqpath
    have hsame : q = id := h.path_inj hm hup hmpath
    exact ⟨child, n, hn, hsame ▸ hq, htoken, hpath⟩

theorem Sound.mem_byPath_first_iff (h : t.Sound) {key path : String} :
    (key, some path) ∈ t.byPath t.firstNodes
      ↔ ∃ p ∈ t.portraits, p.parent = none ∧ p.token = key ∧ p.path = path := by
  have htable : t.firstNodes = t.childTable none := rfl
  rw [htable, h.mem_byPath]
  constructor
  · intro hcase
    obtain ⟨child, n, hn, hparent, htoken, hpath⟩ := hcase
    exact ⟨t.portraitOf n, portraitOf_mem hn, by simp only [portraitOf, hparent, Option.bind_none],
      htoken, hpath⟩
  · intro hcase
    obtain ⟨p, hp, hparent, htoken, hpath⟩ := hcase
    obtain ⟨child, n, hn, rfl⟩ := mem_portraits.mp hp
    refine ⟨child, n, hn, ?_, htoken, hpath⟩
    -- A parent is there, so its path is known.
    cases hup : n.parent with
    | none => rfl
    | some q =>
      have hlt : q < t.size := Nat.lt_trans (h.parent_lt hn hup) (node?_lt hn)
      obtain ⟨up, hnode⟩ := exists_node_of_lt hlt
      simp [portraitOf, hup, pathOf?_of_node hnode] at hparent

/-- Tables with the same entries by path are the same up to order. -/
theorem Sound.perm_byPath (h : t.Sound) (h' : t'.Sound) (parent parent' : Option Nat)
    (hmem : ∀ key path, (key, some path) ∈ t.byPath (t.childTable parent)
      ↔ (key, some path) ∈ t'.byPath (t'.childTable parent')) :
    (t.byPath (t.childTable parent)).Perm (t'.byPath (t'.childTable parent')) := by
  rw [List.perm_ext_iff_of_nodup (h.nodup_byPath parent) (h'.nodup_byPath parent')]
  intro entry
  constructor
  · intro hentry
    obtain ⟨path, heq⟩ := h.path_of_mem_byPath hentry
    rw [heq] at hentry ⊢
    exact (hmem _ _).mp hentry
  · intro hentry
    obtain ⟨path, heq⟩ := h'.path_of_mem_byPath hentry
    rw [heq] at hentry ⊢
    exact (hmem _ _).mpr hentry

/-- The portraits decide everything but ids and the order of children. -/
theorem WellFormed.alike (h : t.WellFormed) (h' : t'.WellFormed) (hside : t.side = t'.side)
    (hroot : t.rootType = t'.rootType) (hoverrides : t.overrides = t'.overrides)
    (hmem : ∀ p, p ∈ t.portraits ↔ p ∈ t'.portraits) : t.Alike t' where
  side_eq := hside
  rootType_eq := hroot
  overrides_eq := hoverrides
  portraits := (List.perm_ext_iff_of_nodup h.nodup_portraits h'.nodup_portraits).mpr hmem
  firstNodes := by
    refine h.perm_byPath h'.toSound none none ?_
    intro key path
    show _ ∈ t.byPath t.firstNodes ↔ _ ∈ t'.byPath t'.firstNodes
    rw [h.mem_byPath_first_iff, h'.mem_byPath_first_iff]
    simp only [hmem]
  children {id id' n n'} hn hn' hpath := by
    have hperm : (t.byPath (t.childTable (some id))).Perm
        (t'.byPath (t'.childTable (some id'))) := by
      refine h.perm_byPath h'.toSound (some id) (some id') ?_
      intro key path
      rw [h.mem_byPath_iff hn, h'.mem_byPath_iff hn', hpath]
      simp only [hmem]
    have hsame : t.portraitOf n = t'.portraitOf n' :=
      h'.portrait_of_path ((hmem _).mp (portraitOf_mem hn)) (portraitOf_mem hn') hpath
    have hrole : n.descriptor = n'.descriptor := congrArg Portrait.descriptor hsame
    have hempty : t.childTable (some id) = [] ↔ t'.childTable (some id') = [] := by
      have hlength := hperm.length_eq
      simp only [byPath, List.length_map] at hlength
      rw [← List.length_eq_zero_iff, ← List.length_eq_zero_iff, hlength]
    rw [← table_of_node hn, ← table_of_node hn']
    refine ⟨?_, hperm⟩
    rw [h.children_eq_none_iff hn, h'.children_eq_none_iff hn', hempty, Node.isContainer,
      Node.isContainer, hrole]

end Tree
end ChainMapping
