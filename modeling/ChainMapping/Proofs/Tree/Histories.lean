import ChainMapping.Proofs.Tree.Resolution

/-!
# Histories of a tree

A tree starts empty and is changed by two kinds of calls: an override is added, or a chain is
resolved, with any source of type information and with or without success.  A tree is well formed
after every list of calls, and a chain that fails leaves no trace in it.
-/

namespace ChainMapping
namespace Tree

/-- A tree without nodes. -/
def fresh (side : Side) (rootType : TypeRef) (overrides : List (String × String)) : Tree :=
  { side, rootType, overrides }

/-- Something that is done to a tree. -/
inductive Call where
  | override (path concrete : String)
  | resolve (source : Introspector) (text : String)

/-- The tree after a call. -/
def apply (t : Tree) : Call → Tree
  | .override path concrete => t.addOverride path concrete
  | .resolve source text => (t.resolveText source text).tree

/-- The tree after calls, one after the other. -/
def after (t : Tree) (calls : List Call) : Tree := calls.foldl apply t

theorem wellFormed_fresh (side : Side) (rootType : TypeRef) (overrides : List (String × String)) :
    (fresh side rootType overrides).WellFormed := wellFormed_empty rfl rfl

theorem table_addOverride (t : Tree) (path concrete : String) (parent : Option Nat) :
    (t.addOverride path concrete).childTable parent = t.childTable parent := by
  cases parent <;> rfl

/-- Nodes and links do not depend on the overrides. -/
theorem WellFormed.addOverride {t : Tree} (h : t.WellFormed) (path concrete : String) :
    (t.addOverride path concrete).WellFormed where
  id_eq := h.id_eq
  mem_table := by
    intro parent key id
    rw [table_addOverride]
    exact h.mem_table
  keys_nodup := h.keys_nodup
  parent_lt := h.parent_lt
  placed hn := by
    cases h.placed hn with
    | first parent isFirst role index path name => exact .first parent isFirst role index path name
    | below parent node plain isFirst role index path name =>
      exact .below parent node plain isFirst role index path name
    | member parent node container isFirst role index path =>
      exact .member parent node container isFirst role index path
  container_children := h.container_children
  plain_children := h.plain_children
  size_le := h.size_le
  table_le := h.table_le
  members hn := ⟨(h.members hn).collection, (h.members hn).map⟩

theorem WellFormed.apply {t : Tree} (h : t.WellFormed) (call : Call) :
    (t.apply call).WellFormed := by
  cases call with
  | override path concrete => exact h.addOverride path concrete
  | resolve source text =>
    rcases h.resolveText (i := source) text with ⟨e, -, htree⟩ | ⟨chain, leaf, -, -, hwf, -⟩
    · show (t.resolveText source text).tree.WellFormed
      rw [htree]
      exact h
    · exact hwf

theorem WellFormed.after {t : Tree} (h : t.WellFormed) (calls : List Call) :
    (t.after calls).WellFormed := by
  induction calls generalizing t with
  | nil => exact h
  | cons call rest ih => exact ih (h.apply call)

theorem WellFormed.tree_eq_of_error {t : Tree} (h : t.WellFormed) {i : Introspector} {text : String}
    {e : ChainError} (he : (t.resolveText i text).outcome = .error e) :
    (t.resolveText i text).tree = t := by
  rcases h.resolveText (i := i) text with ⟨_, -, htree⟩ | ⟨chain, leaf, hok, -⟩
  · exact htree
  · rw [hok] at he
    cases he

/-- Whatever was done to a tree before, a chain that fails to resolve leaves it as it was, in its
nodes and their order, in all tables and in whether a table is there at all. -/
theorem resolveText_tree_of_error (side : Side) (rootType : TypeRef)
    (overrides : List (String × String)) (calls : List Call) (i : Introspector) (text : String)
    (e : ChainError)
    (he : (((fresh side rootType overrides).after calls).resolveText i text).outcome = .error e) :
    (((fresh side rootType overrides).after calls).resolveText i text).tree
      = (fresh side rootType overrides).after calls :=
  ((wellFormed_fresh side rootType overrides).after calls).tree_eq_of_error he

/-- A source in which `m` is a map that says what its keys are and not what its values are, and any
other field is an object. -/
def halfMap : Introspector where
  typeRef name := .ok ⟨name, .object, []⟩
  fieldType owner field :=
    .ok ⟨owner, field, if field = "m" then ⟨"Map", .map, [⟨"Key", .scalar, []⟩]⟩
      else ⟨"Item", .object, []⟩⟩

/-- Below `a`, which had no children, the map and its key member are made before the value member
fails; all of it is taken back. -/
theorem resolveText_tree_of_error_halfMap :
    (((fresh .source ⟨"Root", .object, []⟩ []).after
        [.resolve halfMap "a", .override "a" "Item"]).resolveText halfMap "a.m<K>").outcome
      = .error (.types "a.m<K>" (.rawCollection "Item" "m" .map))
    ∧ (((fresh .source ⟨"Root", .object, []⟩ []).after
        [.resolve halfMap "a", .override "a" "Item"]).resolveText halfMap "a.m<K>").tree
      = (fresh .source ⟨"Root", .object, []⟩ []).after
        [.resolve halfMap "a", .override "a" "Item"] :=
  ⟨rfl, resolveText_tree_of_error .source ⟨"Root", .object, []⟩ []
    [.resolve halfMap "a", .override "a" "Item"] halfMap "a.m<K>" _ rfl⟩

end Tree
end ChainMapping
