import Mathlib.Data.List.Zip
import ChainMapping.Proofs.Tree.Founded
import ChainMapping.Proofs.Tree.Histories

/-!
# What earlier chains change

Nothing, for chains without hints.  A chain comes to the same on a tree that others have made and on
an empty one: to the same error, or to a leaf that says the same.  So it does not matter in which
order chains are resolved, and the trees at the end differ in ids and in the order of children only.

The one thing that earlier chains can do is to fill the tree.  An empty tree has room for every
chain, because a segment makes at most three nodes.
-/

namespace ChainMapping

/-- What is said of a text that may be no chain is decided by reading it. -/
def Chain.decidableOfParse (text : String) (p : Chain → Prop) [DecidablePred p] :
    Decidable (∀ c, Chain.parse text = .ok c → p c) :=
  match h : Chain.parse text with
  | .ok c =>
    decidable_of_iff (p c)
      ⟨fun hc c' hc' => by cases hc'; exact hc, fun hall => hall c rfl⟩
  | .error _ => isTrue fun c' hc' => by cases hc'

instance (text : String) : Decidable (Chain.HintFree text) :=
  Chain.decidableOfParse text fun c => ∀ token ∈ c.tokens, token.hint = none

/-- The outcome is that a tree was full. -/
def reportsFull {α : Type} : Except ChainError α → Bool
  | .error (.types _ (.treeTooLarge _)) => true
  | _ => false

namespace Basis

/-- The outcome of a chain without a tree. -/
def tells (b : Basis) (text : String) : Except ChainError (Chain × Option Portrait) :=
  (b.survey text).map fun found => (found.1, found.2.1)

/-- What a chain makes, if it can be resolved. -/
def made (b : Basis) (text : String) : List Portrait :=
  match b.survey text with
  | .ok found => found.2.2
  | .error _ => []

end Basis

namespace Tree

variable {t : Tree} {i : Introspector} {text : String}

/-- The outcome of a chain: its error, or the chain with what its leaf says. -/
def tells (t : Tree) (i : Introspector) (text : String) :
    Except ChainError (Chain × Option Portrait) :=
  (t.resolveText i text).outcome.map fun found =>
    (found.1, (t.resolveText i text).tree.portrait? found.2)

/-- The outcomes of chains that are resolved one after the other. -/
def tellsAll (t : Tree) (i : Introspector) :
    List String → List (Except ChainError (Chain × Option Portrait))
  | [] => []
  | text :: rest => t.tells i text :: (t.resolveText i text).tree.tellsAll i rest

/-- Chains that are resolved one after the other without filling the tree. -/
def WithinLimits (t : Tree) (i : Introspector) (texts : List String) : Prop :=
  ∀ told ∈ t.tellsAll i texts, reportsFull told = false

instance (t : Tree) (i : Introspector) (texts : List String) :
    Decidable (t.WithinLimits i texts) :=
  inferInstanceAs (Decidable (∀ told ∈ t.tellsAll i texts, reportsFull told = false))

/-- The tree after chains have been resolved one after the other. -/
def afterAll (t : Tree) (i : Introspector) (texts : List String) : Tree :=
  t.after (texts.map (Call.resolve i))

theorem WellFormed.basis_resolveText (h : t.WellFormed) (i : Introspector) (text : String) :
    (t.resolveText i text).tree.basis i = t.basis i := by
  rcases h.resolveText (i := i) text with ⟨e, -, htree⟩ | ⟨c, leaf, -, -, -, he, -⟩
  · rw [htree]
  · exact he.basis_eq i

theorem WellFormed.founded_resolveText (h : t.WellFormed)
    (hf : (t.basis i).Founded t.portraits) (hhints : Chain.HintFree text) :
    ((t.resolveText i text).tree.basis i).Founded (t.resolveText i text).tree.portraits := by
  rcases h.resolveText_survey hf hhints with ⟨c, leaf, made, -, -, -, hf'⟩ | ⟨e, hout, -⟩
  · exact hf'
  · rw [h.tree_eq_of_error hout]
    exact hf

/-! ## One chain -/

/-- A chain without hints tells what its survey does, and adds what its survey makes. -/
theorem WellFormed.tells_eq (h : t.WellFormed) (hf : (t.basis i).Founded t.portraits)
    (hhints : Chain.HintFree text) (hroom : reportsFull (t.tells i text) = false) :
    t.tells i text = (t.basis i).tells text
      ∧ (∀ p, p ∈ (t.resolveText i text).tree.portraits
        ↔ p ∈ t.portraits ∨ p ∈ (t.basis i).made text)
      ∧ ((t.resolveText i text).tree.basis i).Founded (t.resolveText i text).tree.portraits := by
  unfold tells at hroom ⊢
  unfold Basis.tells Basis.made
  rcases h.resolveText_survey hf hhints with ⟨c, leaf, made, hout, hsurvey, hmem, hf'⟩
    | ⟨e, hout, hcase⟩
  · rw [hout, hsurvey]
    exact ⟨rfl, hmem, hf'⟩
  · have htree := h.tree_eq_of_error hout
    rcases hcase with hsurvey | ⟨-, limit, rfl⟩
    · rw [hout, hsurvey, htree]
      exact ⟨rfl, by simp, hf⟩
    · rw [hout] at hroom
      cases hroom

theorem founded_fresh (side : Side) (rootType : TypeRef) (overrides : List (String × String))
    (i : Introspector) : ((fresh side rootType overrides).basis i).Founded
      (fresh side rootType overrides).portraits := by
  have hempty : (fresh side rootType overrides).portraits = [] := rfl
  rw [hempty]
  exact Basis.founded_nil _

/-- An empty tree has room for every chain. -/
theorem tells_fresh (side : Side) (rootType : TypeRef) (overrides : List (String × String))
    (i : Introspector) (hhints : Chain.HintFree text) :
    (fresh side rootType overrides).tells i text
      = ((fresh side rootType overrides).basis i).tells text := by
  have hf := founded_fresh side rootType overrides i
  have h := wellFormed_fresh side rootType overrides
  unfold tells Basis.tells
  rcases h.resolveText_survey hf hhints with ⟨c, leaf, made, hout, hsurvey, -⟩ | ⟨e, hout, hcase⟩
  · rw [hout, hsurvey]
    rfl
  · rcases hcase with hsurvey | ⟨hfull, -⟩
    · rw [hout, hsurvey]
      rfl
    · have hsize : (fresh side rootType overrides).size = 0 := rfl
      have hlimits : ¬Limits.childrenPerNode ≤ 0 + 3 * Limits.tokensPerChain := by decide
      rw [hsize] at hfull
      exact absurd hfull hlimits

/-! ## Chains in a row -/

theorem WellFormed.tellsAll_eq (h : t.WellFormed) (hf : (t.basis i).Founded t.portraits)
    {texts : List String} (hhints : ∀ text ∈ texts, Chain.HintFree text)
    (hroom : t.WithinLimits i texts) :
    t.tellsAll i texts = texts.map (t.basis i).tells
      ∧ (∀ p, p ∈ (t.afterAll i texts).portraits
        ↔ p ∈ t.portraits ∨ ∃ text ∈ texts, p ∈ (t.basis i).made text) := by
  induction texts generalizing t with
  | nil => exact ⟨rfl, fun p => by simp [afterAll, Tree.after]⟩
  | cons text rest ih =>
    have hhint := hhints text List.mem_cons_self
    have hhints' : ∀ text ∈ rest, Chain.HintFree text :=
      fun text hmem => hhints text (List.mem_cons_of_mem _ hmem)
    have hroom' : (t.resolveText i text).tree.WithinLimits i rest :=
      fun told hmem => hroom told (List.mem_cons_of_mem _ hmem)
    obtain ⟨htells, hmem, hf'⟩ := h.tells_eq hf hhint (hroom _ List.mem_cons_self)
    have hwf : (t.resolveText i text).tree.WellFormed := h.apply (.resolve i text)
    obtain ⟨hrest, hmem'⟩ := ih hwf hf' hhints' hroom'
    rw [h.basis_resolveText] at hrest hmem'
    refine ⟨?_, ?_⟩
    · rw [tellsAll, List.map_cons, htells, hrest]
    · intro p
      have hsplit : t.afterAll i (text :: rest) = (t.resolveText i text).tree.afterAll i rest := rfl
      rw [hsplit, hmem', hmem, or_assoc]
      simp

theorem WellFormed.basis_afterAll (h : t.WellFormed) (i : Introspector) (texts : List String) :
    (t.afterAll i texts).basis i = t.basis i := by
  induction texts generalizing t with
  | nil => rfl
  | cons text rest ih =>
    have hwf : (t.resolveText i text).tree.WellFormed := h.apply (.resolve i text)
    rw [← h.basis_resolveText i text]
    exact ih hwf

/-- For chains without hints it does not matter what was resolved before.  Each one comes to what it
comes to on an empty tree; in any other order each comes to the same, and the trees at the end are
alike. -/
theorem resolution_independent (side : Side) (rootType : TypeRef)
    (overrides : List (String × String)) (i : Introspector) (texts : List String)
    (hhints : ∀ text ∈ texts, Chain.HintFree text)
    (hroom : (fresh side rootType overrides).WithinLimits i texts) :
    (fresh side rootType overrides).tellsAll i texts
        = texts.map ((fresh side rootType overrides).tells i)
      ∧ ∀ texts', texts.Perm texts' → (fresh side rootType overrides).WithinLimits i texts' →
        (texts.zip ((fresh side rootType overrides).tellsAll i texts)).Perm
            (texts'.zip ((fresh side rootType overrides).tellsAll i texts'))
          ∧ ((fresh side rootType overrides).afterAll i texts).Alike
            ((fresh side rootType overrides).afterAll i texts') := by
  have h := wellFormed_fresh side rootType overrides
  have hf : ((fresh side rootType overrides).basis i).Founded
      (fresh side rootType overrides).portraits := founded_fresh side rootType overrides i
  have htells {texts : List String} (hhints : ∀ text ∈ texts, Chain.HintFree text) :
      texts.map ((fresh side rootType overrides).basis i).tells
        = texts.map ((fresh side rootType overrides).tells i) :=
    List.map_congr_left fun text hmem =>
      (tells_fresh side rootType overrides i (hhints text hmem)).symm
  obtain ⟨htold, hmem⟩ := h.tellsAll_eq hf hhints hroom
  refine ⟨htold.trans (htells hhints), ?_⟩
  intro texts' hperm hroom'
  have hhints' : ∀ text ∈ texts', Chain.HintFree text :=
    fun text htext => hhints text (hperm.mem_iff.mpr htext)
  obtain ⟨htold', hmem'⟩ := h.tellsAll_eq hf hhints' hroom'
  refine ⟨?_, ?_⟩
  · rw [htold, htold', ← List.map_prod_left_eq_zip, ← List.map_prod_left_eq_zip]
    exact hperm.map _
  · have hbasis := h.basis_afterAll i texts
    have hbasis' := h.basis_afterAll i texts'
    have hsame := hbasis.trans hbasis'.symm
    refine (h.after (texts.map (Call.resolve i))).alike (h.after (texts'.map (Call.resolve i)))
      (congrArg Basis.side hsame) (congrArg Basis.root hsame) (congrArg Basis.overrides hsame) ?_
    intro p
    show p ∈ ((fresh side rootType overrides).afterAll i texts).portraits
      ↔ p ∈ ((fresh side rootType overrides).afterAll i texts').portraits
    rw [hmem, hmem']
    simp only [hperm.mem_iff]

/-- Two chains of plain fields, one with a notation that does not fit and one that fails after half
of a map has been made; in two orders. -/
theorem resolution_independent_halfMap :
    (∀ text ∈ ["a.b", "a[*]", "a.m<K>", "c"], Chain.HintFree text)
      ∧ (fresh .source ⟨"Root", .object, []⟩ []).WithinLimits halfMap ["a.b", "a[*]", "a.m<K>", "c"]
      ∧ (fresh .source ⟨"Root", .object, []⟩ []).WithinLimits halfMap ["c", "a.m<K>", "a[*]", "a.b"]
      ∧ ((fresh .source ⟨"Root", .object, []⟩ []).afterAll halfMap
          ["a.b", "a[*]", "a.m<K>", "c"]).Alike
        ((fresh .source ⟨"Root", .object, []⟩ []).afterAll halfMap
          ["c", "a.m<K>", "a[*]", "a.b"]) := by
  have hhints : ∀ text ∈ ["a.b", "a[*]", "a.m<K>", "c"], Chain.HintFree text := by decide +kernel
  have hroom : (fresh .source ⟨"Root", .object, []⟩ []).WithinLimits halfMap
      ["a.b", "a[*]", "a.m<K>", "c"] := by decide +kernel
  have hroom' : (fresh .source ⟨"Root", .object, []⟩ []).WithinLimits halfMap
      ["c", "a.m<K>", "a[*]", "a.b"] := by decide +kernel
  have hperm : ["a.b", "a[*]", "a.m<K>", "c"].Perm ["c", "a.m<K>", "a[*]", "a.b"] := by decide
  have hindependent := resolution_independent .source ⟨"Root", .object, []⟩ [] halfMap
    ["a.b", "a[*]", "a.m<K>", "c"] hhints hroom
  exact ⟨hhints, hroom, hroom', (hindependent.2 _ hperm hroom').2⟩

end Tree
end ChainMapping
