import ChainMapping.Proofs.Chain.Prefix
import ChainMapping.Proofs.Tree.Histories
import ChainMapping.Proofs.Tree.Portrait

/-!
# Paths and normal forms

The path of a node is put together from parents, members and map sides; the normal form of a chain
is put together from its segments.  Where a chain leads, the two are the same text, after every
segment.  Paths tell nodes apart, so normal forms tell apart where chains lead.
-/

namespace ChainMapping

namespace Text

theorem join_concat {parts : List String} (h : parts ≠ []) (separator last : String) :
    join separator (parts ++ [last]) = join separator parts ++ separator ++ last := by
  induction parts with
  | nil => exact absurd rfl h
  | cons first rest ih =>
    cases rest with
    | nil => rw [List.cons_append, List.nil_append, join_cons_cons, join_singleton, join_singleton]
    | cons second more =>
      have hrest := ih (List.cons_ne_nil _ _)
      rw [List.cons_append] at hrest
      rw [List.cons_append, List.cons_append, join_cons_cons, join_cons_cons, hrest]
      simp only [String.append_assoc]

end Text

/-- The path of a field that is named after some segments. -/
def Chain.fieldPath (done : List Token) (name : String) : String :=
  Text.join "." (done.map Token.normal ++ [name])

theorem Chain.fieldPath_suffix (done : List Token) (token : Token) :
    Chain.fieldPath done token.name ++ token.shape.suffix
      = Text.join "." ((done ++ [token]).map Token.normal) := by
  rw [fieldPath, List.map_append, List.map_singleton]
  cases done with
  | nil =>
    rw [List.map_nil, List.nil_append, List.nil_append, Text.join_singleton, Text.join_singleton]
    rfl
  | cons first rest =>
    have hne : (first :: rest).map Token.normal ≠ [] := List.cons_ne_nil _ _
    rw [Text.join_concat hne, Text.join_concat hne, String.append_assoc]
    rfl

theorem Resolve.suffix_of_plain {d : Descriptor} {chain : String} {token : Token}
    (hfits : notationError? d chain token = none) (hplain : d.isContainer = false) :
    token.shape.suffix = "" := by
  have htoken : token.isContainer = false := (isContainer_of_fits hfits).trans hplain
  cases hshape : token.shape with
  | plain => rfl
  | collection index anchor =>
    simp [Token.isContainer, hshape, Shape.isContainer, Shape.isCollection] at htoken
  | map side anchor => simp [Token.isContainer, hshape, Shape.isContainer, Shape.isMap] at htoken

theorem Resolve.shape_of_collection {d : Descriptor} {chain : String} {token : Token}
    (hfits : notationError? d chain token = none) (hcollection : d.isCollection = true) :
    token.shape.isCollection = true := by
  cases hshape : token.shape.isCollection with
  | true => rfl
  | false =>
    simp only [notationError?, hcollection, hshape, if_true, Bool.false_eq_true, if_false] at hfits
    split at hfits <;> simp at hfits

theorem Shape.suffix_of_collection {shape : Shape} (h : shape.isCollection = true) :
    shape.suffix = "[*]" := by
  cases shape with
  | collection index anchor => rfl
  | plain => simp [isCollection] at h
  | map side anchor => simp [isCollection] at h

theorem Shape.suffix_of_side {shape : Shape} {side : MapSide} (h : shape.side? = some side) :
    shape.suffix = side.marker := by
  cases shape with
  | map side' anchor =>
    have hside : side' = some side := h
    rw [hside]
    rfl
  | plain => simp [side?] at h
  | collection index anchor => simp [side?] at h

namespace Tree

variable {t : Tree}

/-! ## One segment -/

/-- The member that a segment addresses has the role that its suffix says. -/
theorem WellFormed.role_of_memberOf? (h : t.WellFormed) {id m : Nat} {n : Node}
    (hn : t.node? id = some n) {token : Token}
    (hfits : Resolve.notationError? n.descriptor "" token = none)
    (hm : t.memberOf? id token.shape.side? = some m) :
    ∃ d : Descriptor, t.role? m = some d ∧ d.pathSuffix = token.shape.suffix := by
  rcases (memberOf?_eq_some_iff hn).mp hm with ⟨hmap, side, hside, hc⟩ | ⟨-, hcollection, hc⟩
  · obtain ⟨key, value, hchildren, hkey, hvalue⟩ := (h.members hn).map hmap
    rw [childOf?_eq_lookup, table_of_node hn, hchildren, Option.getD_some] at hc
    rw [Shape.suffix_of_side hside]
    cases side with
    | key =>
      have hsame : key = m := by simpa using hc
      exact ⟨.mapKey, hsame ▸ hkey, rfl⟩
    | value =>
      have hne := beq_eq_false_iff_ne.mpr (Resolve.valueKey_ne_keyKey n.field.name)
      have hsame : value = m := by simpa [List.lookup_cons, hne] using hc
      exact ⟨.mapValue, hsame ▸ hvalue, rfl⟩
  · obtain ⟨member, hchildren, hrole⟩ := (h.members hn).collection hcollection
    rw [childOf?_eq_lookup, table_of_node hn, hchildren, Option.getD_some] at hc
    have hsame : member = m := by simpa using hc
    rw [Shape.suffix_of_collection (Resolve.shape_of_collection hfits hcollection)]
    exact ⟨.collectionMember, hsame ▸ hrole, rfl⟩

theorem Sound.path_of_childOf? (h : t.Sound) {current : Option Nat} {index : Nat}
    (hat : t.At current index) {key : String} {id : Nat} {n : Node}
    (hc : t.childOf? current key = some id) (hn : t.node? id = some n) :
    n.path = Resolve.pathBelow (current.bind t.node?) key := by
  obtain ⟨-, hrole⟩ := h.tokenIndex_of_childOf? hat hc hn
  obtain ⟨n', hn', hparent, htoken⟩ := h.childOf?_eq_some_iff.mp hc
  rw [hn, Option.some.injEq] at hn'
  subst hn'
  cases h.placed hn with
  | first parent _ _ _ path =>
    rw [hparent] at parent
    rw [parent, path, htoken]
    rfl
  | below parent node _ _ _ _ path =>
    rw [hparent] at parent
    rw [parent, Option.bind_some, node, path, htoken]
    rfl
  | member _ _ _ _ role =>
    rw [hrole] at role
    exact absurd role (by simp)

theorem Sound.path_of_member (h : t.Sound) {id m : Nat} {n member : Node}
    (hn : t.node? id = some n) (hcontainer : n.isContainer = true) (hm : t.node? m = some member)
    (hparent : member.parent = some id) : member.path = n.path ++ member.descriptor.pathSuffix := by
  cases h.placed hm with
  | first parent => simp [hparent] at parent
  | below parent node plain =>
    rw [hparent, Option.some.injEq] at parent
    rw [← parent, hn, Option.some.injEq] at node
    rw [← node, hcontainer] at plain
    exact absurd plain (by simp)
  | member parent node _ _ _ _ path =>
    rw [hparent, Option.some.injEq] at parent
    rw [← parent, hn, Option.some.injEq] at node
    rw [path, ← node]

/-- A segment leads to the path of its field with the suffix of its notation. -/
theorem WellFormed.path_of_stop? (h : t.WellFormed) {current : Option Nat} {token : Token}
    (hat : t.At current token.index) {next : Nat} (hs : t.stop? current token = some next) :
    t.pathOf? next
      = some (Resolve.pathBelow (current.bind t.node?) token.name ++ token.shape.suffix) := by
  obtain ⟨id, n, hc, hn, hfits, rfl⟩ := stop?_eq_some hs
  have hpath := h.path_of_childOf? hat hc hn
  cases hcontainer : n.isContainer with
  | false =>
    rw [memberOf?_of_plain hn hcontainer, Option.getD_none, pathOf?_of_node hn,
      Resolve.suffix_of_plain hfits hcontainer, String.append_empty, hpath]
  | true =>
    obtain ⟨m, member, hm, hnode, hparent, -, -⟩ := h.member_of_fits hn hcontainer hfits
    obtain ⟨d, hd, hsuffix⟩ := h.role_of_memberOf? hn hfits hm
    have hrole : member.descriptor = d := by simpa [role?, hnode] using hd
    rw [hm, Option.getD_some, pathOf?_of_node hnode,
      h.path_of_member hn hcontainer hnode hparent, hrole, hsuffix, hpath]

theorem WellFormed.at_of_stop? (h : t.WellFormed) {current : Option Nat} {token : Token}
    (hat : t.At current token.index) {next : Nat} (hs : t.stop? current token = some next) :
    t.At (some next) (token.index + 1) := by
  obtain ⟨id, n, hc, hn, hfits, rfl⟩ := stop?_eq_some hs
  exact h.at_next hn hfits (h.tokenIndex_of_childOf? hat hc hn).1

/-! ## Segments in a row -/

/-- The place where some segments have led, by its path: the root if there were none. -/
def Reached (t : Tree) (done : List Token) (current : Option Nat) : Prop :=
  match current with
  | none => done = []
  | some id => done ≠ [] ∧ t.pathOf? id = some (Text.join "." (done.map Token.normal))

theorem reached_root (t : Tree) : t.Reached [] none := rfl

theorem Reached.pathBelow {done : List Token} {current : Option Nat} (h : t.Reached done current)
    (name : String) :
    Resolve.pathBelow (current.bind t.node?) name = Chain.fieldPath done name := by
  cases current with
  | none =>
    have hnil : done = [] := h
    rw [hnil, Chain.fieldPath, List.map_nil, List.nil_append, Text.join_singleton]
    rfl
  | some id =>
    obtain ⟨hne, hpath⟩ := h
    obtain ⟨n, hn, hnpath⟩ := Option.map_eq_some_iff.mp hpath
    have hne' : done.map Token.normal ≠ [] := by simpa using hne
    rw [Chain.fieldPath, Text.join_concat hne', Option.bind_some, hn, ← hnpath]
    rfl

theorem WellFormed.reached_stop? (h : t.WellFormed) {done : List Token} {current : Option Nat}
    (hreached : t.Reached done current) {token : Token} (hat : t.At current token.index)
    {next : Nat} (hs : t.stop? current token = some next) :
    t.Reached (done ++ [token]) (some next) := by
  refine ⟨by simp, ?_⟩
  rw [h.path_of_stop? hat hs, hreached.pathBelow, Chain.fieldPath_suffix]

/-- Segments lead to the place that their normal forms say. -/
theorem WellFormed.reached_follow? (h : t.WellFormed) {done tokens : List Token}
    {current last : Option Nat} {index : Nat} (hreached : t.Reached done current)
    (hat : t.At current index) (hnumbered : Chain.NumberedFrom index tokens)
    (hf : t.follow? current tokens = some last) : t.Reached (done ++ tokens) last := by
  induction tokens generalizing done current index with
  | nil =>
    have hsame : current = last := Option.some.inj hf
    rw [List.append_nil, ← hsame]
    exact hreached
  | cons token rest ih =>
    obtain ⟨rfl, hrest⟩ := hnumbered
    obtain ⟨next, hstop, hfollow⟩ := Option.bind_eq_some_iff.mp hf
    have hnext := h.reached_stop? hreached hat hstop
    have hreached' := ih hnext (h.at_of_stop? hat hstop) hrest hfollow
    rwa [List.append_assoc] at hreached'

theorem WellFormed.at_follow? (h : t.WellFormed) {tokens : List Token} {current last : Option Nat}
    {index : Nat} (hat : t.At current index) (hnumbered : Chain.NumberedFrom index tokens)
    (hf : t.follow? current tokens = some last) : t.At last (index + tokens.length) := by
  induction tokens generalizing current index with
  | nil =>
    have hsame : current = last := Option.some.inj hf
    exact hsame ▸ hat
  | cons token rest ih =>
    obtain ⟨rfl, hrest⟩ := hnumbered
    obtain ⟨next, hstop, hfollow⟩ := Option.bind_eq_some_iff.mp hf
    have hat' := ih (h.at_of_stop? hat hstop) hrest hfollow
    rw [List.length_cons, Nat.add_comm rest.length, ← Nat.add_assoc]
    exact hat'

/-- Where a chain leads has the path that its normal form says. -/
theorem WellFormed.pathOf?_leaf (h : t.WellFormed) {chain : Chain} (hproper : chain.Proper)
    {leaf : Nat} (hf : t.follow? none chain.tokens = some (some leaf)) :
    t.pathOf? leaf = some chain.normal := by
  have hreached := h.reached_follow? t.reached_root (show t.At none 0 from rfl)
    hproper.numbered hf
  exact hreached.2

/-- Chains lead to the same node exactly if they have the same normal form. -/
theorem WellFormed.leaf_eq_iff (h : t.WellFormed) {chain chain' : Chain} (hproper : chain.Proper)
    (hproper' : chain'.Proper) {leaf leaf' : Nat}
    (hf : t.follow? none chain.tokens = some (some leaf))
    (hf' : t.follow? none chain'.tokens = some (some leaf')) :
    leaf = leaf' ↔ chain.normal = chain'.normal := by
  have hpath := h.pathOf?_leaf hproper hf
  have hpath' := h.pathOf?_leaf hproper' hf'
  constructor
  · intro heq
    rw [heq, hpath', Option.some.injEq] at hpath
    exact hpath.symm
  · intro heq
    obtain ⟨n, hn, hnpath⟩ := Option.map_eq_some_iff.mp hpath
    obtain ⟨n', hn', hnpath'⟩ := Option.map_eq_some_iff.mp hpath'
    exact h.path_inj hn hn' (by rw [hnpath, hnpath', heq])

end Tree
end ChainMapping
