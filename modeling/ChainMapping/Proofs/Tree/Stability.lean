import ChainMapping.Proofs.Tree.Footprint

/-!
# Resolving a chain again

A chain that has been resolved goes on being resolved to the same leaf, whatever is done to the tree
in between, and nothing is made for it again.  The checks that are made on the way pass once more,
because the nodes on the way keep what they say: the notation still fits and the hints are still
heeded.  A question is put only for a hint that names its type in other words.
-/

namespace ChainMapping
namespace Tree

variable {t t' : Tree} {P Q : Token → TypeRef → Prop}

/-- Segments that lead from one place to another, with something true of each segment and the type
of the node that it leads to. -/
inductive Along (t : Tree) (P : Token → TypeRef → Prop) :
    Option Nat → List Token → Option Nat → Prop where
  | nil {current : Option Nat} : Along t P current [] current
  | cons {current last : Option Nat} {token : Token} {rest : List Token} {next : Nat} {n : Node}
      (stop : t.stop? current token = some next) (node : t.node? next = some n)
      (holds : P token n.effectiveType) (further : Along t P (some next) rest last) :
      Along t P current (token :: rest) last

namespace Along

variable {current last : Option Nat} {tokens : List Token}

theorem mono (h : t.WellFormed) (he : t.Extends t') (ha : t.Along P current tokens last) :
    t'.Along P current tokens last := by
  induction ha with
  | nil => exact .nil
  | cons stop node holds _ ih =>
    obtain ⟨children, node'⟩ := he.node node
    exact .cons (h.stop?_mono he stop) node' holds ih

theorem addOverride (path concrete : String) (ha : t.Along P current tokens last) :
    (t.addOverride path concrete).Along P current tokens last := by
  induction ha with
  | nil => exact .nil
  | @cons current _ token _ _ _ stop node holds _ ih =>
    have hstop : (t.addOverride path concrete).stop? current token = t.stop? current token := by
      cases current <;> rfl
    exact .cons (hstop.trans stop) node holds ih

theorem after (h : t.WellFormed) (calls : List Call) (ha : t.Along P current tokens last) :
    (t.after calls).Along P current tokens last := by
  induction calls generalizing t with
  | nil => exact ha
  | cons call rest ih =>
    refine ih (h.apply call) ?_
    cases call with
    | override path concrete => exact ha.addOverride path concrete
    | resolve source text =>
      rcases h.resolveText (i := source) text with ⟨e, -, htree⟩ | ⟨c, leaf, -, -, -, he, -⟩
      · show (t.resolveText source text).tree.Along P current tokens last
        rw [htree]
        exact ha
      · exact ha.mono h he

theorem imp (ha : t.Along P current tokens last)
    (himp : ∀ token ∈ tokens, ∀ type, P token type → Q token type) :
    t.Along Q current tokens last := by
  induction ha with
  | nil => exact .nil
  | cons stop node holds _ ih =>
    refine .cons stop node (himp _ List.mem_cons_self _ holds) (ih ?_)
    intro token hmem
    exact himp token (List.mem_cons_of_mem _ hmem)

end Along
end Tree

namespace Resolve

variable {i : Introspector} {chain : String} {token : Token} {w : Work}

/-- A hint in the words of a type. -/
def Spells (token : Token) (type : TypeRef) : Prop :=
  ∀ hint, token.hint = some hint → hint = type.name

theorem Spells.heeds {type : TypeRef} (h : Spells token type) : Heeds i token type :=
  fun hint hhint => .inl (h hint hhint)

/-! ## The first time -/

/-- Segments that have been gone along lead on, and their hints are heeded. -/
theorem ends_steps_heeds {tokens : List Token} {current : Option Nat} {index : Nat}
    (h : w.tree.WellFormed) (hat : w.tree.At current index)
    (hnumbered : Chain.NumberedFrom index tokens)
    (hnames : ∀ token ∈ tokens, Chain.IsName token.name) :
    Ends (steps i chain current tokens) w
      (fun last w' => w'.tree.WellFormed ∧ w.tree.Extends w'.tree
        ∧ w'.tree.Along (Heeds i) current tokens last)
      (fun _ _ => True) := by
  induction tokens generalizing w current index with
  | nil => exact Ends.pure ⟨h, .refl _, .nil⟩
  | cons token rest ih =>
    obtain ⟨rfl, hrest⟩ := hnumbered
    have hname := hnames token List.mem_cons_self
    have hnames' : ∀ token ∈ rest, Chain.IsName token.name :=
      fun token hmem => hnames token (List.mem_cons_of_mem _ hmem)
    refine Ends.bind (Ends.mono (Ends.and (ends_step h.toSound h (.refl _) hat hname)
      (drafts_step h hat hname)) (fun _ _ hok => hok) (fun _ _ _ => trivial)) ?_
    rintro next w₁ ⟨⟨hwf, he, -, hstop, hnext⟩, hhow⟩
    have hheeds : ∃ n, w₁.tree.node? next = some n ∧ Heeds i token n.effectiveType := by
      rcases hhow with ⟨hsame, hfound⟩ | ⟨-, d, hd, hportraits⟩
      · rw [hsame]
        exact hfound
      · obtain ⟨n, hn, -⟩ := hnext
        have hmade := Tree.heeds_stop hd
        rw [← hwf.effectiveType_made he hat hstop hd hportraits hn] at hmade
        exact ⟨n, hn, hmade⟩
    obtain ⟨n, hn, hheeds⟩ := hheeds
    refine (ih hwf hnext hrest hnames').mono ?_ (fun _ _ _ => trivial)
    rintro last w₂ ⟨hwf₂, he₂, halong⟩
    obtain ⟨children, hn₂⟩ := he₂.node hn
    exact ⟨hwf₂, he.trans he₂, .cons (hwf.stop?_mono he₂ hstop) hn₂ hheeds halong⟩

/-! ## The next time -/

theorem ends_checkHint_again {n : Node} (hheeds : Heeds i token n.effectiveType) :
    Ends (checkHint i chain token n) w
      (fun _ w' => w'.tree = w.tree ∧ (Spells token n.effectiveType → w'.calls = w.calls))
      (fun _ _ => False) := by
  unfold checkHint
  cases hhint : token.hint with
  | none => exact ⟨rfl, fun _ => rfl⟩
  | some hint =>
    simp only
    by_cases hsame : hint = n.effectiveType.name
    · rw [if_neg (not_not.mpr hsame)]
      exact ⟨rfl, fun _ => rfl⟩
    · rw [if_pos hsame]
      obtain ⟨named, hnamed, hname⟩ := (hheeds hint hhint).resolve_left hsame
      have hspells : ¬Spells token n.effectiveType := fun hspells => hsame (hspells hint hhint)
      rw [hnamed]
      have hpass : ¬named.name ≠ n.effectiveType.name := not_not.mpr hname
      show Ends (if named.name ≠ n.effectiveType.name then _ else _) _ _ _
      rw [if_neg hpass]
      exact ⟨rfl, fun h => absurd h hspells⟩

theorem ends_step_again {current : Option Nat} {next : Nat} {n : Node}
    (hstop : w.tree.stop? current token = some next) (hn : w.tree.node? next = some n)
    (hheeds : Heeds i token n.effectiveType) :
    Ends (step i chain current token) w
      (fun next' w' => next' = next ∧ w'.tree = w.tree
        ∧ (Spells token n.effectiveType → w'.calls = w.calls))
      (fun _ _ => False) := by
  obtain ⟨id, m, hc, hm, hfits, rfl⟩ := Tree.stop?_eq_some hstop
  have hfits' : notationError? m.descriptor chain token = none := fits_any hfits
  unfold step checkNotation
  refine Resolving.ends_tree_bind ?_
  simp only [hc, hm, hfits', hn]
  show Ends (checkHint i chain token n >>= fun _ => pure _) w _ _
  refine Ends.bind (ends_checkHint_again hheeds) ?_
  rintro ⟨⟩ w₁ ⟨htree, hcalls⟩
  exact Ends.pure ⟨rfl, htree, hcalls⟩

/-- Segments that lead on and whose hints are heeded are gone along once more.  Nothing is made, and
nothing is asked if the hints are spelled as the types are. -/
theorem ends_steps_again {tokens : List Token} {current last : Option Nat}
    (ha : w.tree.Along (Heeds i) current tokens last) :
    Ends (steps i chain current tokens) w
      (fun last' w' => last' = last ∧ w'.tree = w.tree
        ∧ (w.tree.Along Spells current tokens last → w'.calls = w.calls))
      (fun _ _ => False) := by
  induction tokens generalizing w current with
  | nil =>
    cases ha
    exact Ends.pure ⟨rfl, rfl, fun _ => rfl⟩
  | cons token rest ih =>
    cases ha with
    | cons hstop hn hheeds hfurther =>
      refine Ends.bind (ends_step_again hstop hn hheeds) ?_
      rintro _ w₁ ⟨rfl, htree, hcalls⟩
      rw [← htree] at hfurther
      refine (ih hfurther).mono ?_ (fun _ _ hfalse => hfalse)
      rintro last' w₂ ⟨rfl, htree₂, hcalls₂⟩
      refine ⟨rfl, htree₂.trans htree, fun hspelled => ?_⟩
      cases hspelled with
      | cons hstop' hn' hspells hfurther' =>
        rw [hstop] at hstop'
        cases hstop'
        rw [hn] at hn'
        cases hn'
        rw [← htree] at hfurther'
        rw [hcalls₂ hfurther', hcalls hspells]

end Resolve

namespace Tree

variable {t : Tree} {i : Introspector} {text : String} {c : Chain} {leaf : Nat}

/-- A chain whose segments lead on is resolved again, and the tree stays. -/
theorem resolveText_along (hparse : Chain.parse text = .ok c) (hanchors : c.anchorCount ≤ 1)
    (ha : t.Along (Resolve.Heeds i) none c.tokens (some leaf)) :
    (t.resolveText i text).outcome = .ok (c, leaf) ∧ (t.resolveText i text).tree = t
      ∧ (t.Along Resolve.Spells none c.tokens (some leaf) → (t.resolveText i text).calls = 0) := by
  have hagain : Ends (Resolve.steps i c.text none c.tokens) { tree := t } _ _ :=
    Resolve.ends_steps_again ha
  obtain ⟨last, w, hrun, rfl, htree, hcalls⟩ := hagain.exists_ok
  rw [resolveText_of_steps hparse hanchors hrun]
  exact ⟨rfl, htree, hcalls⟩

/-! ## Hints in the words of the types -/

/-- Every hint of a chain is the name of the type of the node that its segment leads to. -/
def HintsSpelled (t : Tree) (c : Chain) : Prop :=
  ∀ (k : Nat) (token : Token) (hint : String), c.tokens[k]? = some token →
    token.hint = some hint →
    ∃ id n, t.findByPath? (c.normalPrefix k) = some id ∧ t.node? id = some n
      ∧ hint = n.effectiveType.name

theorem WellFormed.along_spells {P : Token → TypeRef → Prop} (h : t.WellFormed)
    (hspelled : t.HintsSpelled c) {done tokens : List Token} (htokens : c.tokens = done ++ tokens)
    (hnumbered : Chain.NumberedFrom done.length tokens) {current last : Option Nat}
    (hreached : t.Reached done current) (hat : t.At current done.length)
    (ha : t.Along P current tokens last) : t.Along Resolve.Spells current tokens last := by
  induction tokens generalizing done current with
  | nil =>
    cases ha
    exact .nil
  | cons token rest ih =>
    cases ha with
    | @cons _ _ _ _ next n stop node holds further =>
      obtain ⟨hindex, hrest⟩ := hnumbered
      have hhere : c.tokens[done.length]? = some token := by
        rw [htokens, List.getElem?_append_right (Nat.le_refl _), Nat.sub_self]
        rfl
      have hcut : c.tokens.take (done.length + 1) = done ++ [token] := by
        rw [htokens, List.take_append, List.take_of_length_le (Nat.le_succ _)]
        simp
      rw [← hindex] at hat
      have hreached' := h.reached_stop? hreached hat stop
      have hpath : n.path = c.normalPrefix done.length := by
        have hpath := hreached'.2
        rw [pathOf?_of_node node, Option.some.injEq] at hpath
        rw [hpath, Chain.normalPrefix, hcut]
      have hspells : Resolve.Spells token n.effectiveType := by
        intro hint hhint
        obtain ⟨id, m, hfind, hm, heq⟩ := hspelled done.length token hint hhere hhint
        rw [← hpath, h.findByPath? node, Option.some.injEq] at hfind
        rw [← hfind, node, Option.some.injEq] at hm
        rw [heq, hm]
      have hlength : (done ++ [token]).length = done.length + 1 := by simp
      refine .cons stop node hspells (ih ?_ ?_ hreached' ?_ further)
      · rw [htokens, List.append_assoc]
        rfl
      · rw [hlength]
        exact hrest
      · rw [hlength, ← hindex]
        exact h.at_of_stop? hat stop

end Tree

/-! ## Chains with the same normal form -/

/-- An anchor that stands on a collection, if there is one. -/
def Token.AnchorsCollection (token : Token) : Prop :=
  token.shape.anchor?.isSome = true → token.shape.isCollection = true

theorem Shape.isCollection_of_suffix {shape : Shape} (h : shape.suffix = "[*]") :
    shape.isCollection = true := by
  rcases shape with _ | _ | ⟨_ | _ | _, _⟩ <;>
    simp [suffix, isCollection, MapSide.marker] at h ⊢

theorem Shape.eq_plain_of_suffix {shape : Shape} (h : shape.suffix = "") : shape = plain := by
  rcases shape with _ | _ | ⟨_ | _ | _, _⟩ <;> simp [suffix, MapSide.marker] at h ⊢

/-- A notation fits where another one of the same normal form does, but for anchors. -/
theorem Resolve.fits_of_suffix {d : Descriptor} {chain chain' : String} {token token' : Token}
    (hsuffix : token.shape.suffix = token'.shape.suffix) (hanchor : token'.AnchorsCollection)
    (hfits : notationError? d chain token = none) : notationError? d chain' token' = none := by
  cases hcollection : d.isCollection with
  | true =>
    rw [Shape.suffix_of_collection (shape_of_collection hfits hcollection)] at hsuffix
    rw [notationError?, if_pos hcollection, if_pos (Shape.isCollection_of_suffix hsuffix.symm)]
  | false =>
    cases hmap : d.isMap with
    | true =>
      obtain ⟨side, hside⟩ := side_of_fits hmap hfits
      rw [Shape.side?_of_suffix hsuffix] at hside
      have hnone : token'.shape.anchor?.isSome = false := by
        rw [Bool.eq_false_iff]
        intro hsome
        have hshape := hanchor hsome
        cases hs : token'.shape <;> simp [hs, Shape.isCollection, Shape.side?] at hshape hside
      simp [notationError?, hcollection, hmap, hside, hnone]
    | false =>
      have hplain : d.isContainer = false := by
        rw [Descriptor.isContainer, hcollection, hmap]
        rfl
      rw [suffix_of_plain hfits hplain] at hsuffix
      have hshape : token'.shape = .plain := Shape.eq_plain_of_suffix hsuffix.symm
      simp [notationError?, hcollection, hmap, Token.isContainer, hshape, Shape.anchor?,
        Shape.side?, Shape.isContainer, Shape.isCollection, Shape.isMap]

namespace Tree

variable {t : Tree}

theorem stop?_of_normal {current : Option Nat} {token token' : Token} {next : Nat}
    (hname : Chain.IsName token.name) (hname' : Chain.IsName token'.name)
    (hnormal : token.normal = token'.normal) (hanchor : token'.AnchorsCollection)
    (hs : t.stop? current token = some next) : t.stop? current token' = some next := by
  obtain ⟨hsame, hside⟩ := Token.normal_inj hname hname' hnormal
  have hsuffix : token.shape.suffix = token'.shape.suffix := by
    rw [Token.normal, Token.normal, hsame] at hnormal
    have hlist := congrArg String.toList hnormal
    rw [String.toList_append, String.toList_append] at hlist
    exact String.toList_inj.mp (List.append_cancel_left hlist)
  obtain ⟨id, n, hc, hn, hfits, rfl⟩ := stop?_eq_some hs
  rw [hsame] at hc
  rw [stop?_eq hc hn (Resolve.fits_of_suffix hsuffix hanchor hfits), hside]

/-- Segments of the same normal forms lead the same way; without hints there is nothing to heed. -/
theorem Along.of_normal {P : Token → TypeRef → Prop} {current last : Option Nat}
    {tokens tokens' : List Token} (ha : t.Along P current tokens last)
    (hnormal : tokens.map Token.normal = tokens'.map Token.normal)
    (hnames : ∀ token ∈ tokens, Chain.IsName token.name)
    (hnames' : ∀ token ∈ tokens', Chain.IsName token.name)
    (hhints : ∀ token ∈ tokens', token.hint = none)
    (hanchors : ∀ token ∈ tokens', token.AnchorsCollection) :
    t.Along Resolve.Spells current tokens' last := by
  induction ha generalizing tokens' with
  | nil =>
    obtain rfl : tokens' = [] := List.map_eq_nil_iff.mp hnormal.symm
    exact .nil
  | @cons current last token rest next n stop node holds further ih =>
    cases tokens' with
    | nil => cases hnormal
    | cons token' rest' =>
      simp only [List.map_cons, List.cons.injEq] at hnormal
      have hstop' := stop?_of_normal (hnames _ List.mem_cons_self) (hnames' _ List.mem_cons_self)
        hnormal.1 (hanchors _ List.mem_cons_self) stop
      have hspells : Resolve.Spells token' n.effectiveType := by
        intro hint hhint
        rw [hhints _ List.mem_cons_self] at hhint
        cases hhint
      exact .cons hstop' node hspells (ih hnormal.2
        (fun k hk => hnames k (List.mem_cons_of_mem _ hk))
        (fun k hk => hnames' k (List.mem_cons_of_mem _ hk))
        (fun k hk => hhints k (List.mem_cons_of_mem _ hk))
        (fun k hk => hanchors k (List.mem_cons_of_mem _ hk)))

end Tree

theorem Chain.tokens_of_normal {c c' : Chain} (h : c.Proper) (h' : c'.Proper)
    (heq : c.normal = c'.normal) : c.tokens.map Token.normal = c'.tokens.map Token.normal :=
  Token.join_normal_inj h.nonempty h'.nonempty h.names h'.names heq

namespace Tree

/-- A chain that stays resolved: read again it gives its leaf and leaves the tree alone, without a
question if its hints are spelled as the types are.  So do chains without hints that have its normal
form. -/
structure Settled (t : Tree) (i : Introspector) (text : String) (c : Chain) (leaf : Nat) : Prop
    where
  outcome_eq : (t.resolveText i text).outcome = .ok (c, leaf)
  tree_eq : (t.resolveText i text).tree = t
  silent : t.HintsSpelled c → (t.resolveText i text).calls = 0
  normal : ∀ (j : Introspector) (text' : String) (c' : Chain), Chain.parse text' = .ok c' →
    c'.normal = c.normal → (∀ token ∈ c'.tokens, token.hint = none) → c'.anchorCount ≤ 1 →
    (∀ token ∈ c'.tokens, token.AnchorsCollection) →
    (t.resolveText j text').outcome = .ok (c', leaf) ∧ (t.resolveText j text').tree = t
      ∧ (t.resolveText j text').calls = 0

theorem WellFormed.settled {t : Tree} (h : t.WellFormed) {i : Introspector} {text : String}
    {c : Chain} {leaf : Nat} (hparse : Chain.parse text = .ok c) (hanchors : c.anchorCount ≤ 1)
    (ha : t.Along (Resolve.Heeds i) none c.tokens (some leaf)) : t.Settled i text c leaf := by
  have hproper := (Chain.proper_of_parse hparse).2
  obtain ⟨houtcome, htree, hcalls⟩ := resolveText_along hparse hanchors ha
  refine ⟨houtcome, htree, ?_, ?_⟩
  · intro hspelled
    have hstart : c.tokens = [] ++ c.tokens := rfl
    exact hcalls (h.along_spells hspelled hstart hproper.numbered t.reached_root rfl ha)
  · intro j text' c' hparse' hnormal hhints hanchors' hcollections
    have hproper' := (Chain.proper_of_parse hparse').2
    have hspells := ha.of_normal (Chain.tokens_of_normal hproper hproper' hnormal.symm)
      hproper.names hproper'.names hhints hcollections
    have hheeds : t.Along (Resolve.Heeds j) none c'.tokens (some leaf) :=
      hspells.imp fun _ _ _ hspelled => hspelled.heeds
    obtain ⟨houtcome', htree', hcalls'⟩ := resolveText_along hparse' hanchors' hheeds
    exact ⟨houtcome', htree', hcalls' hspells⟩

/-- Once a chain has been resolved, it stays resolved, whatever calls come after. -/
theorem settled_after (side : Side) (rootType : TypeRef) (overrides : List (String × String))
    (earlier later : List Call) (i : Introspector) (text : String) (c : Chain) (leaf : Nat)
    (hok : (((fresh side rootType overrides).after earlier).resolveText i text).outcome
      = .ok (c, leaf)) :
    ((fresh side rootType overrides).after (earlier ++ .resolve i text :: later)).Settled i text c
      leaf := by
  have h := (wellFormed_fresh side rootType overrides).after earlier
  obtain ⟨hparse, hanchors, w, hrun, htree⟩ := resolveText_ok hok
  have hproper := (Chain.proper_of_parse hparse).2
  have hat : ((fresh side rootType overrides).after earlier).At none 0 := rfl
  obtain ⟨hwf, -, halong⟩ := (Resolve.ends_steps_heeds h hat hproper.numbered
    hproper.names).of_ok hrun
  have hsplit : (fresh side rootType overrides).after (earlier ++ .resolve i text :: later)
      = w.tree.after later := by
    rw [Tree.after, List.foldl_append, List.foldl_cons, ← htree]
    rfl
  rw [hsplit]
  exact (hwf.after later).settled hparse hanchors (halong.after hwf later)

/-- A source in which `items` is a list and any other field is an object. -/
def shelf : Introspector where
  typeRef name := .ok ⟨name, .object, []⟩
  fieldType owner field :=
    .ok ⟨owner, field, if field = "items" then ⟨"List", .list, [⟨"Item", .object, []⟩]⟩
      else ⟨"Thing", .object, []⟩⟩

/-- `items(Book)[*].title` as it is read. -/
def bookTitle : Chain where
  text := "items(Book)[*].title"
  tokens :=
    [⟨"items(Book)[*]", "items", 0, ⟨0, 14⟩, .collection none none, some "Book"⟩,
     ⟨"title", "title", 1, ⟨15, 20⟩, .plain, none⟩]

/-- The chain makes its nodes with a hint.  Then comes an override for one of them, a chain that
takes it further and one that fails. -/
theorem settled_after_shelf :
    ((fresh .source ⟨"Root", .object, []⟩ []).after
        ([.resolve shelf "size"] ++ .resolve shelf "items(Book)[*].title"
          :: [.override "items[*]" "Film", .resolve shelf "items[^*].title.length",
            .resolve shelf "items.title"])).Settled shelf "items(Book)[*].title" bookTitle 3 :=
  settled_after .source ⟨"Root", .object, []⟩ [] [.resolve shelf "size"]
    [.override "items[*]" "Film", .resolve shelf "items[^*].title.length",
      .resolve shelf "items.title"] shelf "items(Book)[*].title" bookTitle 3
    (by decide +kernel)

end Tree
end ChainMapping
