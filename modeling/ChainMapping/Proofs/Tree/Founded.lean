import ChainMapping.Proofs.Tree.Making

/-!
# Trees that drafts give back

A tree that was made by chains without hints holds nothing that could not be made again: every node
is the draft of a segment below its parent, with its members beside it.  So a segment that finds its
node comes to the same as one that makes it, and the outcome of a whole chain is the one that
`Basis.survey` computes without any tree.
-/

namespace ChainMapping
namespace Basis

variable {b : Basis} {chain : String} {token : Token} {ps : List Portrait}

/-- Every node that is no member comes from a segment without a hint, below a node that is there,
and its members are there. -/
def Founded (b : Basis) (ps : List Portrait) : Prop :=
  ∀ p ∈ ps, p.descriptor.isMember = false →
    ∃ up chain token d, (∀ u, up = some u → u ∈ ps) ∧ token.hint = none
      ∧ b.draft chain token up = .ok d ∧ d.field = p ∧ ∀ m ∈ d.members, m ∈ ps

theorem founded_nil (b : Basis) : b.Founded [] := fun _ hp => absurd hp List.not_mem_nil

theorem isMember_of_members {up : Portrait} {ms : List Portrait}
    (h : b.members chain token up = .ok ms) : ∀ m ∈ ms, m.descriptor.isMember = true := by
  intro m hmem
  obtain ⟨key, role, hint, element, hrole, hm⟩ := exists_member_of_mem h hmem
  obtain ⟨types, -, rfl⟩ := map_eq_ok hm
  exact hrole

theorem length_members_le {up : Portrait} {ms : List Portrait}
    (h : b.members chain token up = .ok ms) : ms.length ≤ 2 := by
  rcases members_cases h with ⟨-, m, rfl, -⟩ | ⟨-, -, key, value, rfl, -, -⟩ | ⟨-, -, rfl⟩ <;> simp

/-- What a segment without a hint makes keeps the nodes founded. -/
theorem Founded.append (hf : b.Founded ps) {up : Option Portrait} (hup : ∀ u, up = some u → u ∈ ps)
    (hhint : token.hint = none) {d : Draft} (hd : b.draft chain token up = .ok d) :
    b.Founded (ps ++ d.all) := by
  intro p hp hrole
  rcases List.mem_append.mp hp with hold | hnew
  · obtain ⟨up', chain', token', d', hup', hhint', hd', hfield, hmembers⟩ := hf p hold hrole
    exact ⟨up', chain', token', d', fun u hu => List.mem_append_left _ (hup' u hu), hhint', hd',
      hfield, fun m hm => List.mem_append_left _ (hmembers m hm)⟩
  · obtain ⟨field, concrete, hdrafted⟩ := drafted_of_ok hd
    rcases List.mem_cons.mp hnew with rfl | hmember
    · refine ⟨up, chain, token, d, fun u hu => List.mem_append_left _ (hup u hu), hhint, hd, rfl,
        ?_⟩
      intro m hm
      exact List.mem_append_right _ (List.mem_cons_of_mem _ hm)
    · rw [isMember_of_members hdrafted.members_eq p hmember] at hrole
      cases hrole

/-! ## Chains without a tree -/

/-- What segments come to from a node on: where they end and what they make. -/
def along (b : Basis) (chain : String) (up : Option Portrait) :
    List Token → Except ChainError (Option Portrait × List Portrait)
  | [] => .ok (up, [])
  | token :: rest => do
    let d ← b.draft chain token up
    let further ← b.along chain (some (d.stop token)) rest
    return (further.1, d.all ++ further.2)

/-- What a chain comes to: the chain as read, its leaf and what it makes. -/
def survey (b : Basis) (text : String) :
    Except ChainError (Chain × Option Portrait × List Portrait) :=
  match Chain.parse text with
  | .error e => .error (.malformed e)
  | .ok c =>
    if 1 < c.anchorCount then .error (.unfit (.multipleAnchors c.text c.anchorCount))
    else (b.along c.text none c.tokens).map fun found => (c, found)

end Basis

/-- A text whose segments have no hints, if it is a chain at all. -/
def Chain.HintFree (text : String) : Prop :=
  ∀ c, Chain.parse text = .ok c → ∀ token ∈ c.tokens, token.hint = none

namespace Tree

variable {t : Tree} {i : Introspector} {chain : String} {current : Option Nat} {token : Token}

theorem bind_portrait? (t : Tree) (current : Option Nat) :
    (current.bind t.node?).map t.portraitOf = current.bind t.portrait? := by
  cases current <;> rfl

/-- In a founded tree, a segment that finds its node has the draft of that node. -/
theorem WellFormed.draft_of_child (h : t.WellFormed) (hf : (t.basis i).Founded t.portraits)
    (hat : t.At current token.index) (hhint : token.hint = none) {id : Nat} {n : Node}
    (hc : t.childOf? current token.name = some id) (hn : t.node? id = some n) :
    ∃ d, t.draft i chain current token
        = (Basis.checkNotation chain token n.descriptor).map (fun _ => d)
      ∧ d.field = t.portraitOf n ∧ ∀ p ∈ d.all, p ∈ t.portraits := by
  obtain ⟨hindex, hrole⟩ := h.tokenIndex_of_childOf? hat hc hn
  obtain ⟨n', hn', hparent, htoken⟩ := h.childOf?_eq_some_iff.mp hc
  rw [hn, Option.some.injEq] at hn'
  subst hn'
  obtain ⟨up, chain', token', d, hup, hhint', hd, hfield, hmembers⟩ :=
    hf (t.portraitOf n) (portraitOf_mem hn) hrole
  obtain ⟨field, concrete, hdrafted⟩ := Basis.drafted_of_ok hd
  have hsame : (t.basis i).portrait token' up field concrete = t.portraitOf n := by
    rw [← hdrafted.field_eq, hfield]
  -- The node that the draft stood below is the one that the segment is looked up on.
  have habove : up = current.bind t.portrait? := by
    have hpaths : up.map (·.path) = n.parent.bind t.pathOf? := congrArg Portrait.parent hsame
    rw [hparent] at hpaths
    cases current with
    | none => exact Option.map_eq_none_iff.mp hpaths
    | some q =>
      obtain ⟨m, hm, -, -⟩ := hat
      rw [Option.bind_some, pathOf?_of_node hm] at hpaths
      obtain ⟨u, rfl, hpath⟩ := Option.map_eq_some_iff.mp hpaths
      rw [Option.bind_some, portrait?_of_node hm]
      exact congrArg some (h.portrait_of_path (hup u rfl) (portraitOf_mem hm) hpath)
  have hname : token'.name = token.name := (congrArg Portrait.token hsame).trans htoken
  have hindex' : token'.index = token.index := (congrArg Portrait.tokenIndex hsame).trans hindex
  refine ⟨d, ?_, hfield, ?_⟩
  · rw [draft, bind_portrait?, ← habove, Basis.draft_congr hname hindex' hhint hhint' hd, hfield]
    rfl
  · intro p hp
    rcases List.mem_cons.mp hp with rfl | hmember
    · rw [hfield]
      exact portraitOf_mem hn
    · exact hmembers p hmember

end Tree

namespace Resolve

variable {w : Work} {i : Introspector} {chain : String} {token : Token}

/-- One segment comes to what its draft says, whether its node is there or is made. -/
theorem ends_step_founded {current : Option Nat} (h : w.tree.WellFormed)
    (hf : (w.tree.basis i).Founded w.tree.portraits) (hat : w.tree.At current token.index)
    (hname : Chain.IsName token.name) (hhint : token.hint = none) :
    Ends (step i chain current token) w
      (fun next w' => ∃ d, w.tree.draft i chain current token = .ok d
        ∧ w'.tree.portrait? next = some (d.stop token)
        ∧ (∀ p, p ∈ w'.tree.portraits ↔ p ∈ w.tree.portraits ∨ p ∈ d.all)
        ∧ (w'.tree.basis i).Founded w'.tree.portraits ∧ w'.tree.size ≤ w.tree.size + 3)
      (fun e _ => w.tree.draft i chain current token = .error e
        ∨ Full chain (w.tree.size + 2) e) := by
  refine Ends.mono (Ends.and (ends_step h.toSound h (.refl _) hat hname)
    (drafts_step h hat hname)) ?_ ?_
  · rintro next w' ⟨⟨hwf, he, -, hstop, -⟩, hhow⟩
    rcases hhow with ⟨hsame, -⟩ | ⟨-, d, hd, hportraits⟩
    · rw [hsame] at hwf he hstop ⊢
      obtain ⟨id, n, hc, hn, hfits, -⟩ := Tree.stop?_eq_some hstop
      obtain ⟨d, hd, -, hmem⟩ := h.draft_of_child hf hat hhint hc hn
      have hok : w.tree.draft i chain current token = .ok d := by
        rw [hd, Basis.checkNotation, fits_any hfits]
        rfl
      refine ⟨d, hok, h.portrait?_stop he hat hstop hok hmem, ?_, hf, Nat.le_add_right _ _⟩
      intro p
      constructor
      · exact fun hp => .inl hp
      · intro hcase
        rcases hcase with hp | hp
        · exact hp
        · exact hmem p hp
    · have hmem : ∀ p ∈ d.all, p ∈ w'.tree.portraits := by
        intro p hp
        rw [hportraits]
        exact List.mem_append_right _ hp
      refine ⟨d, hd, hwf.portrait?_stop he hat hstop hd hmem, ?_, ?_, ?_⟩
      · intro p
        rw [hportraits, List.mem_append]
      · rw [he.basis_eq i, hportraits]
        refine hf.append ?_ hhint hd
        intro u hu
        rw [Tree.bind_portrait?] at hu
        obtain ⟨q, -, hq⟩ := Option.bind_eq_some_iff.mp hu
        exact Tree.mem_of_portrait? hq
      · obtain ⟨field, concrete, hdrafted⟩ := Basis.drafted_of_ok hd
        have hlength := Basis.length_members_le hdrafted.members_eq
        rw [← Tree.length_portraits, hportraits, List.length_append, Tree.length_portraits,
          Draft.all, List.length_cons]
        omega
  · rintro e w' ⟨-, ⟨id, n, hc, hn, hcase⟩ | ⟨-, hcase⟩⟩
    · rcases hcase with hfits | hhint'
      · obtain ⟨d, hd, -⟩ := h.draft_of_child hf hat hhint hc hn
        rw [hfits] at hd
        exact .inl hd
      · exact absurd hhint hhint'
    · exact hcase

theorem ends_steps_founded {tokens : List Token} {current : Option Nat} {index : Nat}
    (h : w.tree.WellFormed) (hf : (w.tree.basis i).Founded w.tree.portraits)
    (hat : w.tree.At current index) (hnumbered : Chain.NumberedFrom index tokens)
    (hnames : ∀ token ∈ tokens, Chain.IsName token.name)
    (hhints : ∀ token ∈ tokens, token.hint = none) :
    Ends (steps i chain current tokens) w
      (fun last w' => ∃ made, (w.tree.basis i).along chain (current.bind w.tree.portrait?) tokens
          = .ok (last.bind w'.tree.portrait?, made)
        ∧ (∀ p, p ∈ w'.tree.portraits ↔ p ∈ w.tree.portraits ∨ p ∈ made)
        ∧ (w'.tree.basis i).Founded w'.tree.portraits)
      (fun e _ => (w.tree.basis i).along chain (current.bind w.tree.portrait?) tokens = .error e
        ∨ Full chain (w.tree.size + 3 * tokens.length) e) := by
  induction tokens generalizing w current index with
  | nil => exact Ends.pure ⟨[], rfl, by simp, hf⟩
  | cons token rest ih =>
    obtain ⟨rfl, hrest⟩ := hnumbered
    have hname := hnames token List.mem_cons_self
    have hhint := hhints token List.mem_cons_self
    have hnames' : ∀ token ∈ rest, Chain.IsName token.name :=
      fun token hmem => hnames token (List.mem_cons_of_mem _ hmem)
    have hhints' : ∀ token ∈ rest, token.hint = none :=
      fun token hmem => hhints token (List.mem_cons_of_mem _ hmem)
    have hdraft : w.tree.draft i chain current token
        = (w.tree.basis i).draft chain token (current.bind w.tree.portrait?) := by
      rw [Tree.draft, Tree.bind_portrait?]
    rw [List.length_cons, Basis.along, ← hdraft]
    refine Ends.bind (Ends.mono (Ends.and (ends_step h.toSound h (.refl _) hat hname)
      (ends_step_founded h hf hat hname hhint)) (fun _ _ hok => hok) ?_) ?_
    · rintro e w₁ ⟨-, herror | hfull⟩
      · exact .inl (by rw [herror]; rfl)
      · exact .inr (hfull.mono (by omega))
    rintro next w₁ ⟨⟨hwf, he, -, -, hnext⟩, d, hd, hportrait, hmem, hf₁, hsize⟩
    rw [hd]
    refine (ih hwf hf₁ hnext hrest hnames' hhints').mono ?_ ?_
    · rintro last w₂ ⟨made, halong, hmem₂, hf₂⟩
      rw [he.basis_eq i, Option.bind_some, hportrait] at halong
      refine ⟨d.all ++ made, ?_, ?_, hf₂⟩
      · show ((w.tree.basis i).along chain (some (d.stop token)) rest >>= _) = _
        rw [halong]
        rfl
      · intro p
        rw [hmem₂, hmem, List.mem_append, or_assoc]
    · rintro e w₂ (herror | hfull)
      · rw [he.basis_eq i, Option.bind_some, hportrait] at herror
        refine .inl ?_
        show ((w.tree.basis i).along chain (some (d.stop token)) rest >>= _) = _
        rw [herror]
        rfl
      · exact .inr (hfull.mono (by omega))

end Resolve

namespace Tree

variable {t : Tree} {i : Introspector} {text : String}

/-- A chain without hints comes to what its survey says, unless the tree is full. -/
theorem WellFormed.resolveText_survey (h : t.WellFormed) (hf : (t.basis i).Founded t.portraits)
    (hhints : Chain.HintFree text) :
    (∃ c leaf made, (t.resolveText i text).outcome = .ok (c, leaf)
        ∧ (t.basis i).survey text = .ok (c, (t.resolveText i text).tree.portrait? leaf, made)
        ∧ (∀ p, p ∈ (t.resolveText i text).tree.portraits ↔ p ∈ t.portraits ∨ p ∈ made)
        ∧ ((t.resolveText i text).tree.basis i).Founded (t.resolveText i text).tree.portraits)
      ∨ ∃ e, (t.resolveText i text).outcome = .error e
        ∧ ((t.basis i).survey text = .error e
          ∨ Full text (t.size + 3 * Limits.tokensPerChain) e) := by
  unfold Tree.resolveText Basis.survey
  cases hparse : Chain.parse text with
  | error e => exact .inr ⟨_, rfl, .inl rfl⟩
  | ok c =>
    obtain ⟨htext, hproper⟩ := Chain.proper_of_parse hparse
    simp only
    unfold Tree.resolve
    by_cases hanchors : 1 < c.anchorCount
    · rw [if_pos hanchors, if_pos hanchors]
      exact .inr ⟨_, rfl, .inl rfl⟩
    · rw [if_neg hanchors, if_neg hanchors]
      have hends : Ends (Resolve.steps i c.text none c.tokens) { tree := t } _ _ :=
        Resolve.ends_steps_founded h hf (show t.At none 0 from rfl) hproper.numbered hproper.names
          (hhints c hparse)
      have hfollows : Ends (Resolve.steps i c.text none c.tokens) { tree := t } _ _ :=
        Resolve.ends_steps h.toSound h (.refl t) (show t.At none 0 from rfl) hproper.numbered
          hproper.names
      simp only [EStateM.run]
      cases hrun : Resolve.steps i c.text none c.tokens { tree := t } with
      | error e w =>
        refine .inr ⟨e, rfl, ?_⟩
        rcases hends.of_error hrun with herror | hfull
        · exact .inl (congrArg (Except.map _) herror)
        · rw [htext] at hfull
          have hlength := hproper.length_le
          have hsize : t.size + 3 * c.tokens.length ≤ t.size + 3 * Limits.tokensPerChain := by omega
          exact .inr (hfull.mono hsize)
      | ok last w =>
        obtain ⟨hwf, -, -, hfollow⟩ := hfollows.of_ok hrun
        obtain ⟨made, halong, hmem, hf'⟩ := hends.of_ok hrun
        cases last with
        | none =>
          have hreached := hwf.reached_follow? w.tree.reached_root
            (show w.tree.At none 0 from rfl) hproper.numbered hfollow
          have hnil : [] ++ c.tokens = [] := hreached
          exact absurd hnil hproper.nonempty
        | some leaf => exact .inl ⟨c, leaf, made, rfl, congrArg (Except.map _) halong, hmem, hf'⟩

end Tree
end ChainMapping
