import Mathlib.Data.List.Infix
import ChainMapping.Comparison
import ChainMapping.Proofs.Chain.Tokens

/-!
# Anchors as written and as read

Whether a segment is anchored is asked in two ways.  The shape of a segment holds the anchor that
was read from its bracket, with the blanks around it gone.  The queries of a token search its text
for the anchor sign.  They come to the same as long as the sign stands where a search expects it:
in no hint, and next to the bracket where it opens or closes one.

`Form.ShowsAnchor` says this of the parts that a segment is written with.
-/

namespace ChainMapping

/-! ## Searching -/

namespace Text

theorem hasInfix_iff {part text : List Char} : hasInfix part text = true ↔ part <:+: text := by
  induction text with
  | nil => simp [hasInfix]
  | cons c rest ih =>
    rw [hasInfix, Bool.or_eq_true, List.isPrefixOf_iff_prefix, ih, List.infix_cons_iff]

variable {part before after : List Char} {c : Char}

/-- What does not have a character is not found across it. -/
theorem prefix_append_cons_iff (h : c ∉ part) :
    part <+: before ++ c :: after ↔ part <+: before := by
  induction before generalizing part with
  | nil =>
    cases part with
    | nil => simp
    | cons d rest =>
      have hne : d ≠ c := fun heq => h (heq ▸ List.mem_cons_self)
      simp [List.cons_prefix_cons, hne]
  | cons b before ih =>
    cases part with
    | nil => simp
    | cons d rest =>
      rw [List.cons_append, List.cons_prefix_cons, List.cons_prefix_cons,
        ih fun hmem => h (List.mem_cons_of_mem _ hmem)]

theorem infix_append_cons_iff (h : c ∉ part) :
    part <:+: before ++ c :: after ↔ part <:+: before ∨ part <:+: after := by
  induction before with
  | nil =>
    have hstart := @prefix_append_cons_iff part [] after c h
    rw [List.nil_append] at hstart
    rw [List.nil_append, List.infix_cons_iff, hstart, List.infix_nil, List.prefix_nil]
  | cons b before ih =>
    have hstart := @prefix_append_cons_iff part (b :: before) after c h
    rw [List.cons_append] at hstart
    rw [List.cons_append, List.infix_cons_iff, hstart, ih, List.infix_cons_iff, or_assoc]

/-- What begins with a character is found after all text without it. -/
theorem cons_infix_append_iff (h : c ∉ before) :
    c :: part <:+: before ++ after ↔ c :: part <:+: after := by
  induction before with
  | nil => rfl
  | cons b before ih =>
    have hne : c ≠ b := fun heq => h (heq ▸ List.mem_cons_self)
    rw [List.cons_append, List.infix_cons_iff, List.cons_prefix_cons,
      ih fun hmem => h (List.mem_cons_of_mem _ hmem)]
    simp [hne]

end Text

/-- The queries about the text of a token say what its shape says. -/
structure Token.AnchorsAgree (t : Token) : Prop where
  any : t.isAnchored = true ↔ t.shape.anchor?.isSome = true
  pre : t.isPreAnchored = true ↔ t.shape.anchor? = some .pre
  post : t.isPostAnchored = true ↔ t.shape.anchor? = some .post

namespace Chain

/-- A text stands in the hint of a form. -/
def Form.Hints (f : Form) (part : List Char) : Prop := ∃ hint, f.hint = some hint ∧ part <:+: hint

/-- An anchor is written where a search of the text finds it, and nothing else is taken for it. -/
structure Form.ShowsAnchor (f : Form) (anchor : Option Anchor) : Prop where
  /-- a hint has no anchor sign, or the bracket has one too -/
  any : f.Hints ['^'] → anchor.isSome = true
  /-- an anchor before the star opens the bracket -/
  pre : (f.Hints "[^*".toList ∨ ∃ body, f.bracket = some body ∧ "^*".toList <+: body)
    ↔ anchor = some .pre
  /-- an anchor after the star closes it -/
  post : (f.Hints "*^]".toList ∨ ∃ body, f.bracket = some body ∧ "*^".toList <:+ body)
    ↔ anchor = some .post

variable {chain : String} {token : Token} {f : Form}

/-! ## Where a form has an anchor sign -/

section Written

variable {part before : List Char} {c : Char}

/-- A marker has no anchor sign. -/
theorem infix_append_marker (hsign : '^' ∈ part) (hangle : '<' ∉ part) (marker : Option MapSide) :
    part <:+: before ++ (marker.map fun side => Group.mk '<' side.letter).toList.flatMap
        Group.written ↔ part <:+: before := by
  cases marker with
  | none => simp
  | some side =>
    have hno : ¬part <:+: side.letter ++ ['>'] := fun hinside => by
      have hmem := hinside.subset hsign
      cases side <;> simp [MapSide.letter] at hmem
    simp only [Option.map_some, Option.toList_some, List.flatMap_singleton, Group.written,
      closingOf_angle]
    rw [Text.infix_append_cons_iff hangle, or_iff_left hno]

/-- What has an anchor sign and no round or angle bracket stands in the hint or in the bracket. -/
theorem infix_written_iff (h : f.Valid) (hname : isNameChar c = false) (hsign : '^' ∈ c :: part)
    (hplain : '(' ∉ c :: part ∧ ')' ∉ c :: part ∧ '<' ∉ c :: part) :
    c :: part <:+: f.written
      ↔ f.Hints (c :: part)
        ∨ ∃ body, f.bracket = some body ∧ c :: part <:+: '[' :: (body ++ [']']) := by
  have hbracket : c :: part <:+: (f.bracket.map (Group.mk '[')).toList.flatMap Group.written
      ↔ ∃ body, f.bracket = some body ∧ c :: part <:+: '[' :: (body ++ [']']) := by
    cases f.bracket with
    | none => simp
    | some body => simp [Group.written, closingOf]
  rw [Form.written, Text.cons_infix_append_iff (h.name.notMem hname), Form.groups,
    List.append_assoc, List.flatMap_append, List.flatMap_append, ← List.append_assoc,
    infix_append_marker hsign hplain.2.2, ← hbracket, Form.Hints]
  cases f.hint with
  | none => simp
  | some hint =>
    have hopens := @Text.infix_append_cons_iff (c :: part) []
      (hint ++ ')' :: (f.bracket.map (Group.mk '[')).toList.flatMap Group.written) '(' hplain.1
    simp only [List.nil_append, List.infix_nil, reduceCtorEq, false_or] at hopens
    simpa [Group.written, closingOf, hopens] using Text.infix_append_cons_iff hplain.2.1

theorem preAnchor_infix_iff {body : List Char} (h : '[' ∉ body) :
    "[^*".toList <:+: '[' :: (body ++ [']']) ↔ "^*".toList <+: body := by
  have hno : ¬"[^*".toList <:+: body ++ [']'] := fun hinside => by
    have hmem : '[' ∈ body ++ [']'] := hinside.subset List.mem_cons_self
    simp [h] at hmem
  rw [List.infix_cons_iff, or_iff_left hno]
  show '[' :: "^*".toList <+: '[' :: (body ++ [']']) ↔ _
  rw [List.cons_prefix_cons, and_iff_right rfl]
  exact Text.prefix_append_cons_iff (by decide)

theorem postAnchor_infix_iff {body : List Char} (h : ']' ∉ body) :
    "*^]".toList <:+: '[' :: (body ++ [']']) ↔ "*^".toList <:+ body := by
  show '*' :: ['^', ']'] <:+: ['['] ++ (body ++ [']']) ↔ _
  rw [Text.cons_infix_append_iff (by decide)]
  show "*^".toList ++ [']'] <:+: body ++ [']'] ↔ _
  constructor
  · rintro ⟨before, after, hwritten⟩
    rcases List.eq_nil_or_concat after with rfl | ⟨after, last, rfl⟩
    · refine ⟨before, ?_⟩
      rw [List.append_nil, ← List.append_assoc] at hwritten
      exact List.append_cancel_right hwritten
    · -- The bracket would be closed before its end.
      rw [List.concat_eq_append, ← List.append_assoc] at hwritten
      have hbody := (List.append_inj' hwritten rfl).1
      exact absurd (hbody ▸ by simp) h
  · rintro ⟨before, rfl⟩
    exact ⟨before, [], by simp⟩

end Written

/-! ## Anchors of shapes -/

theorem sign_mem_of_anchor {text : List Char} {anchor : Anchor}
    (h : Anchor.ofBody? (String.ofList text) = some anchor) : '^' ∈ text := by
  rcases isAnchor_iff.mp ⟨anchor, h⟩ with rfl | rfl | rfl <;> decide

theorem anchor_of_body {body : List Char} {span : Span} {side : Option MapSide} {shape : Shape}
    (h : shapeOfBody chain body span side = .ok shape) :
    shape.anchor?.isSome = true ↔ '^' ∈ body := by
  unfold shapeOfBody at h
  cases hsplit : Text.splitOnce ',' body with
  | none =>
    simp only [hsplit] at h
    split at h
    next hstar =>
      rw [← Except.ok.inj h, hstar]
      decide
    next =>
      split at h
      next hdigits =>
        have hnot : '^' ∉ body := fun hmem => by
          rw [Bool.and_eq_true, List.all_eq_true] at hdigits
          exact absurd (hdigits.2 _ hmem) (by decide)
        rw [← Except.ok.inj h]
        simpa [Shape.anchor?] using hnot
      next =>
        split at h
        next anchor hanchor =>
          rw [← Except.ok.inj h]
          simpa [Shape.anchor?] using sign_mem_of_anchor hanchor
        next => simp at h
  | some sides =>
    obtain ⟨left, right⟩ := sides
    obtain ⟨hwritten, -⟩ := Text.splitOnce_eq_some_iff.mp hsplit
    simp only [hsplit] at h
    split at h
    next => simp at h
    next =>
      split at h
      next hnone =>
        rw [← Except.ok.inj h, hwritten]
        simpa [Shape.anchor?] using hnone
      next part hpart =>
        -- The first side with a sign is the anchor.
        have hmem : '^' ∈ part := by simpa using List.find?_some hpart
        have hside : part = left ∨ part = right := by
          simpa using List.mem_of_find?_eq_some hpart
        split at h
        next anchor hanchor =>
          rw [← Except.ok.inj h, hwritten]
          rcases hside with rfl | rfl <;> simp [Shape.anchor?, hmem]
        next => simp at h

/-- A shape has an anchor exactly if the bracket has an anchor sign. -/
theorem ReadFrom.anchor (h : ReadFrom chain token f) :
    token.shape.anchor?.isSome = true ↔ ∃ body, f.bracket = some body ∧ '^' ∈ body := by
  obtain ⟨parts, hholds, hshape⟩ := h.shape
  have hbracket := hholds.bracket
  rcases shape_cases hshape with ⟨hnone, heq⟩ | ⟨body, span, hsome, hfound⟩
  · rw [hnone] at hbracket
    rw [heq, ← hbracket]
    cases parts.marker <;> simp [Shape.anchor?]
  · rw [hsome] at hbracket
    rw [anchor_of_body hfound, ← hbracket, Text.mem_trim_iff (by decide)]
    simp

/-! ## The queries -/

/-- A token is anchored in its text if it has an anchor, or a hint with an anchor sign. -/
theorem ReadFrom.isAnchored_iff (h : ReadFrom chain token f) :
    token.isAnchored = true ↔ f.Hints ['^'] ∨ token.shape.anchor?.isSome = true := by
  have hbracket (body : List Char) : ['^'] <:+: '[' :: (body ++ [']']) ↔ '^' ∈ body := by
    simp [List.singleton_infix_iff]
  rw [Token.isAnchored, List.contains_iff_mem, h.toList_raw, ← List.singleton_infix_iff,
    infix_written_iff h.valid (by decide) (by decide) (by decide), h.anchor]
  simp only [hbracket]

theorem ReadFrom.isPreAnchored_iff (h : ReadFrom chain token f) :
    token.isPreAnchored = true
      ↔ f.Hints "[^*".toList ∨ ∃ body, f.bracket = some body ∧ "^*".toList <+: body := by
  rw [Token.isPreAnchored, Text.hasInfix_iff, h.toList_raw]
  refine (infix_written_iff h.valid (by decide) (by decide) (by decide)).trans ?_
  refine or_congr_right (exists_congr fun body => and_congr_right fun hbody => ?_)
  exact preAnchor_infix_iff (h.valid.noSquare hbody).1

theorem ReadFrom.isPostAnchored_iff (h : ReadFrom chain token f) :
    token.isPostAnchored = true
      ↔ f.Hints "*^]".toList ∨ ∃ body, f.bracket = some body ∧ "*^".toList <:+ body := by
  rw [Token.isPostAnchored, Text.hasInfix_iff, h.toList_raw]
  refine (infix_written_iff h.valid (by decide) (by decide) (by decide)).trans ?_
  refine or_congr_right (exists_congr fun body => and_congr_right fun hbody => ?_)
  exact postAnchor_infix_iff (h.valid.noSquare hbody).2

/-- The queries agree with the shape exactly if the anchor is shown. -/
theorem ReadFrom.anchorsAgree_iff (h : ReadFrom chain token f) :
    token.AnchorsAgree ↔ f.ShowsAnchor token.shape.anchor? := by
  constructor
  · intro hagree
    refine ⟨fun hhint => hagree.any.mp (h.isAnchored_iff.mpr (.inl hhint)), ?_, ?_⟩
    · rw [← h.isPreAnchored_iff, hagree.pre]
    · rw [← h.isPostAnchored_iff, hagree.post]
  · intro hshows
    refine ⟨?_, ?_, ?_⟩
    · rw [h.isAnchored_iff]
      exact ⟨fun hor => hor.elim hshows.any id, .inr⟩
    · rw [h.isPreAnchored_iff, hshows.pre]
    · rw [h.isPostAnchored_iff, hshows.post]

/-- Without an anchor sign in the hint only the bracket counts. -/
theorem Form.showsAnchor_iff (h : ¬f.Hints ['^']) {anchor : Option Anchor} :
    f.ShowsAnchor anchor
      ↔ ((∃ body, f.bracket = some body ∧ "^*".toList <+: body) ↔ anchor = some .pre)
        ∧ ((∃ body, f.bracket = some body ∧ "*^".toList <:+ body) ↔ anchor = some .post) := by
  have hno {part : List Char} (hsign : '^' ∈ part) : ¬f.Hints part := by
    rintro ⟨hint, hsome, hinside⟩
    exact h ⟨hint, hsome, (List.singleton_infix_iff _ _).mpr (hinside.subset hsign)⟩
  have hpre := or_iff_right (b := ∃ body, f.bracket = some body ∧ "^*".toList <+: body)
    (hno (show '^' ∈ "[^*".toList by decide))
  have hpost := or_iff_right (b := ∃ body, f.bracket = some body ∧ "*^".toList <:+ body)
    (hno (show '^' ∈ "*^]".toList by decide))
  constructor
  · exact fun hshows => ⟨hpre.symm.trans hshows.pre, hpost.symm.trans hshows.post⟩
  · exact fun hboth => ⟨fun hhint => absurd hhint h, hpre.trans hboth.1, hpost.trans hboth.2⟩

/-- A bracket for elements that has no blanks shows its anchor, if the hint has no anchor sign. -/
theorem ReadFrom.agree_of_tight (h : ReadFrom chain token f) (hhint : ¬f.Hints ['^'])
    (hbracket : ∀ body, f.bracket = some body → IsElementMark body) : token.AnchorsAgree := by
  rw [h.anchorsAgree_iff, Form.showsAnchor_iff hhint]
  cases hbody : f.bracket with
  | none =>
    have hnone : token.shape.anchor? = none := by
      rw [← Option.not_isSome_iff_eq_none, h.anchor, hbody]
      simp
    simp [hnone]
  | some body =>
    simp only [Option.some.injEq, exists_eq_left']
    by_cases hsign : '^' ∈ body
    · obtain ⟨parts, hholds, hshape⟩ := h.shape
      have hheld := hholds.bracket
      rcases shape_cases hshape with ⟨hnone, -⟩ | ⟨body', span, hsome, hfound⟩
      · rw [hnone, hbody] at hheld
        cases hheld
      · obtain rfl : body' = body := by simpa [hsome, hbody] using hheld
        rcases hbracket body' hbody with rfl | ⟨-, hdigits⟩ | rfl | rfl | rfl
        · exact absurd hsign (by decide)
        · exact absurd (hdigits _ hsign) (by decide)
        all_goals
          rw [← Except.ok.inj hfound]
          decide
    · have hnone : token.shape.anchor? = none := by
        rw [← Option.not_isSome_iff_eq_none, h.anchor, hbody]
        simpa using hsign
      have hpre : ¬"^*".toList <+: body := fun hstart => hsign (hstart.subset (by decide))
      have hpost : ¬"*^".toList <:+ body := fun hsuffix => hsign (hsuffix.subset (by decide))
      rw [hnone]
      exact ⟨iff_of_false hpre (by simp), iff_of_false hpost (by simp)⟩

/-- Tokens whose queries agree with their shapes speak of one anchor: a chain has an anchor if the
text of some token does, and the level that the source loses is the business of the tokens that are
anchored. -/
theorem current_of_agree {target : Cursor} (h : ∀ t ∈ target.chain.tokens, t.AnchorsAgree)
    (source : Cursor) :
    (target.chain.hasAnchor = true ↔ ∃ t ∈ target.chain.tokens, t.isAnchored = true)
      ∧ SizeComparison.current source target
        = SizeComparison.compare
          (if target.chain.hasAnchor ∧ target.token?.bind (·.shape.anchor?) = none
            then source.containerCount - 1 else source.containerCount)
          target.remainingContainers := by
  have hhere : target.isAnchored = true ↔ target.token?.bind (·.shape.anchor?) ≠ none := by
    rw [Cursor.isAnchored]
    cases htoken : target.token? with
    | none => simp
    | some t =>
      have ht : t ∈ target.chain.tokens := List.mem_of_getElem? htoken
      simpa [Option.isSome_iff_ne_none] using (h t ht).any
  constructor
  · rw [Chain.hasAnchor, Chain.anchorCount, decide_eq_true_eq, List.countP_pos_iff]
    exact exists_congr fun t => and_congr_right fun ht => (h t ht).any.symm
  · have hcondition : (target.chain.hasAnchor && !target.isAnchored) = true
        ↔ target.chain.hasAnchor = true ∧ target.token?.bind (·.shape.anchor?) = none := by
      rw [Bool.and_eq_true, Bool.not_eq_true', ← Bool.not_eq_true, hhere, not_not]
    simp only [SizeComparison.current, hcondition]

/-- The queries about a token agree with the anchor that was read, exactly if the anchor is written
where a search finds it.  A chain whose tokens all agree has its anchor where the comparison of
sizes looks for it. -/
theorem anchorsAgree_iff_of_parse {text : String} {c : Chain} (h : parse text = .ok c) :
    ∃ forms, List.Forall₂ (ReadFrom text) c.tokens forms
      ∧ List.Forall₂ (fun t f => t.AnchorsAgree ↔ f.ShowsAnchor t.shape.anchor?) c.tokens forms
      ∧ ∀ target : Cursor, target.chain = c → (∀ t ∈ c.tokens, t.AnchorsAgree) →
        ∀ source : Cursor, (c.hasAnchor = true ↔ ∃ t ∈ c.tokens, t.isAnchored = true)
          ∧ SizeComparison.current source target
            = SizeComparison.compare
              (if c.hasAnchor ∧ target.token?.bind (·.shape.anchor?) = none
                then source.containerCount - 1 else source.containerCount)
              target.remainingContainers := by
  obtain ⟨forms, hsome, -, hvalid, htext⟩ := forms_of_parse ⟨c, h⟩
  have hforms := readFrom_of_parse h (List.length_pos_iff.mp hsome) hvalid htext
  refine ⟨forms, hforms, hforms.imp fun _ _ hread => hread.anchorsAgree_iff, ?_⟩
  rintro target rfl hagree source
  exact current_of_agree hagree source

instance (t : Token) : Decidable t.AnchorsAgree :=
  decidable_of_iff
    ((t.isAnchored = true ↔ t.shape.anchor?.isSome = true)
      ∧ (t.isPreAnchored = true ↔ t.shape.anchor? = some .pre)
      ∧ (t.isPostAnchored = true ↔ t.shape.anchor? = some .post))
    ⟨fun h => ⟨h.1, h.2.1, h.2.2⟩, fun h => ⟨h.any, h.pre, h.post⟩⟩

/-- Parcels that are anchored before and after the star. -/
def parcels : String := "parcels[^*].part(Box)[*^].weight"

/-- Parcels with blanks around the anchor, and a part whose type is named with an anchor sign. -/
def markedParcels : String := "parcels[ ^* ].part(P^).weight"

theorem anchorsAgree_iff_of_parse_parcels :
    ∃ c, parse parcels = .ok c ∧ (∀ t ∈ c.tokens, t.AnchorsAgree)
      ∧ ∃ forms, List.Forall₂ (ReadFrom parcels) c.tokens forms
        ∧ List.Forall₂ (fun t f => t.AnchorsAgree ↔ f.ShowsAnchor t.shape.anchor?) c.tokens
          forms := by
  have hagree : (parse parcels).toOption.any fun c => ∀ t ∈ c.tokens, t.AnchorsAgree := by
    decide +kernel
  cases hparse : parse parcels with
  | error e => simp [hparse, Except.toOption] at hagree
  | ok c =>
    obtain ⟨forms, hread, hiff, -⟩ := anchorsAgree_iff_of_parse hparse
    exact ⟨c, rfl, by simpa [hparse, Except.toOption] using hagree, forms, hread, hiff⟩

/-- The blanks hide an anchor from the search, and the hint is taken for another one: the chain has
one anchor, on its first segment, and the second segment passes for anchored. -/
theorem not_anchorsAgree_markedParcels :
    ∃ c, parse markedParcels = .ok c ∧ c.anchorCount = 1
      ∧ c.tokens.map (·.shape.anchor?) = [some .pre, none, none]
      ∧ c.tokens.map Token.isPreAnchored = [false, false, false]
      ∧ c.tokens.map Token.isAnchored = [true, true, false]
      ∧ ¬∀ t ∈ c.tokens, t.AnchorsAgree := by
  have hcheck : (parse markedParcels).toOption.any fun c => c.anchorCount = 1
      ∧ c.tokens.map (·.shape.anchor?) = [some .pre, none, none]
      ∧ c.tokens.map Token.isPreAnchored = [false, false, false]
      ∧ c.tokens.map Token.isAnchored = [true, true, false]
      ∧ ¬∀ t ∈ c.tokens, t.AnchorsAgree := by
    decide +kernel
  cases hparse : parse markedParcels with
  | error e => simp [hparse, Except.toOption] at hcheck
  | ok c =>
    rw [hparse] at hcheck
    exact ⟨c, rfl, of_decide_eq_true hcheck⟩

end Chain
end ChainMapping
