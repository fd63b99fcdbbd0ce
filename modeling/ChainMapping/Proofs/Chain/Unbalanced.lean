import ChainMapping.Proofs.Chain.Faults
import ChainMapping.Proofs.Chain.Grammar

/-!
# Reports of unbalanced brackets

Both passes over a chain can complain about a bracket, but only the first one does.  It goes with
the stack and stops at the first fault of nesting, unless a separator with nothing before it comes
first.  The second pass looks for a closing bracket of the right kind, from wherever it stands, and
that may be inside of what the first pass took for a nested bracket.  Still it never misses one:
what is left of a nested text closes every bracket that it opens.
-/

namespace ChainMapping
namespace Chain

/-- Nothing stands in a text since its last separator. -/
def AtStart (text : List Char) : Prop := text = [] ∨ text.getLast? = some '.'

/-- A separator outside of brackets with nothing since the one before. -/
def HasEmptySegment (text : List Char) : Prop :=
  ∃ before after, text = before ++ '.' :: after ∧ Nested before ∧ AtStart before

variable {chain : String} {text before : List Char} {opened : List (Char × Nat)}
  {current : List Char} {c : Char}

theorem not_hasEmptySegment_nil : ¬HasEmptySegment [] := by
  rintro ⟨before, after, h, -⟩
  simp at h

theorem HasEmptySegment.append (h : HasEmptySegment before) (after : List Char) :
    HasEmptySegment (before ++ after) := by
  obtain ⟨pre, rest, rfl, hpre⟩ := h
  exact ⟨pre, rest ++ after, by simp, hpre⟩

theorem hasEmptySegment_concat :
    HasEmptySegment (text ++ [c])
      ↔ HasEmptySegment text ∨ (c = '.' ∧ Nested text ∧ AtStart text) := by
  constructor
  · rintro ⟨before, after, heq, hnested, hstart⟩
    rcases concat_cases heq with ⟨rfl, rfl⟩ | ⟨more, hmore⟩
    · exact .inr ⟨rfl, hnested, hstart⟩
    · exact .inl ⟨before, more, hmore, hnested, hstart⟩
  · rintro (hempty | ⟨rfl, hnested, hstart⟩)
    · exact hempty.append [c]
    · exact ⟨text, [], rfl, hnested, hstart⟩

theorem atStart_concat : AtStart (text ++ [c]) ↔ c = '.' := by
  simp [AtStart]

/-- An empty segment of a text with a fault comes before the fault. -/
theorem Fault.hasEmptySegment (h : Fault text before c) (hempty : HasEmptySegment text) :
    HasEmptySegment before := by
  obtain ⟨pre, rest, hpre, hnested, hstart⟩ := hempty
  obtain ⟨after, hafter⟩ := h.written
  rcases split_cases (hpre.symm.trans hafter) with ⟨-, rfl⟩ | ⟨more, hbefore⟩ | ⟨more, hbeyond⟩
  · exact absurd h.isBracket (by decide)
  · exact ⟨pre, more, hbefore, hnested, hstart⟩
  · rw [hbeyond] at hnested hpre
    exact absurd hnested (h.not_nested hpre)

/-! ## The first pass -/

/-- Where the first pass stands after `before`: it knows the open brackets with their places and
what stands since the last separator, and it has met no empty segment. -/
structure SplitAt (before : List Char) (offset : Nat) (opened : List (Char × Nat))
    (current : List Char) : Prop where
  offset_eq : offset = Text.byteLength before
  stack : Opened before opened
  fresh : opened = [] → (current = [] ↔ AtStart before)
  noEmpty : ¬HasEmptySegment before

theorem splitAt_nil : SplitAt [] 0 [] [] :=
  ⟨rfl, .closed .nil, fun _ => by simp [AtStart], not_hasEmptySegment_nil⟩

/-- A character that is no separator outside of brackets goes to the segment being read. -/
theorem SplitAt.keep {offset : Nat} {opened' : List (Char × Nat)}
    (h : SplitAt before offset opened current) (hopened' : Opened (before ++ [c]) opened')
    (hkept : c = '.' → opened ≠ [] ∧ opened' ≠ []) :
    SplitAt (before ++ [c]) (offset + c.utf8Size) opened' (c :: current) where
  offset_eq := by rw [h.offset_eq, Text.byteLength_append]; rfl
  stack := hopened'
  fresh := fun hnil => by
    rw [atStart_concat]
    exact iff_of_false (by simp) fun hdot => (hkept hdot).2 hnil
  noEmpty := by
    rw [hasEmptySegment_concat]
    rintro (hempty | ⟨hdot, hnested, -⟩)
    · exact h.noEmpty hempty
    · have hstack := h.stack.openedBy
      rw [hnested.openedBy] at hstack
      exact (hkept hdot).1 (List.map_eq_nil_iff.mp (Option.some.inj hstack).symm)

theorem SplitAt.separate {offset : Nat} (h : SplitAt before offset [] current)
    (hsome : current ≠ []) :
    SplitAt (before ++ ['.']) (offset + '.'.utf8Size) [] [] where
  offset_eq := by rw [h.offset_eq, Text.byteLength_append]; rfl
  stack := h.stack.plain rfl rfl
  fresh := fun _ => iff_of_true rfl (atStart_concat.mpr rfl)
  noEmpty := by
    rw [hasEmptySegment_concat]
    rintro (hempty | ⟨-, -, hstart⟩)
    · exact h.noEmpty hempty
    · exact hsome ((h.fresh rfl).mpr hstart)

/-- What the first pass complains about in a text. -/
inductive SplitFails (chain : String) (text : List Char) : SyntaxError → Prop where
  | unbalanced {before : List Char} {delimiter : Char} (fault : Fault text before delimiter)
      (noEmpty : ¬HasEmptySegment before) :
      SplitFails chain text (.unbalancedBracket chain delimiter (Text.byteLength before))
  | empty {offset : Nat} (found : HasEmptySegment text ∨ Nested text) :
      SplitFails chain text (.emptySegment chain offset)

/-- The first pass refuses a closing bracket only where the stack refuses it. -/
theorem SplitAt.misplaced {offset : Nat} {rest : List Char}
    (h : SplitAt before offset opened current)
    (hc : openedAfter anywhere (opened.map Prod.fst) c = none) :
    SplitFails chain (before ++ c :: rest) (.unbalancedBracket chain c offset) := by
  rw [h.offset_eq]
  exact .unbalanced (.closing rfl (h.stack.misplaced_iff.mpr hc) (fitting_iff.mpr ⟨_, h.stack⟩))
    h.noEmpty

/-- The first pass goes over texts whose brackets nest.  In other texts it stops at an empty
segment, or else at the first fault. -/
theorem splitFrom_yields {cs : List Char} {offset start : Nat}
    (h : SplitAt before offset opened current) :
    Yields (splitFrom chain offset opened start current cs) (fun _ => Nested (before ++ cs))
      (SplitFails chain (before ++ cs)) := by
  induction cs generalizing before offset opened start current with
  | nil =>
    rw [List.append_nil]
    have hstep := splitFrom_step chain offset opened start current []
    generalize splitFrom chain offset opened start current [] = result at hstep ⊢
    cases hstep with
    | unclosed houtermost =>
      obtain ⟨outermost, hfault, rfl⟩ := h.stack.fault houtermost
      obtain ⟨after, hafter⟩ := hfault.written
      refine SplitFails.unbalanced hfault fun hempty => h.noEmpty ?_
      rw [hafter]
      exact hempty.append _
    | missing hclosed =>
      subst hclosed
      exact SplitFails.empty (.inr h.stack.nested)
    | last hclosed =>
      subst hclosed
      exact h.stack.nested
  | cons c rest ih =>
    -- Each step but a complaint leaves the text with one more character read.
    have hread {opened' : List (Char × Nat)} {current' : List Char} {start' : Nat}
        (hnext : SplitAt (before ++ [c]) (offset + c.utf8Size) opened' current') :
        Yields (splitFrom chain (offset + c.utf8Size) opened' start' current' rest)
          (fun _ => Nested (before ++ c :: rest)) (SplitFails chain (before ++ c :: rest)) := by
      rw [List.append_cons before c rest]
      exact ih hnext
    have hstep := splitFrom_step chain offset opened start current (c :: rest)
    generalize splitFrom chain offset opened start current (c :: rest) = result at hstep ⊢
    cases hstep with
    | opening hopening =>
      have hpushed := h.stack.opening hopening
      rw [← h.offset_eq] at hpushed
      refine hread (h.keep hpushed ?_)
      rintro rfl
      simp [isOpening] at hopening
    | @closing bracket _ _ _ hinnermost =>
      subst hinnermost
      refine hread (h.keep h.stack.closing fun hdot => ?_)
      have hclosing := isClosing_closingOf bracket
      rw [hdot] at hclosing
      simp [isClosing] at hclosing
    | misplaced hclosing hdiffers =>
      exact h.misplaced (openedAfter_misplaced hclosing (by simpa using hdiffers))
    | empty hclosed hfresh =>
      subst hclosed
      exact SplitFails.empty (.inl ⟨before, rest, rfl, h.stack.nested, (h.fresh rfl).mp hfresh⟩)
    | separator hclosed hbegun =>
      subst hclosed
      exact (hread (h.separate hbegun)).bind fun _ hnested => hnested
    | plain hopening hclosing hinside =>
      exact hread (h.keep (h.stack.plain hopening hclosing) fun hdot =>
        ⟨hinside hdot, hinside hdot⟩)

/-- The first pass complains about a bracket exactly if the text has a fault with no empty segment
before it, and then the bracket is the fault. -/
theorem splitSegments_unbalanced_iff {text chain : String} {delimiter : Char} {offset : Nat} :
    splitSegments text = .error (.unbalancedBracket chain delimiter offset)
      ↔ chain = text ∧ ∃ before, Fault text.toList before delimiter
        ∧ offset = Text.byteLength before ∧ ¬HasEmptySegment before := by
  have hyields := @splitFrom_yields text [] [] [] text.toList 0 0 splitAt_nil
  rw [List.nil_append] at hyields
  constructor
  · intro h
    cases hyields.of_error h with
    | unbalanced fault noEmpty => exact ⟨rfl, _, fault, rfl, noEmpty⟩
  · rintro ⟨rfl, before, hfault, rfl, hnoEmpty⟩
    have hnotNested : ¬Nested chain.toList := exists_fault_iff.mp ⟨before, delimiter, hfault⟩
    show splitFrom chain 0 [] 0 [] chain.toList = _
    cases hsplit : splitFrom chain 0 [] 0 [] chain.toList with
    | ok segments =>
      rw [hsplit] at hyields
      exact absurd hyields hnotNested
    | error e =>
      cases hyields.of_error hsplit with
      | unbalanced fault =>
        obtain ⟨rfl, rfl⟩ := fault.unique hfault
        rfl
      | empty found =>
        rcases found with hempty | hnested
        · exact absurd (hfault.hasEmptySegment hempty) hnoEmpty
        · exact absurd hnested hnotNested

/-! ## The second pass -/

/-- A complaint that is not about a bracket. -/
def OtherFault (e : SyntaxError) : Prop :=
  ∀ chain delimiter offset, e ≠ .unbalancedBracket chain delimiter offset

/-- A text that closes the brackets it opens, and all that were open before it. -/
def ClosesAll (text : List Char) : Prop :=
  ∃ opened, openedBy anywhere opened text = some []

theorem ClosesAll.of_append {after : List Char} (h : ClosesAll (text ++ after)) :
    ClosesAll after := by
  obtain ⟨opened, hopened⟩ := h
  rw [openedBy_append] at hopened
  obtain ⟨mid, -, hmid⟩ := Option.bind_eq_some_iff.mp hopened
  exact ⟨mid, hmid⟩

theorem ClosesAll.tail (h : ClosesAll (c :: text)) : ClosesAll text :=
  @ClosesAll.of_append [c] text h

/-- Wherever a bracket is opened, one that closes its kind comes later. -/
theorem ClosesAll.closing_mem (h : ClosesAll (c :: text)) (hc : isOpening c = true) :
    closingOf c ∈ text := by
  obtain ⟨opened, hopened⟩ := h
  by_contra hnone
  have hother : closingOf c ≠ c := fun heq => by
    have hclosing := isOpening_closingOf c
    rw [heq, hc] at hclosing
    exact Bool.noConfusion hclosing
  have hnotMem : closingOf c ∉ c :: text := by simp [hother, hnone]
  exact absurd (mem_openedBy hopened hc List.mem_cons_self hnotMem) List.not_mem_nil

variable {segment : Segment} {parts : Parts}

theorem otherFault_add {opener : Char} {body : List Char} {span : Span} :
    Yields (parts.add chain segment opener body span) (fun _ => True) OtherFault := by
  unfold Parts.add
  simp only
  repeat' split
  all_goals first | exact trivial | exact nofun

theorem otherFault_scanParts {cs : List Char} {offset : Nat} {pending : Option Pending}
    (hcs : ClosesAll cs) (hpending : ∀ p, pending = some p → closingOf p.opener ∈ cs) :
    Yields (scanParts chain segment offset pending parts cs) (fun _ => True) OtherFault := by
  -- A pending bracket is closed in what is left, wherever its part began.
  induction cs generalizing offset pending parts with
  | nil =>
    unfold scanParts
    cases pending with
    | some p => exact absurd (hpending p rfl) List.not_mem_nil
    | none => exact trivial
  | cons c rest ih =>
    unfold scanParts
    simp only
    cases pending with
    | some p =>
      simp only
      split
      next => exact otherFault_add.bind fun _ _ => ih hcs.tail nofun
      next hother =>
        refine ih hcs.tail fun p' hp' => ?_
        obtain rfl := Option.some.inj hp'
        exact (List.mem_cons.mp (hpending p rfl)).resolve_left (Ne.symm hother)
    | none =>
      simp only
      split
      next hopening =>
        refine ih hcs.tail fun p' hp' => ?_
        obtain rfl := Option.some.inj hp'
        exact hcs.closing_mem hopening
      next =>
        split
        next => exact nofun
        next => exact nofun

theorem otherFault_shapeOfBody {body : List Char} {span : Span} {side : Option MapSide} :
    Yields (shapeOfBody chain body span side) (fun _ => True) OtherFault := by
  unfold shapeOfBody
  simp only
  repeat' split
  all_goals first | exact trivial | exact nofun

theorem otherFault_shape : Yields (parts.shape chain) (fun _ => True) OtherFault := by
  unfold Parts.shape
  simp only
  cases parts.marker with
  | none =>
    split
    next => exact otherFault_shapeOfBody.bind fun _ _ => trivial
    next => exact trivial
  | some marked =>
    have hmarked (shape : Shape) : Yields (if shape.isCollection then
        .error (.misplacedMarker chain marked.1.marker .markerOnCollection marked.2)
        else .ok shape : Except SyntaxError Shape) (fun _ => True) OtherFault := by
      split
      next => exact nofun
      next => exact trivial
    split
    next => exact otherFault_shapeOfBody.bind fun shape _ => hmarked shape
    next => exact hmarked (.map (some marked.1) none)

theorem otherFault_namelessError : OtherFault (namelessError chain segment) := by
  unfold namelessError
  simp only
  repeat' split
  all_goals exact nofun

theorem otherFault_parseSegment {index : Nat} (h : Nested segment.text) :
    Yields (parseSegment chain index segment) (fun _ => True) OtherFault := by
  have hcloses : ClosesAll (segment.text.dropWhile isNameChar) := by
    have hwhole : ClosesAll segment.text := ⟨[], h.openedBy⟩
    rw [← List.takeWhile_append_dropWhile (p := isNameChar) (l := segment.text)] at hwhole
    exact hwhole.of_append
  unfold parseSegment
  simp only
  split
  next => exact otherFault_namelessError
  next =>
    split
    next => exact nofun
    next =>
      exact (otherFault_scanParts hcloses fun _ hnone => by cases hnone).bind fun _ _ =>
        otherFault_shape.bind fun _ _ => trivial

theorem otherFault_parseSegments {segments : List Segment} {index : Nat}
    (h : ∀ segment ∈ segments, Nested segment.text) :
    Yields (parseSegments chain index segments) (fun _ => True) OtherFault := by
  induction segments generalizing index with
  | nil => exact trivial
  | cons segment rest ih =>
    have hrest : Yields (parseSegments chain (index + 1) rest) (fun _ => True) OtherFault :=
      ih fun s hs => h s (List.mem_cons_of_mem _ hs)
    exact (otherFault_parseSegment (h segment List.mem_cons_self)).bind fun _ _ =>
      hrest.bind fun _ _ => trivial

/-! ## Both passes -/

/-- Within the limit on bytes, a text that is not blank is complained about as its splitting says,
as far as brackets are concerned. -/
theorem parse_unbalanced_iff {text chain : String} {delimiter : Char} {offset : Nat}
    (hsize : text.utf8ByteSize ≤ Limits.chainLength)
    (hblank : Text.isAllBlank text.toList = false) :
    parse text = .error (.unbalancedBracket chain delimiter offset)
      ↔ splitSegments text = .error (.unbalancedBracket chain delimiter offset) := by
  unfold parse
  simp only [Nat.not_lt.mpr hsize, hblank, if_false, Bool.false_eq_true]
  cases hsplit : splitSegments text with
  | error e =>
    show (Except.error e : Except SyntaxError Chain) = _ ↔ _
    rw [Except.error.injEq, Except.error.injEq]
  | ok segments =>
    have hnested := (pieces_of_splitFrom hsplit rfl).2
    have hother : Yields (do
        if Limits.tokensPerChain < segments.length then
          throw (.tooManyTokens text segments.length)
        let tokens ← parseSegments text 0 segments
        return ⟨text, tokens⟩ : Except SyntaxError Chain) (fun _ => True) OtherFault := by
      simp only
      split
      next => exact nofun
      next => exact (otherFault_parseSegments hnested).bind fun _ _ => trivial
    constructor
    · intro h
      exact absurd rfl (hother.of_error h chain delimiter offset)
    · intro h
      cases h

/-- How a text is complained about when its brackets do not nest. -/
structure FaultsReported (text : String) : Prop where
  iff_fault : (∃ chain delimiter offset,
      parse text = .error (.unbalancedBracket chain delimiter offset))
    ↔ ¬Nested text.toList
      ∧ ∀ before delimiter, Fault text.toList before delimiter → ¬HasEmptySegment before
  first : ∀ chain delimiter offset,
    parse text = .error (.unbalancedBracket chain delimiter offset) →
      chain = text ∧ ∃ before, Fault text.toList before delimiter
        ∧ offset = Text.byteLength before
  bySplitting : ∀ chain delimiter offset,
    parse text = .error (.unbalancedBracket chain delimiter offset) →
      splitSegments text = .error (.unbalancedBracket chain delimiter offset)
  neverByReading : ∀ segments, splitSegments text = .ok segments → ∀ segment ∈ segments,
    ∀ index chain delimiter offset,
      parseSegment text index segment ≠ .error (.unbalancedBracket chain delimiter offset)

/-- Of the passes over a chain only the first one complains about brackets, and it does so exactly
if they do not nest and no empty segment comes before the first fault, which is what it reports. -/
theorem parse_faultsReported {text : String} (hsize : text.utf8ByteSize ≤ 1024)
    (hblank : Text.isAllBlank text.toList = false) : FaultsReported text where
  iff_fault := by
    simp only [parse_unbalanced_iff hsize hblank, splitSegments_unbalanced_iff,
      ← exists_fault_iff]
    constructor
    · rintro ⟨chain, delimiter, offset, -, before, hfault, -, hnoEmpty⟩
      refine ⟨⟨before, delimiter, hfault⟩, fun before' delimiter' hfault' => ?_⟩
      obtain ⟨rfl, -⟩ := hfault.unique hfault'
      exact hnoEmpty
    · rintro ⟨⟨before, delimiter, hfault⟩, hnoEmpty⟩
      exact ⟨text, delimiter, _, rfl, before, hfault, rfl, hnoEmpty before delimiter hfault⟩
  first chain delimiter offset h := by
    rw [parse_unbalanced_iff hsize hblank, splitSegments_unbalanced_iff] at h
    obtain ⟨hchain, before, hfault, hoffset, -⟩ := h
    exact ⟨hchain, before, hfault, hoffset⟩
  bySplitting _ _ _ := (parse_unbalanced_iff hsize hblank).mp
  neverByReading segments hsplit segment hsegment index chain delimiter offset h :=
    (otherFault_parseSegment ((pieces_of_splitFrom hsplit rfl).2 segment hsegment)).of_error h
      chain delimiter offset rfl

def openOrders : String := "orders[*.sku"

theorem parse_faultsReported_openOrders :
    parse openOrders = .error (.unbalancedBracket openOrders '[' 6)
      ∧ FaultsReported openOrders :=
  ⟨by rfl, parse_faultsReported (by decide) (by decide)⟩

/-- The second pass takes the first closing bracket, so it goes on inside of the outer one. -/
example : (splitSegments "cart[[0](Item)].sku").toOption.isSome = true
    ∧ parse "cart[[0](Item)].sku" = .error
      (.misplacedMarker "cart[[0](Item)].sku" "(Item)" .hintNotFirst ⟨8, 14⟩) := by
  decide +kernel

end Chain
end ChainMapping
