import ChainMapping.Chain.Tokenize
import ChainMapping.Proofs.Ending

/-!
# Chains that have been read

What reading a chain guarantees to everyone who works with it: there is at least one segment and at
most as many as the limit says, the segments are numbered from zero, and every one of them has a
name.

`SplitStep` says what the first pass does where it stands.  What it does with a whole text follows
from that by induction on the text.
-/

namespace ChainMapping
namespace Chain

/-- A text that can name a field in a chain. -/
structure IsName (text : String) : Prop where
  nonempty : text.toList ≠ []
  chars : ∀ c ∈ text.toList, isNameChar c = true

theorem isNameChar_ne {c mark : Char} (h : isNameChar c = true) (hmark : isNameChar mark = false) :
    c ≠ mark := by
  rintro rfl
  rw [h] at hmark
  exact absurd hmark (by simp)

/-- Names are free of every mark of the notation. -/
theorem IsName.notMem {text : String} (h : IsName text) {mark : Char}
    (hmark : isNameChar mark = false) : mark ∉ text.toList :=
  fun hmem => isNameChar_ne (h.chars mark hmem) hmark rfl

/-- Segments numbered one after the other. -/
def NumberedFrom (index : Nat) : List Token → Prop
  | [] => True
  | token :: rest => token.index = index ∧ NumberedFrom (index + 1) rest

theorem NumberedFrom.take {index : Nat} {tokens : List Token}
    (h : NumberedFrom index tokens) (k : Nat) : NumberedFrom index (tokens.take k) := by
  induction tokens generalizing index k with
  | nil => rw [List.take_nil]; trivial
  | cons token rest ih =>
    cases k with
    | zero => trivial
    | succ k => exact ⟨h.1, ih h.2 k⟩

theorem NumberedFrom.drop {index : Nat} {tokens : List Token}
    (h : NumberedFrom index tokens) {k : Nat} (hk : k ≤ tokens.length) :
    NumberedFrom (index + k) (tokens.drop k) := by
  induction tokens generalizing index k with
  | nil => rw [List.drop_nil]; trivial
  | cons token rest ih =>
    cases k with
    | zero => exact h
    | succ k =>
      have hrest := ih h.2 (Nat.le_of_succ_le_succ hk)
      rw [List.drop_succ_cons, Nat.add_comm k, ← Nat.add_assoc]
      exact hrest

theorem NumberedFrom.index_eq {index : Nat} {tokens : List Token}
    (h : NumberedFrom index tokens) {k : Nat} (hk : k < tokens.length) :
    tokens[k].index = index + k := by
  have hrest := h.drop (Nat.le_of_lt hk)
  rw [List.drop_eq_getElem_cons hk] at hrest
  exact hrest.1

/-- A chain as reading it gives it. -/
structure Proper (chain : Chain) : Prop where
  nonempty : chain.tokens ≠ []
  length_le : chain.tokens.length ≤ Limits.tokensPerChain
  numbered : NumberedFrom 0 chain.tokens
  names : ∀ token ∈ chain.tokens, IsName token.name

/-! ## Steps of the first pass -/

/-- What the first pass does where it stands: at the end of the text, or at the next character. -/
inductive SplitStep (chain : String) (offset : Nat) (opened : List (Char × Nat)) (start : Nat)
    (current : List Char) : List Char → Except SyntaxError (List Segment) → Prop where
  /-- the text ends with open brackets -/
  | unclosed {bracket : Char} {place : Nat} (outermost : opened.getLast? = some (bracket, place)) :
      SplitStep chain offset opened start current []
        (.error (.unbalancedBracket chain bracket place))
  /-- the text ends with a separator -/
  | missing (closed : opened = []) (fresh : current = []) :
      SplitStep chain offset opened start current [] (.error (.emptySegment chain start))
  /-- the text ends with its last segment -/
  | last (closed : opened = []) (begun : current ≠ []) :
      SplitStep chain offset opened start current [] (.ok [⟨start, current.reverse⟩])
  | opening {c : Char} {rest : List Char} (opening : isOpening c = true) :
      SplitStep chain offset opened start current (c :: rest)
        (splitFrom chain (offset + c.utf8Size) ((c, offset) :: opened) start (c :: current) rest)
  | closing {bracket : Char} {place : Nat} {outer : List (Char × Nat)} {rest : List Char}
      (innermost : opened = (bracket, place) :: outer) :
      SplitStep chain offset opened start current (closingOf bracket :: rest)
        (splitFrom chain (offset + (closingOf bracket).utf8Size) outer start
          (closingOf bracket :: current) rest)
  /-- a closing bracket that is not the one for the innermost open bracket -/
  | misplaced {c : Char} {rest : List Char} (closing : isClosing c = true)
      (differs : ∀ entry ∈ opened.head?, closingOf entry.1 ≠ c) :
      SplitStep chain offset opened start current (c :: rest)
        (.error (.unbalancedBracket chain c offset))
  /-- a separator with nothing since the one before -/
  | empty {rest : List Char} (closed : opened = []) (fresh : current = []) :
      SplitStep chain offset opened start current ('.' :: rest)
        (.error (.emptySegment chain offset))
  | separator {rest : List Char} (closed : opened = []) (begun : current ≠ []) :
      SplitStep chain offset opened start current ('.' :: rest) (do
        let segments ← splitFrom chain (offset + '.'.utf8Size) [] (offset + '.'.utf8Size) [] rest
        return ⟨start, current.reverse⟩ :: segments)
  /-- any other character, and a separator inside of brackets -/
  | plain {c : Char} {rest : List Char} (opening : isOpening c = false)
      (closing : isClosing c = false) (inside : c = '.' → opened ≠ []) :
      SplitStep chain offset opened start current (c :: rest)
        (splitFrom chain (offset + c.utf8Size) opened start (c :: current) rest)

theorem splitFrom_step (chain : String) (offset : Nat) (opened : List (Char × Nat)) (start : Nat)
    (current cs : List Char) :
    SplitStep chain offset opened start current cs
      (splitFrom chain offset opened start current cs) := by
  cases cs with
  | nil =>
    rw [splitFrom]
    split
    next bracket place hlast => exact .unclosed hlast
    next hlast =>
      rw [List.getLast?_eq_none_iff] at hlast
      split
      next hfresh => exact .missing hlast (List.isEmpty_iff.mp hfresh)
      next hbegun => exact .last hlast (by simpa using hbegun)
  | cons c rest =>
    unfold splitFrom
    simp only
    split
    next hopening => exact .opening hopening
    next hopening =>
      rw [Bool.not_eq_true] at hopening
      split
      next hclosing =>
        split
        next => exact .misplaced hclosing nofun
        next bracket place outer =>
          split
          next hsame =>
            subst hsame
            exact .closing rfl
          next hdiffers =>
            refine .misplaced hclosing fun entry hentry => ?_
            obtain rfl := Option.some.inj hentry
            exact hdiffers
      next hclosing =>
        rw [Bool.not_eq_true] at hclosing
        split
        next hseparator =>
          simp only [Bool.and_eq_true, decide_eq_true_eq, List.isEmpty_iff] at hseparator
          obtain ⟨rfl, hclosed⟩ := hseparator
          split
          next hfresh => exact .empty hclosed (List.isEmpty_iff.mp hfresh)
          next hbegun => exact .separator hclosed (by simpa using hbegun)
        next hseparator =>
          refine .plain hopening hclosing ?_
          rintro rfl
          simpa using hseparator

theorem splitFrom_ne_nil {chain : String} {offset : Nat} {opened : List (Char × Nat)} {start : Nat}
    {current cs : List Char} {segments : List Segment}
    (h : splitFrom chain offset opened start current cs = .ok segments) : segments ≠ [] := by
  induction cs generalizing offset opened start current segments with
  | nil =>
    have hstep := splitFrom_step chain offset opened start current []
    generalize splitFrom chain offset opened start current [] = result at h hstep
    cases hstep with
    | unclosed | missing => cases h
    | last =>
      obtain rfl := Except.ok.inj h
      exact List.cons_ne_nil _ _
  | cons c rest ih =>
    have hstep := splitFrom_step chain offset opened start current (c :: rest)
    generalize splitFrom chain offset opened start current (c :: rest) = result at h hstep
    cases hstep with
    | opening | closing | plain => exact ih h
    | misplaced | empty => cases h
    | separator =>
      obtain ⟨more, -, hok⟩ := bind_eq_ok h
      obtain rfl := Except.ok.inj hok
      exact List.cons_ne_nil _ _

/-! ## Segments and chains -/

/-- A segment is read if it begins with a name that is no number and not too long, and what follows
reads as parts that have a shape. -/
theorem parseSegment_eq_ok_iff {chain : String} {index : Nat} {segment : Segment} {token : Token} :
    parseSegment chain index segment = .ok token
      ↔ (segment.text.takeWhile isNameChar).isEmpty = false
        ∧ (((segment.text.takeWhile isNameChar).headD ' ').isDigit
          || decide (Limits.identifierLength
            < (segment.text.takeWhile isNameChar).length)) = false
        ∧ ∃ parts shape,
          scanParts chain segment (segment.start + (segment.text.takeWhile isNameChar).length) none
            {} (segment.text.dropWhile isNameChar) = .ok parts
          ∧ parts.shape chain = .ok shape
          ∧ token =
            { raw := String.ofList segment.text
              name := String.ofList (segment.text.takeWhile isNameChar)
              index := index
              span := segment.span
              shape := shape
              hint := parts.hint } := by
  unfold parseSegment
  simp only [throw, throwThe, MonadExceptOf.throw]
  constructor
  · intro h
    split at h
    · cases h
    next hname =>
      split at h
      · cases h
      next hlimits =>
        obtain ⟨parts, hparts, hmore⟩ := bind_eq_ok h
        obtain ⟨shape, hshape, hok⟩ := bind_eq_ok hmore
        exact ⟨by simpa using hname, by simpa using hlimits, parts, shape, hparts, hshape,
          (Except.ok.inj hok).symm⟩
  · rintro ⟨hname, hlimits, parts, shape, hparts, hshape, rfl⟩
    simp only [hname, hlimits, hparts, hshape, bind, Except.bind, pure, Except.pure,
      Bool.false_eq_true, if_false]

/-- A segment that can be read has the number it was given and a name. -/
theorem parseSegment_ok {chain : String} {index : Nat} {segment : Segment} {token : Token}
    (h : parseSegment chain index segment = .ok token) :
    token.index = index ∧ IsName token.name := by
  obtain ⟨hname, -, parts, shape, -, -, rfl⟩ := parseSegment_eq_ok_iff.mp h
  refine ⟨rfl, by simpa using hname, fun c hc => ?_⟩
  rw [String.toList_ofList] at hc
  exact List.all_eq_true.mp List.all_takeWhile c hc

theorem parseSegments_ok {chain : String} {index : Nat} {segments : List Segment}
    {tokens : List Token} (h : parseSegments chain index segments = .ok tokens) :
    tokens.length = segments.length ∧ NumberedFrom index tokens
      ∧ ∀ token ∈ tokens, IsName token.name := by
  induction segments generalizing index tokens with
  | nil =>
    simp only [parseSegments, Except.ok.injEq] at h
    simp [← h, NumberedFrom]
  | cons segment rest ih =>
    obtain ⟨token, htoken, hafter⟩ := bind_eq_ok h
    obtain ⟨more, hmore, hok⟩ := bind_eq_ok hafter
    obtain rfl := Except.ok.inj hok
    obtain ⟨hindex, hname⟩ := parseSegment_ok htoken
    obtain ⟨hlength, hnumbered, hnames⟩ := ih hmore
    exact ⟨by simp [hlength], ⟨hindex, hnumbered⟩, List.forall_mem_cons.mpr ⟨hname, hnames⟩⟩

/-- A text is read as a chain if it is neither too long nor blank, and is cut into segments that
are not too many and can be read. -/
theorem parse_eq_ok_iff {text : String} {chain : Chain} :
    parse text = .ok chain
      ↔ text.utf8ByteSize ≤ Limits.chainLength ∧ Text.isAllBlank text.toList = false
        ∧ ∃ segments tokens, splitSegments text = .ok segments
          ∧ segments.length ≤ Limits.tokensPerChain
          ∧ parseSegments text 0 segments = .ok tokens ∧ chain = ⟨text, tokens⟩ := by
  unfold parse
  simp only [throw, throwThe, MonadExceptOf.throw]
  constructor
  · intro h
    split at h
    · cases h
    next hsize =>
      split at h
      · cases h
      next hblank =>
        obtain ⟨segments, hsegments, hmore⟩ := bind_eq_ok h
        split at hmore
        · cases hmore
        next hcount =>
          obtain ⟨tokens, htokens, hok⟩ := bind_eq_ok hmore
          exact ⟨Nat.not_lt.mp hsize, by simpa using hblank, segments, tokens, hsegments,
            Nat.not_lt.mp hcount, htokens, (Except.ok.inj hok).symm⟩
  · rintro ⟨hsize, hblank, segments, tokens, hsegments, hcount, htokens, rfl⟩
    simp only [Nat.not_lt.mpr hsize, hblank, hsegments, Nat.not_lt.mpr hcount, htokens, bind,
      Except.bind, pure, Except.pure, Bool.false_eq_true, if_false]

/-- A chain that can be read is proper, and keeps its text. -/
theorem proper_of_parse {text : String} {chain : Chain} (h : parse text = .ok chain) :
    chain.text = text ∧ chain.Proper := by
  obtain ⟨-, -, segments, tokens, hsegments, hcount, htokens, rfl⟩ := parse_eq_ok_iff.mp h
  obtain ⟨hlength, hnumbered, hnames⟩ := parseSegments_ok htokens
  have hsome : segments.length ≠ 0 := fun hnil =>
    splitFrom_ne_nil hsegments (List.length_eq_zero_iff.mp hnil)
  refine ⟨rfl, ?_, ?_, hnumbered, hnames⟩
  · rw [ne_eq, ← List.length_eq_zero_iff, hlength]
    exact hsome
  · rw [hlength]
    exact hcount

end Chain
end ChainMapping
