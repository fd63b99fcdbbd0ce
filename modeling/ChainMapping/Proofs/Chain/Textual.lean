import ChainMapping.Proofs.Chain.Prefix
import ChainMapping.Proofs.Chain.Sanitized
import ChainMapping.Proofs.Chain.Tokens
import ChainMapping.Proofs.Tree.Footprint

/-!
# The normal form as a text and as it is read

Replacing brackets in a text knows nothing of names, hints and markers, and a text whose brackets do
not match is left as it stands, so that its pieces could match only later.  They do not: what has
been replaced once is replaced by itself.

Where a text is a chain without hints, its brackets are those of its segments, and the replaced text
is the chain in normal form.  One thing differs: a marker makes the bracket before it superfluous,
which only a reader knows.  So texts tell at least as much as chains do, and texts that are
registered as one lead to one leaf.
-/

namespace ChainMapping
namespace Chain

variable {b : OpenBracket} {c : Char} {text body rest : List Char}

/-! ## One character -/

theorem starBrackets_opened (rest : List Char) :
    starBrackets none ('[' :: rest) = starBrackets (some ⟨[], false⟩) rest := by
  rw [starBrackets, if_pos rfl]

theorem starBrackets_outside (hopen : c ≠ '[') (rest : List Char) :
    starBrackets none (c :: rest) = c :: starBrackets none rest := by
  rw [starBrackets, if_neg hopen]

/-- A bracket is over where the next one begins. -/
theorem starBrackets_reopened (b : OpenBracket) (rest : List Char) :
    starBrackets (some b) ('[' :: rest) = b.written ++ starBrackets none ('[' :: rest) := by
  rw [starBrackets_opened, starBrackets, if_pos rfl]

theorem starBrackets_closed (b : OpenBracket) (rest : List Char) :
    starBrackets (some b) (']' :: rest)
      = (if b.comma then "[*,*]".toList else "[*]".toList) ++ starBrackets none rest := by
  rw [starBrackets, if_neg (by decide), if_pos rfl]

theorem starBrackets_firstComma (h : b.comma = false) (rest : List Char) :
    starBrackets (some b) (',' :: rest) = starBrackets (some ⟨',' :: b.body, true⟩) rest := by
  rw [starBrackets, if_neg (by decide), if_neg (by decide), if_pos rfl, h,
    if_neg Bool.false_ne_true]

/-- A bracket is over where it has a second comma. -/
theorem starBrackets_secondComma (h : b.comma = true) (rest : List Char) :
    starBrackets (some b) (',' :: rest) = b.written ++ ',' :: starBrackets none rest := by
  rw [starBrackets, if_neg (by decide), if_neg (by decide), if_pos rfl, if_pos h]

theorem starBrackets_inside (hopen : c ≠ '[') (hclose : c ≠ ']') (hcomma : c ≠ ',')
    (rest : List Char) :
    starBrackets (some b) (c :: rest)
      = starBrackets (some { b with body := c :: b.body }) rest := by
  rw [starBrackets, if_neg hopen, if_neg hclose, if_neg hcomma]

/-! ## Replacing twice -/

/-- An unfinished bracket that has been read: a comma was noticed, and a second one has not come. -/
structure OpenBracket.Fair (b : OpenBracket) : Prop where
  free : FreeOfSquares (some b)
  commas : b.body.count ',' = b.comma.toNat

theorem OpenBracket.fair_start : OpenBracket.Fair ⟨[], false⟩ := ⟨freeOfSquares_start, rfl⟩

theorem OpenBracket.Fair.comma (h : b.Fair) (hfirst : b.comma = false) :
    OpenBracket.Fair ⟨',' :: b.body, true⟩ where
  free := h.free.cons (by decide) (by decide) true
  commas := by simp [h.commas, hfirst]

theorem OpenBracket.Fair.other (h : b.Fair) (hopen : c ≠ '[') (hclose : c ≠ ']')
    (hcomma : c ≠ ',') : OpenBracket.Fair { b with body := c :: b.body } where
  free := h.free.cons hopen hclose b.comma
  commas := by simp [h.commas, hcomma]

/-- A bracket goes on for as long as there is at most one comma. -/
theorem starBrackets_body (hopen : '[' ∉ text) (hclose : ']' ∉ text)
    (hcommas : b.comma.toNat + text.count ',' ≤ 1) (rest : List Char) :
    starBrackets (some b) (text ++ rest)
      = starBrackets (some ⟨text.reverse ++ b.body, b.comma || text.contains ','⟩) rest := by
  induction text generalizing b with
  | nil => simp
  | cons c more ih =>
    rw [List.mem_cons, not_or] at hopen hclose
    rw [List.cons_append]
    by_cases hcomma : c = ','
    · subst hcomma
      rw [List.count_cons_self] at hcommas
      have hfirst : b.comma = false := by
        cases hnoticed : b.comma with
        | false => rfl
        | true => rw [hnoticed, Bool.toNat_true] at hcommas; omega
      rw [hfirst, Bool.toNat_false] at hcommas
      rw [starBrackets_firstComma hfirst,
        @ih ⟨',' :: b.body, true⟩ hopen.2 hclose.2 (by rw [Bool.toNat_true]; omega)]
      simp
    · rw [List.count_cons_of_ne hcomma] at hcommas
      rw [starBrackets_inside (Ne.symm hopen.1) (Ne.symm hclose.1) hcomma,
        @ih { b with body := c :: b.body } hopen.2 hclose.2 hcommas]
      simp [Ne.symm hcomma]

/-- The text of an unfinished bracket is read as the unfinished bracket. -/
theorem OpenBracket.Fair.starBrackets_written (h : b.Fair) (rest : List Char) :
    starBrackets none (b.written ++ rest) = starBrackets (some b) rest := by
  obtain ⟨hopen, hclose⟩ := h.free b rfl
  have hle := Bool.toNat_le b.comma
  have hnoticed : b.body.reverse.contains ',' = b.comma := by
    cases hcomma : b.comma with
    | false => simpa [hcomma, List.count_eq_zero] using h.commas
    | true =>
      have hsome : 0 < b.body.count ',' := by rw [h.commas, hcomma]; decide
      simpa using List.count_pos_iff.mp hsome
  rw [written, List.cons_append, starBrackets_opened,
    starBrackets_body (by simpa using hopen) (by simpa using hclose)
      (by rw [List.count_reverse, h.commas, Bool.toNat_false]; omega)]
  rw [hnoticed, List.reverse_reverse, List.append_nil, Bool.false_or]

/-- What is left of an open bracket begins with it. -/
theorem exists_starBrackets_some (b : OpenBracket) (cs : List Char) :
    ∃ more, starBrackets (some b) cs = '[' :: more := by
  induction cs generalizing b with
  | nil => exact ⟨_, rfl⟩
  | cons c rest ih =>
    rw [starBrackets]
    split_ifs with hopen hclose hpair hcomma hsecond
    · exact ⟨_, rfl⟩
    · exact ⟨_, rfl⟩
    · exact ⟨_, rfl⟩
    · exact ⟨_, rfl⟩
    · exact ih _
    · exact ih _

/-- Replacing brackets once more changes nothing. -/
theorem starBrackets_idem {pending : Option OpenBracket} (hfair : ∀ b ∈ pending, b.Fair)
    (cs : List Char) :
    starBrackets none (starBrackets pending cs) = starBrackets pending cs := by
  have hnone : ∀ b ∈ (none : Option OpenBracket), b.Fair := fun b hb => nomatch hb
  have hsome {b : OpenBracket} (h : b.Fair) : ∀ b' ∈ some b, b'.Fair := fun b' hb =>
    Option.some.inj hb ▸ h
  fun_induction starBrackets pending cs with
  | case1 => rfl
  | case2 b =>
    rw [← List.append_nil b.written, (hfair b rfl).starBrackets_written, starBrackets,
      List.append_nil]
  | case3 rest ih => exact ih (hsome OpenBracket.fair_start)
  | case4 c rest hopen ih => rw [starBrackets_outside hopen, ih hnone]
  | case5 b rest ih =>
    -- What follows begins with a bracket, and there the one before it is over.
    obtain ⟨more, hmore⟩ := exists_starBrackets_some ⟨[], false⟩ rest
    rw [(hfair b rfl).starBrackets_written, hmore, starBrackets_reopened, ← hmore,
      ih (hsome OpenBracket.fair_start)]
  | case6 b rest _ ih =>
    have hrest := ih hnone
    split
    · exact congrArg ("[*,*]".toList ++ ·) hrest
    · exact congrArg ("[*]".toList ++ ·) hrest
  | case7 b rest hsecond _ _ ih =>
    rw [(hfair b rfl).starBrackets_written, starBrackets_secondComma hsecond, ih hnone]
  | case8 b rest hfirst _ _ ih =>
    exact ih (hsome ((hfair b rfl).comma (eq_false_of_ne_true hfirst)))
  | case9 b c rest hopen hclose hcomma ih =>
    exact ih (hsome ((hfair b rfl).other hopen hclose hcomma))

/-! ## Anchor signs -/

/-- A bracket without its anchor signs. -/
def OpenBracket.unanchored (b : OpenBracket) : OpenBracket :=
  { b with body := b.body.filter (· ≠ '^') }

theorem OpenBracket.filter_written (b : OpenBracket) :
    b.written.filter (· ≠ '^') = b.unanchored.written := by
  simp [written, unanchored]

/-- Anchor signs may be dropped before or after brackets are replaced. -/
theorem filter_starBrackets (pending : Option OpenBracket) (cs : List Char) :
    (starBrackets pending cs).filter (· ≠ '^')
      = starBrackets (pending.map OpenBracket.unanchored) (cs.filter (· ≠ '^')) := by
  fun_induction starBrackets pending cs with
  | case1 => rfl
  | case2 b => exact b.filter_written
  | case3 rest ih => rw [ih, List.filter_cons_of_pos (by decide)]; rfl
  | case4 c rest hopen ih =>
    rw [Option.map_none] at ih ⊢
    by_cases hc : c = '^'
    · rw [List.filter_cons_of_neg (by simpa using hc), List.filter_cons_of_neg (by simpa using hc),
        ih]
    · rw [List.filter_cons_of_pos (by simpa using hc), List.filter_cons_of_pos (by simpa using hc),
        starBrackets_outside hopen, ih]
  | case5 b rest ih =>
    rw [List.filter_append, b.filter_written, ih, List.filter_cons_of_pos (by decide),
      Option.map_some, Option.map_some, starBrackets_reopened, starBrackets_opened]
    rfl
  | case6 b rest _ ih =>
    have hstars : (if b.comma then "[*,*]".toList else "[*]".toList).filter (· ≠ '^')
        = if b.comma then "[*,*]".toList else "[*]".toList := by
      cases b.comma <;> rfl
    rw [List.filter_append, hstars, ih, List.filter_cons_of_pos (by decide), Option.map_some,
      starBrackets_closed]
    rfl
  | case7 b rest hsecond _ _ ih =>
    rw [List.filter_append, b.filter_written, List.filter_cons_of_pos (by decide), ih,
      List.filter_cons_of_pos (by decide), Option.map_some]
    exact (@starBrackets_secondComma b.unanchored hsecond _).symm
  | case8 b rest hfirst _ _ ih =>
    rw [ih, List.filter_cons_of_pos (by decide), Option.map_some, Option.map_some]
    rw [@starBrackets_firstComma b.unanchored (eq_false_of_ne_true hfirst)]
    simp [OpenBracket.unanchored]
  | case9 b c rest hopen hclose hcomma ih =>
    by_cases hc : c = '^'
    · rw [ih, List.filter_cons_of_neg (by simpa using hc)]
      simp [OpenBracket.unanchored, hc]
    · rw [ih, List.filter_cons_of_pos (by simpa using hc)]
      simp only [Option.map_some]
      rw [starBrackets_inside hopen hclose hcomma]
      simp [OpenBracket.unanchored, hc]

/-- The normal form of a text is its own normal form. -/
theorem sanitizeChars_idem (cs : List Char) :
    sanitizeChars (sanitizeChars cs) = sanitizeChars cs := by
  have hdrop := filter_starBrackets none (starBrackets none cs)
  rw [starBrackets_idem (by simp), Option.map_none] at hdrop
  rw [sanitizeChars, sanitizeChars, ← hdrop, List.filter_filter]
  simp

/-! ## The text of a form -/

theorem sanitizeChars_plain (hbracket : '[' ∉ text) (hanchor : '^' ∉ text) (rest : List Char) :
    sanitizeChars (text ++ rest) = text ++ sanitizeChars rest := by
  induction text with
  | nil => rfl
  | cons c more ih =>
    rw [List.mem_cons, not_or] at hbracket hanchor
    have hmore := ih hbracket.2 hanchor.2
    rw [sanitizeChars] at hmore ⊢
    rw [List.cons_append, starBrackets_outside (Ne.symm hbracket.1), List.filter_cons_of_pos, hmore]
    · rfl
    · simpa using Ne.symm hanchor.1

/-- A bracket is replaced by one that has as many commas. -/
theorem sanitizeChars_bracket (hopen : '[' ∉ body) (hclose : ']' ∉ body)
    (hcommas : body.count ',' ≤ 1) (rest : List Char) :
    sanitizeChars ((Group.mk '[' body).written ++ rest)
      = (if body.contains ',' then "[*,*]".toList else "[*]".toList) ++ sanitizeChars rest := by
  have hbody := @starBrackets_body ⟨[], false⟩ body hopen hclose (by simpa using hcommas)
    (']' :: rest)
  rw [starBrackets_closed, Bool.false_or] at hbody
  rw [Group.written_append, sanitizeChars, starBrackets_opened]
  show (starBrackets _ (body ++ ']' :: rest)).filter _ = _
  rw [hbody, List.filter_append, sanitizeChars]
  cases body.contains ',' <;> rfl

theorem IsCollectionBody.sanitizeChars_group (h : IsCollectionBody body) (rest : List Char) :
    sanitizeChars ((Group.mk '[' body).written ++ rest) = "[*]".toList ++ sanitizeChars rest := by
  have hcomma : ',' ∉ body := h.notMem (by decide) (by decide) (by decide)
  rw [sanitizeChars_bracket (h.notMem (by decide) (by decide) (by decide))
    (h.notMem (by decide) (by decide) (by decide))]
  · simp [hcomma]
  · simp [List.count_eq_zero.mpr hcomma]

theorem IsPair.sanitizeChars_group {left right : List Char} (h : IsPair body left right)
    (hfree : '[' ∉ body ∧ ']' ∉ body) (rest : List Char) :
    sanitizeChars ((Group.mk '[' body).written ++ rest) = "[*,*]".toList ++ sanitizeChars rest := by
  have hcommas : body.count ',' = 1 := by
    rw [h.written, List.count_append, List.count_cons_self, List.count_eq_zero.mpr h.comma.1,
      List.count_eq_zero.mpr h.comma.2]
  have hcomma : ',' ∈ body := List.count_pos_iff.mp (by rw [hcommas]; exact Nat.one_pos)
  rw [sanitizeChars_bracket hfree.1 hfree.2 hcommas.le]
  simp [hcomma]

theorem sanitizeChars_marker (side : MapSide) (rest : List Char) :
    sanitizeChars ((Group.mk '<' side.letter).written ++ rest)
      = side.marker.toList ++ sanitizeChars rest := by
  have hmarker : (Group.mk '<' side.letter).written = side.marker.toList := by
    cases side <;> rfl
  rw [hmarker]
  exact sanitizeChars_plain (by cases side <;> decide) (by cases side <;> decide) rest

end Chain

/-! ## What a text tells of a segment -/

namespace Token

/-- A segment that is written with a bracket and a marker. -/
def isBothWritten (t : Token) : Bool :=
  t.shape.side?.isSome && t.raw.toList.contains '['

/-- What a text tells after the name of a segment: a marker leaves the bracket before it. -/
def textualSuffix (t : Token) : String :=
  if t.isBothWritten then "[*,*]" ++ t.shape.suffix else t.shape.suffix

/-- The segment as a text tells it. -/
def textual (t : Token) : String := t.name ++ t.textualSuffix

theorem suffix_of_isBothWritten {t : Token} (h : t.isBothWritten = true) :
    ∃ side : MapSide, t.shape.suffix = side.marker := by
  rw [isBothWritten, Bool.and_eq_true] at h
  rcases hshape : t.shape with _ | _ | ⟨_ | side, anchor⟩
  · simp [hshape, Shape.side?] at h
  · simp [hshape, Shape.side?] at h
  · simp [hshape, Shape.side?] at h
  · exact ⟨side, rfl⟩

/-- No segment in normal form has a bracket and a marker. -/
theorem stars_marker_ne_suffix (side : MapSide) (shape : Shape) :
    "[*,*]" ++ side.marker ≠ shape.suffix := by
  rcases shape with _ | _ | ⟨_ | _ | _, _⟩ <;> cases side <;>
    simp [Shape.suffix, MapSide.marker]

theorem suffix_of_textualSuffix {t t' : Token} (h : t.textualSuffix = t'.textualSuffix) :
    t.shape.suffix = t'.shape.suffix := by
  unfold textualSuffix at h
  cases hboth : t.isBothWritten with
  | true =>
    obtain ⟨side, hside⟩ := suffix_of_isBothWritten hboth
    cases hboth' : t'.isBothWritten with
    | true => simpa [hboth, hboth'] using h
    | false =>
      rw [hboth, hboth', hside] at h
      exact absurd h (stars_marker_ne_suffix side _)
  | false =>
    cases hboth' : t'.isBothWritten with
    | true =>
      obtain ⟨side, hside⟩ := suffix_of_isBothWritten hboth'
      rw [hboth, hboth', hside] at h
      exact absurd h.symm (stars_marker_ne_suffix side _)
    | false => simpa [hboth, hboth'] using h

theorem takeWhile_textual {t : Token} (h : Chain.IsName t.name) :
    t.textual.toList.takeWhile Chain.isNameChar = t.name.toList := by
  have hsquare : Chain.isNameChar '[' = false := by decide
  have hsuffix : t.textualSuffix.toList.takeWhile Chain.isNameChar = [] := by
    unfold textualSuffix
    split
    · simp [hsquare]
    · exact t.shape.takeWhile_suffix
  rw [textual, String.toList_append, List.takeWhile_append_of_pos h.chars, hsuffix,
    List.append_nil]

theorem normal_of_textual {t t' : Token} (h : Chain.IsName t.name) (h' : Chain.IsName t'.name)
    (heq : t.textual = t'.textual) : t.normal = t'.normal := by
  have hname : t.name = t'.name := by
    rw [← String.toList_inj, ← takeWhile_textual h, ← takeWhile_textual h', heq]
  rw [textual, textual, hname] at heq
  have hlist := congrArg String.toList heq
  rw [String.toList_append, String.toList_append] at hlist
  rw [normal, normal, hname,
    suffix_of_textualSuffix (String.toList_inj.mp (List.append_cancel_left hlist))]

theorem dot_notMem_textual {t : Token} (h : Chain.IsName t.name) : '.' ∉ t.textual.toList := by
  have hname : '.' ∉ t.name.toList := h.notMem (by decide)
  have hsuffix : '.' ∉ t.textualSuffix.toList := by
    unfold textualSuffix
    split
    · simpa using t.shape.dot_notMem_suffix
    · exact t.shape.dot_notMem_suffix
  rw [textual, String.toList_append, List.mem_append]
  exact not_or.mpr ⟨hname, hsuffix⟩

end Token

namespace Chain

variable {chain : String} {c c' : Chain} {token : Token} {f : Form}

/-- A segment without a hint that has a square bracket in its text has it as its bracket. -/
theorem contains_written (h : f.Valid) (hhint : f.hint = none) :
    f.written.contains '[' = f.bracket.isSome := by
  have hname : '[' ∉ f.name := h.name.notMem (by decide)
  have hmarker (side : MapSide) : '[' ∉ (Group.mk '<' side.letter).written := by
    cases side <;> decide
  cases hbracket : f.bracket with
  | none =>
    cases hside : f.marker with
    | none => simpa [Form.written, Form.groups, hhint, hbracket, hside] using hname
    | some side =>
      simpa [Form.written, Form.groups, hhint, hbracket, hside] using ⟨hname, hmarker side⟩
  | some body => simp [Form.written, Form.groups, Group.written, hhint, hbracket]

/-- What a text tells of a segment without a hint. -/
theorem ReadFrom.sanitizeChars_written (h : ReadFrom chain token f) (hhint : token.hint = none)
    (rest : List Char) :
    sanitizeChars (f.written ++ rest) = token.textual.toList ++ sanitizeChars rest := by
  have hnone : f.hint = none := by
    rw [h.hint] at hhint
    exact Option.map_eq_none_iff.mp hhint
  have hplain (text : List Char) :
      sanitizeChars (f.name ++ text) = token.name.toList ++ sanitizeChars text := by
    rw [h.toList_name]
    exact sanitizeChars_plain (h.valid.name.notMem (by decide)) (h.valid.name.notMem (by decide))
      text
  have hraw : token.raw.toList.contains '[' = f.bracket.isSome := by
    rw [h.toList_raw, contains_written h.valid hnone]
  have hasks := h.asks
  rw [Form.written, List.append_assoc, hplain, Token.textual,
    Token.textualSuffix, Token.isBothWritten, hraw]
  generalize token.shape = shape at hasks ⊢
  cases hasks with
  | plain hbracket hmarker => simp [Form.groups, hnone, hbracket, hmarker, Shape.suffix]
  | side hbracket hmarker =>
    simp [Form.groups, hnone, hbracket, hmarker, Shape.suffix, sanitizeChars_marker]
  | elements hbracket hmarker hmark =>
    simp [Form.groups, hnone, hbracket, hmarker, Shape.suffix, Shape.side?,
      hmark.sanitizeChars_group]
  | entries hbracket hpair =>
    have hgroup := hpair.sanitizeChars_group (h.valid.noSquare hbracket)
    cases hmarker : f.marker with
    | none => simp [Form.groups, hnone, hbracket, hmarker, Shape.suffix, Shape.side?, hgroup]
    | some side =>
      simp [Form.groups, hnone, hbracket, hmarker, Shape.suffix, Shape.side?, hgroup,
        sanitizeChars_marker]

theorem sanitizeChars_join {tokens : List Token} {forms : List Form}
    (h : List.Forall₂ (ReadFrom chain) tokens forms) (hhints : ∀ t ∈ tokens, t.hint = none) :
    sanitizeChars (List.intercalate ['.'] (forms.map Form.written))
      = List.intercalate ['.'] (tokens.map fun t => t.textual.toList) := by
  induction h with
  | nil => rfl
  | @cons token f tokens forms hfirst hrest ih =>
    rw [List.forall_mem_cons] at hhints
    have hread := hfirst.sanitizeChars_written hhints.1
    cases hrest with
    | nil =>
      have hone := hread []
      rw [List.append_nil] at hone
      simpa [sanitizeChars, starBrackets] using hone
    | @cons second g more others hsecond hmore =>
      have hdot : sanitizeChars ('.' :: List.intercalate ['.'] ((g :: others).map Form.written))
          = '.' :: sanitizeChars (List.intercalate ['.'] ((g :: others).map Form.written)) :=
        @sanitizeChars_plain ['.'] (by decide) (by decide) _
      rw [List.map_cons, List.map_cons, List.intercalate_cons_cons, ← List.map_cons,
        List.append_assoc, hread, List.singleton_append, hdot, ih hhints.2]
      simp

/-- No segment has a hint. -/
def Unhinted (c : Chain) : Prop := ∀ token ∈ c.tokens, token.hint = none

instance (c : Chain) : Decidable c.Unhinted :=
  inferInstanceAs (Decidable (∀ token ∈ c.tokens, token.hint = none))

/-- The text of a chain without hints tells what its segments tell. -/
theorem sanitize_of_parse (h : parse chain = .ok c) (hhints : c.Unhinted) :
    sanitize chain = Text.join "." (c.tokens.map Token.textual) := by
  obtain ⟨forms, hsome, -, hvalid, htext⟩ := forms_of_parse ⟨c, h⟩
  have hread := readFrom_of_parse h (List.length_pos_iff.mp hsome) hvalid htext
  rw [← String.toList_inj, sanitize, String.toList_ofList, htext, sanitizeChars_join hread hhints,
    Text.join, String.toList_intercalate, List.map_map]
  rfl

/-- Texts that tell the same tell the same chain in normal form. -/
theorem normal_of_sanitize {chain' : String} (h : parse chain = .ok c) (h' : parse chain' = .ok c')
    (hhints : c.Unhinted) (hhints' : c'.Unhinted) (heq : sanitize chain = sanitize chain') :
    c.normal = c'.normal := by
  rw [sanitize_of_parse h hhints, sanitize_of_parse h' hhints'] at heq
  have hproper := (proper_of_parse h).2
  have hproper' := (proper_of_parse h').2
  have hparts := Token.join_part_inj Token.dot_notMem_textual hproper.nonempty hproper'.nonempty
    hproper.names hproper'.names heq
  rw [normal, normal,
    Token.map_eq_of_part Token.normal_of_textual hproper.names hproper'.names hparts]

/-- The normal form of a text and the one that is read agree.  A text in normal form stays as it is,
however its brackets stand.  The text of a chain without hints tells what its segments tell.  So
chains without hints whose texts tell the same have the same normal form and, in one tree with any
history, the same leaf. -/
theorem sanitize_agrees :
    (∀ text, sanitize (sanitize text) = sanitize text)
      ∧ (∀ text c, parse text = .ok c → c.Unhinted →
        sanitize text = Text.join "." (c.tokens.map Token.textual))
      ∧ (∀ text text' c c', parse text = .ok c → parse text' = .ok c' →
        c.Unhinted → c'.Unhinted → sanitize text = sanitize text' → c.normal = c'.normal)
      ∧ ∀ side rootType overrides calls,
        ∀ a ∈ (Tree.fresh side rootType overrides).resolved calls,
        ∀ b ∈ (Tree.fresh side rootType overrides).resolved calls,
          a.1.Unhinted → b.1.Unhinted → sanitize a.1.text = sanitize b.1.text → a.2 = b.2 := by
  refine ⟨fun text => ?_, fun text c => sanitize_of_parse,
    fun text text' c c' => normal_of_sanitize, ?_⟩
  · rw [sanitize, sanitize, String.toList_ofList, sanitizeChars_idem]
  · intro side rootType overrides calls a ha b hb hhints hhints' heq
    have h := Tree.wellFormed_fresh side rootType overrides
    obtain ⟨hproper, hf⟩ := h.follow?_resolved ha
    obtain ⟨hproper', hf'⟩ := h.follow?_resolved hb
    have hnormal := normal_of_sanitize (Tree.parse_resolved ha) (Tree.parse_resolved hb) hhints
      hhints' heq
    exact ((h.after calls).leaf_eq_iff hproper hproper' hf hf').mpr hnormal

/-- A source in which `tags` is a map from texts to objects. -/
def tagged : Introspector where
  typeRef name := .ok ⟨name, .object, []⟩
  fieldType owner field :=
    .ok ⟨owner, field,
      if field = "tags" then ⟨"Map", .map, [⟨"Text", .scalar, []⟩, ⟨"Tag", .object, []⟩]⟩
      else ⟨"Thing", .object, []⟩⟩

/-- `tags[a, b]<V>.label` as it is read. -/
def bracketedLabel : Chain where
  text := "tags[a, b]<V>.label"
  tokens :=
    [⟨"tags[a, b]<V>", "tags", 0, ⟨0, 13⟩, .map (some .value) none, none⟩,
     ⟨"label", "label", 1, ⟨14, 19⟩, .plain, none⟩]

/-- `tags[*,*]<V>.label` as it is read. -/
def starredLabel : Chain where
  text := "tags[*,*]<V>.label"
  tokens :=
    [⟨"tags[*,*]<V>", "tags", 0, ⟨0, 12⟩, .map (some .value) none, none⟩,
     ⟨"label", "label", 1, ⟨13, 18⟩, .plain, none⟩]

/-- A bracket before a marker stays in the text, and the normal form that is read has none.
Brackets that do not match stay as they are. -/
theorem sanitize_agrees_labels :
    sanitize "a[[^b]],[c" = "a[[*]],[c" ∧ sanitize "a[[*]],[c" = "a[[*]],[c"
      ∧ sanitize bracketedLabel.text
        = Text.join "." (bracketedLabel.tokens.map Token.textual)
      ∧ bracketedLabel.normal = starredLabel.normal
      ∧ ∃ leaf leaf',
        (Tree.fresh .source ⟨"Root", .object, []⟩ []).resolved
            [.resolve tagged "tags[a, b]<V>.label", .resolve tagged "tags[*,*]<V>.label"]
          = [(bracketedLabel, leaf), (starredLabel, leaf')] ∧ leaf = leaf' := by
  obtain ⟨hidem, htext, hnormal, hleaf⟩ := sanitize_agrees
  have hparse : parse bracketedLabel.text = .ok bracketedLabel := by decide +kernel
  have hparse' : parse starredLabel.text = .ok starredLabel := by decide +kernel
  have hunhinted : bracketedLabel.Unhinted := by decide
  have hunhinted' : starredLabel.Unhinted := by decide
  have hsame : sanitize bracketedLabel.text = sanitize starredLabel.text := by decide +kernel
  have hloose : sanitize "a[[^b]],[c" = "a[[*]],[c" := by decide +kernel
  have hresolved : (Tree.fresh .source ⟨"Root", .object, []⟩ []).resolved
      [.resolve tagged "tags[a, b]<V>.label", .resolve tagged "tags[*,*]<V>.label"]
        = [(bracketedLabel, 3), (starredLabel, 3)] := by decide +kernel
  have hone := hleaf .source ⟨"Root", .object, []⟩ []
    [.resolve tagged "tags[a, b]<V>.label", .resolve tagged "tags[*,*]<V>.label"]
    (bracketedLabel, 3) (hresolved ▸ List.mem_cons_self)
    (starredLabel, 3) (hresolved ▸ List.mem_cons_of_mem _ List.mem_cons_self)
    hunhinted hunhinted' hsame
  exact ⟨hloose, hloose ▸ hidem "a[[^b]],[c", htext _ _ hparse hunhinted,
    hnormal _ _ _ _ hparse hparse' hunhinted hunhinted' hsame, 3, 3, hresolved, hone⟩

end Chain
end ChainMapping
