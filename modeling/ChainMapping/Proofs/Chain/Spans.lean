import ChainMapping.Proofs.Chain.Tokens

/-!
# Spans of tokens and of errors

Offsets are counted in bytes while a chain is read character by character.  They are always places
between characters: reading carries along how the text falls into what has been read and what has
not, and the offset is the length of the first part.

The segments of a chain lie one after the other with a separator between neighbours, so nothing of
the text is lost.  A complaint about a chain points into its text, or at the end of it.
-/

namespace ChainMapping

/-! ## Places in a text -/

namespace Text

/-- An offset is a place between characters, or at either end. -/
def Boundary (text : List Char) (offset : Nat) : Prop :=
  ∃ before after, text = before ++ after ∧ byteLength before = offset

variable {text : List Char} {offset : Nat}

theorem boundary_zero : Boundary text 0 := ⟨[], text, rfl, rfl⟩

theorem Boundary.le (h : Boundary text offset) : offset ≤ byteLength text := by
  obtain ⟨before, after, rfl, rfl⟩ := h
  rw [byteLength_append]
  omega

theorem byteLength_reverse (cs : List Char) : byteLength cs.reverse = byteLength cs := by
  induction cs with
  | nil => rfl
  | cons c rest ih =>
    rw [List.reverse_cons, byteLength_append, ih, byteLength, byteLength, byteLength]
    omega

theorem Boundary.isValid {s : String} (h : Boundary s.toList offset) :
    (⟨offset⟩ : String.Pos.Raw).IsValid s := by
  obtain ⟨before, after, htext, rfl⟩ := h
  rw [String.Pos.Raw.isValid_iff_exists_append]
  refine ⟨String.ofList before, String.ofList after, ?_, ?_⟩
  · rw [← String.ofList_append, ← htext, String.ofList_toList]
  · rw [String.Pos.Raw.ext_iff, String.byteIdx_rawEndPos, utf8ByteSize_ofList]

theorem splitAtByte_append (before after : List Char) :
    splitAtByte (byteLength before) (before ++ after) = some (before, after) := by
  induction before with
  | nil => cases after <;> rfl
  | cons c rest ih =>
    have hpos : 0 < c.utf8Size := c.utf8Size_pos
    obtain ⟨n, hn⟩ : ∃ n, byteLength (c :: rest) = n + 1 :=
      ⟨byteLength (c :: rest) - 1, by rw [byteLength]; omega⟩
    have hrest : n + 1 - c.utf8Size = byteLength rest := by rw [← hn, byteLength]; omega
    have hfits : c.utf8Size ≤ n + 1 := by rw [← hn, byteLength]; omega
    rw [hn, List.cons_append, splitAtByte, if_pos hfits, hrest, ih]
    rfl

/-- What stands between two places is cut out of the text. -/
theorem sliceBytes_append (before middle after : List Char) :
    sliceBytes (byteLength before) (byteLength before + byteLength middle)
      (before ++ (middle ++ after)) = some middle := by
  rw [sliceBytes, if_pos (Nat.le_add_right _ _), splitAtByte_append, Nat.add_sub_cancel_left]
  simp [splitAtByte_append]

end Text

/-- A span that shows a reader a place in a text: it has a byte at least, begins between characters
and goes at most one byte beyond the end. -/
structure Span.PointsInto (s : Span) (text : List Char) : Prop where
  start : Text.Boundary text s.start
  lt : s.start < s.stop
  stop_le : s.stop ≤ Text.byteLength text + 1

theorem Span.pointsInto_byte {text : List Char} {offset : Nat} (h : Text.Boundary text offset) :
    (Span.byte offset).PointsInto text :=
  ⟨h, Nat.lt_succ_self offset, Nat.succ_le_succ h.le⟩

namespace Chain

/-- A computation that has an answer with a property, or else complains about a place in a text. -/
def Places {α : Type} (text : List Char) (post : α → Prop) : Except SyntaxError α → Prop
  | .ok a => post a
  | .error e => ∀ span, e.span? = some span → span.PointsInto text

variable {chain : String} {text : List Char} {α β : Type}

theorem Places.mono {x : Except SyntaxError α} {post post' : α → Prop} (h : Places text post x)
    (hpost : ∀ a, post a → post' a) : Places text post' x := by
  cases x with
  | ok a => exact hpost a h
  | error e => exact h

theorem Places.bind {x : Except SyntaxError α} {f : α → Except SyntaxError β} {mid : α → Prop}
    {post : β → Prop} (h : Places text mid x) (hf : ∀ a, mid a → Places text post (f a)) :
    Places text post (x >>= f) := by
  cases x with
  | ok a => exact hf a h
  | error e => exact h

theorem Places.and_eq {x : Except SyntaxError α} {post : α → Prop} (h : Places text post x) :
    Places text (fun a => x = .ok a ∧ post a) x := by
  cases x with
  | ok a => exact ⟨rfl, h⟩
  | error e => exact h

/-- A complaint about a place. -/
theorem places_error {post : α → Prop} {e : SyntaxError} {span : Span} (hspan : e.span? = some span)
    (h : span.PointsInto text) : Places text post (.error e) := by
  intro span' hspan'
  rw [hspan, Option.some.injEq] at hspan'
  exact hspan' ▸ h

/-! ## Segments -/

/-- Segments lie one after the other from an offset on, with one byte between neighbours, and none
of them is empty. -/
def LaidFrom (offset : Nat) : List Segment → Prop
  | [] => True
  | s :: rest => s.start = offset ∧ s.text ≠ [] ∧ LaidFrom (s.span.stop + 1) rest

/-- How far reading has come: what is left of a text begins at an offset. -/
structure LeftAt (text : List Char) (offset : Nat) (cs : List Char) : Prop where
  split : ∃ before, text = before ++ cs ∧ Text.byteLength before = offset

theorem LeftAt.boundary {offset : Nat} {cs : List Char} (h : LeftAt text offset cs) :
    Text.Boundary text offset := by
  obtain ⟨before, htext, hoffset⟩ := h.split
  exact ⟨before, cs, htext, hoffset⟩

theorem LeftAt.next {offset : Nat} {c : Char} {cs : List Char} (h : LeftAt text offset (c :: cs)) :
    LeftAt text (offset + c.utf8Size) cs := by
  obtain ⟨before, rfl, rfl⟩ := h.split
  refine ⟨before ++ [c], by simp, ?_⟩
  rw [Text.byteLength_append]
  rfl

/-- The first pass complains about the place of a bracket or of a missing name. -/
theorem places_splitFrom {cs : List Char} {offset start : Nat} {opened : List (Char × Nat)}
    {current : List Char} (hleft : LeftAt text offset cs) (hstart : Text.Boundary text start)
    (hcurrent : start + Text.byteLength current = offset)
    (hopened : ∀ entry ∈ opened, Text.Boundary text entry.2) :
    Places text (LaidFrom start) (splitFrom chain offset opened start current cs) := by
  induction cs generalizing offset start opened current with
  | nil =>
    have hstep := splitFrom_step chain offset opened start current []
    generalize splitFrom chain offset opened start current [] = result at hstep ⊢
    cases hstep with
    | unclosed houtermost =>
      have hplace := hopened _ (List.mem_of_getLast? houtermost)
      exact places_error rfl (Span.pointsInto_byte hplace)
    | missing => exact places_error rfl (Span.pointsInto_byte hstart)
    | last _ hbegun => exact ⟨rfl, by simpa using hbegun, trivial⟩
  | cons c rest ih =>
    have hkeep {opened' : List (Char × Nat)}
        (hopened' : ∀ entry ∈ opened', Text.Boundary text entry.2) :
        Places text (LaidFrom start)
          (splitFrom chain (offset + c.utf8Size) opened' start (c :: current) rest) := by
      refine ih hleft.next hstart ?_ hopened'
      rw [Text.byteLength]
      omega
    have hstep := splitFrom_step chain offset opened start current (c :: rest)
    generalize splitFrom chain offset opened start current (c :: rest) = result at hstep ⊢
    cases hstep with
    | opening => exact hkeep (List.forall_mem_cons.mpr ⟨hleft.boundary, hopened⟩)
    | closing hinnermost =>
      rw [hinnermost] at hopened
      exact hkeep (List.forall_mem_cons.mp hopened).2
    | plain => exact hkeep hopened
    | misplaced | empty => exact places_error rfl (Span.pointsInto_byte hleft.boundary)
    | separator _ hbegun =>
      refine (ih hleft.next hleft.next.boundary rfl fun entry hentry =>
        absurd hentry List.not_mem_nil).bind fun segments hlaid => ?_
      refine ⟨rfl, by simpa using hbegun, ?_⟩
      have hstop : (Segment.mk start current.reverse).span.stop + 1 = offset + '.'.utf8Size := by
        rw [Segment.span, Text.byteLength_reverse, hcurrent]
        rfl
      rw [hstop]
      exact hlaid

/-- A segment stands in the text at its span. -/
def Placed (text : List Char) (s : Segment) : Prop :=
  ∃ before after, text = before ++ (s.text ++ after) ∧ Text.byteLength before = s.start

theorem LaidFrom.placed {segments : List Segment} {before : List Char}
    (h : LaidFrom (Text.byteLength before) segments)
    (htext : text = before ++ List.intercalate ['.'] (segments.map Segment.text)) :
    ∀ s ∈ segments, Placed text s := by
  induction segments generalizing before with
  | nil => exact fun s hs => absurd hs List.not_mem_nil
  | cons s rest ih =>
    obtain ⟨hstart, -, hrest⟩ := h
    cases rest with
    | nil =>
      intro t ht
      rw [List.mem_singleton.mp ht]
      exact ⟨before, [], by simpa using htext, hstart.symm⟩
    | cons second others =>
      rw [List.map_cons, List.map_cons, List.intercalate_cons_cons, List.append_assoc] at htext
      intro t ht
      rcases List.mem_cons.mp ht with rfl | ht
      · exact ⟨before, _, htext, hstart.symm⟩
      · have hlength : s.span.stop + 1 = Text.byteLength (before ++ (s.text ++ ['.'])) := by
          rw [Text.byteLength_append, Text.byteLength_append, Segment.span, hstart, Nat.add_assoc]
          rfl
        rw [hlength] at hrest
        exact ih hrest (by simpa using htext) t ht

/-- The last segment ends where the text ends. -/
theorem LaidFrom.last {segments : List Segment} {offset : Nat} (h : LaidFrom offset segments)
    {last : Segment} (hlast : segments.getLast? = some last) :
    last.span.stop
      = offset + Text.byteLength (List.intercalate ['.'] (segments.map Segment.text)) := by
  induction segments generalizing offset with
  | nil => cases hlast
  | cons s rest ih =>
    obtain ⟨rfl, -, hrest⟩ := h
    cases rest with
    | nil =>
      obtain rfl := Option.some.inj hlast
      simp [Segment.span]
    | cons second others =>
      rw [List.getLast?_cons_cons] at hlast
      rw [ih hrest hlast, List.map_cons, List.map_cons, List.map_cons, List.intercalate_cons_cons,
        Text.byteLength_append, Text.byteLength_append, Segment.span]
      show s.start + Text.byteLength s.text + 1 + _ = s.start + (Text.byteLength s.text + 1 + _)
      omega

/-! ## Parts -/

/-- The spans that parts remember are places in a text. -/
structure Parts.PointInto (parts : Parts) (text : List Char) : Prop where
  bracket : ∀ body span, parts.bracket = some (body, span) → span.PointsInto text
  marker : ∀ side span, parts.marker = some (side, span) → span.PointsInto text

variable {segment : Segment} {parts : Parts}

theorem pointInto_empty : Parts.PointInto {} text :=
  ⟨nofun, nofun⟩

theorem places_add {span : Span} (hspan : span.PointsInto text) (hparts : parts.PointInto text)
    (opener : Char) (body : List Char) :
    Places text (Parts.PointInto · text) (parts.add chain segment opener body span) := by
  unfold Parts.add
  simp only
  split
  next =>
    split
    next => exact places_error rfl hspan
    next =>
      split
      next => exact places_error rfl hspan
      next => exact ⟨hparts.bracket, hparts.marker⟩
  next =>
    split
    next =>
      split
      next => exact places_error rfl hspan
      next =>
        split
        next => exact places_error rfl hspan
        next =>
          refine ⟨fun body' span' heq => ?_, hparts.marker⟩
          obtain ⟨-, rfl⟩ := Prod.mk.inj (Option.some.inj heq)
          exact hspan
    next =>
      split
      next => exact places_error rfl hspan
      next =>
        split
        next => exact places_error rfl hspan
        next =>
          refine ⟨hparts.bracket, fun side' span' heq => ?_⟩
          obtain ⟨-, rfl⟩ := Prod.mk.inj (Option.some.inj heq)
          exact hspan

theorem places_scanParts (hsegment : segment.span.PointsInto text) {cs after : List Char}
    {offset : Nat} {pending : Option Pending} (hleft : LeftAt text offset (cs ++ after))
    (hpending : ∀ p, pending = some p → Text.Boundary text p.start ∧ p.start < offset)
    (hparts : parts.PointInto text) :
    Places text (Parts.PointInto · text) (scanParts chain segment offset pending parts cs) := by
  induction cs generalizing offset pending parts with
  | nil =>
    unfold scanParts
    cases pending with
    | some p => exact places_error rfl (Span.pointsInto_byte (hpending p rfl).1)
    | none => exact hparts
  | cons c rest ih =>
    have hnext : LeftAt text (offset + c.utf8Size) (rest ++ after) := hleft.next
    have hpos : 0 < c.utf8Size := c.utf8Size_pos
    unfold scanParts
    simp only
    cases pending with
    | some p =>
      obtain ⟨hstart, hlt⟩ := hpending p rfl
      simp only
      split
      next =>
        have hspan : Span.PointsInto ⟨p.start, offset + c.utf8Size⟩ text :=
          ⟨hstart, Nat.lt_add_right _ hlt, Nat.le_succ_of_le hnext.boundary.le⟩
        exact (places_add hspan hparts _ _).bind fun parts hparts =>
          ih hnext (fun p' hp' => by cases hp') hparts
      next =>
        refine ih hnext (fun p' hp' => ?_) hparts
        obtain rfl := Option.some.inj hp'
        exact ⟨hstart, Nat.lt_add_right _ hlt⟩
    | none =>
      simp only
      split
      next =>
        refine ih hnext (fun p' hp' => ?_) hparts
        obtain rfl := Option.some.inj hp'
        exact ⟨hleft.boundary, Nat.lt_add_of_pos_right hpos⟩
      next =>
        split
        next => exact places_error rfl (Span.pointsInto_byte hleft.boundary)
        next => exact places_error rfl hsegment

theorem places_shapeOfBody {span : Span} (hspan : span.PointsInto text) (body : List Char)
    (side : Option MapSide) :
    Places text (fun _ => True) (shapeOfBody chain body span side) := by
  unfold shapeOfBody
  simp only
  split
  next =>
    split
    next => exact places_error rfl hspan
    next =>
      split
      next => trivial
      next =>
        split
        next => trivial
        next => exact places_error rfl hspan
  next =>
    split
    next => trivial
    next =>
      split
      next => trivial
      next =>
        split
        next => trivial
        next => exact places_error rfl hspan

theorem places_shape (h : parts.PointInto text) :
    Places text (fun _ => True) (parts.shape chain) := by
  unfold Parts.shape
  simp only
  cases hmarker : parts.marker with
  | none =>
    cases hbracket : parts.bracket with
    | none => trivial
    | some bracket =>
      exact (places_shapeOfBody (h.bracket _ _ hbracket) _ _).bind fun _ _ => trivial
  | some marked =>
    have hends (shape : Shape) : Places text (fun _ => True)
        (if shape.isCollection then
          .error (.misplacedMarker chain marked.1.marker .markerOnCollection marked.2)
        else .ok shape : Except SyntaxError Shape) := by
      split
      next => exact places_error rfl (h.marker _ _ hmarker)
      next => trivial
    cases hbracket : parts.bracket with
    | none => exact hends (.map (some marked.1) none)
    | some bracket =>
      exact (places_shapeOfBody (h.bracket _ _ hbracket) _ _).bind fun shape _ => hends shape

/-! ## Segments read -/

theorem Placed.pointsInto (h : Placed text segment) (hne : segment.text ≠ []) :
    segment.span.PointsInto text := by
  obtain ⟨before, after, rfl, hstart⟩ := h
  have hpos := byteLength_pos hne
  refine ⟨⟨before, _, rfl, hstart⟩, ?_, ?_⟩
  · show segment.start < segment.start + _
    omega
  · show segment.start + _ ≤ _
    rw [Text.byteLength_append, Text.byteLength_append]
    omega

theorem places_namelessError {post : Token → Prop} (h : Placed text segment)
    (hne : segment.text ≠ []) :
    Places text post (.error (namelessError chain segment)) := by
  have hsegment := h.pointsInto hne
  unfold namelessError
  simp only
  split
  next => exact places_error rfl (Span.pointsInto_byte hsegment.start)
  next =>
    split
    next => exact places_error rfl (Span.pointsInto_byte hsegment.start)
    next => exact places_error rfl hsegment

/-- A token has the text of a segment and stands at its span. -/
def ReadAt (token : Token) (s : Segment) : Prop :=
  token.raw = String.ofList s.text ∧ token.span = s.span

theorem places_parseSegment (h : Placed text segment) (hne : segment.text ≠ []) (index : Nat) :
    Places text (ReadAt · segment) (parseSegment chain index segment) := by
  have hsegment := h.pointsInto hne
  have hnameless := @places_namelessError chain text segment (ReadAt · segment) h hne
  obtain ⟨before, after, htext, hstart⟩ := h
  have hleft : LeftAt text (segment.start + (segment.text.takeWhile isNameChar).length)
      (segment.text.dropWhile isNameChar ++ after) := by
    refine ⟨before ++ segment.text.takeWhile isNameChar, ?_, ?_⟩
    · rw [List.append_assoc, ← List.append_assoc _ _ after, List.takeWhile_append_dropWhile]
      exact htext
    · rw [Text.byteLength_append, hstart,
        byteLength_of_isNameChar fun c hc => List.all_eq_true.mp List.all_takeWhile c hc]
  unfold parseSegment
  simp only [throw, throwThe, MonadExceptOf.throw]
  split
  next => exact hnameless
  next =>
    split
    next => exact places_error rfl hsegment
    next =>
      refine (places_scanParts hsegment hleft (fun p hp => by cases hp) pointInto_empty).bind
        fun parts hparts => ?_
      exact (places_shape hparts).bind fun shape _ => ⟨rfl, rfl⟩

/-! ## All segments -/

theorem places_parseSegments {segments : List Segment} (h : ∀ s ∈ segments, Placed text s)
    (hne : ∀ s ∈ segments, s.text ≠ []) (index : Nat) :
    Places text (List.Forall₂ ReadAt · segments) (parseSegments chain index segments) := by
  induction segments generalizing index with
  | nil => exact .nil
  | cons s rest ih =>
    unfold parseSegments
    refine (places_parseSegment (h s List.mem_cons_self) (hne s List.mem_cons_self) index).bind
      fun token htoken => ?_
    refine (ih (fun t ht => h t (List.mem_cons_of_mem _ ht))
      (fun t ht => hne t (List.mem_cons_of_mem _ ht)) (index + 1)).bind fun tokens htokens => ?_
    exact .cons htoken htokens

theorem LaidFrom.nonempty {segments : List Segment} {offset : Nat} (h : LaidFrom offset segments) :
    ∀ s ∈ segments, s.text ≠ [] := by
  induction segments generalizing offset with
  | nil => exact fun s hs => absurd hs List.not_mem_nil
  | cons s rest ih => exact List.forall_mem_cons.mpr ⟨h.2.1, ih h.2.2⟩

/-- Segments that lie in a text from its beginning, and fill it. -/
structure Fills (segments : List Segment) (text : List Char) : Prop where
  laid : LaidFrom 0 segments
  joined : text = List.intercalate ['.'] (segments.map Segment.text)

theorem Fills.placed {segments : List Segment} (h : Fills segments text) :
    ∀ s ∈ segments, Placed text s :=
  @LaidFrom.placed text segments [] h.laid h.joined

theorem places_splitSegments (text : String) :
    Places text.toList (Fills · text.toList) (splitSegments text) := by
  have hsplit := (@places_splitFrom text text.toList text.toList 0 0 [] [] ⟨[], rfl, rfl⟩
    Text.boundary_zero rfl fun entry hentry => absurd hentry List.not_mem_nil).and_eq
  exact hsplit.mono fun segments ⟨hsegments, hlaid⟩ =>
    ⟨hlaid, (pieces_of_splitFrom hsegments rfl).1⟩

theorem places_parse (text : String) :
    Places text.toList (fun c => ∃ segments, Fills segments text.toList
      ∧ List.Forall₂ ReadAt c.tokens segments) (parse text) := by
  unfold parse
  simp only [throw, throwThe, MonadExceptOf.throw]
  split
  next => exact fun span hspan => by cases hspan
  next =>
    split
    next => exact places_error rfl (Span.pointsInto_byte Text.boundary_zero)
    next =>
      refine (places_splitSegments text).bind fun segments hfills => ?_
      split
      next => exact fun span hspan => by cases hspan
      next =>
        exact (places_parseSegments hfills.placed hfills.laid.nonempty 0).bind
          fun tokens htokens => ⟨segments, hfills, htokens⟩

/-! ## Tokens in their text -/

/-- Nothing of a text is lost in tokens, and their spans say where they stand in it. -/
structure Lossless (text : String) (tokens : List Token) : Prop where
  nonempty : tokens ≠ []
  joined : Text.join "." (tokens.map (·.raw)) = text
  numbered : ∀ (i : Nat) (token : Token), tokens[i]? = some token → token.index = i
  first : ∀ token, tokens.head? = some token → token.span.start = 0
  adjacent : ∀ (i : Nat) (token next : Token), tokens[i]? = some token →
    tokens[i + 1]? = some next → next.span.start = token.span.stop + 1
  last : ∀ token, tokens.getLast? = some token → token.span.stop = text.utf8ByteSize
  boundaries : ∀ token ∈ tokens, (⟨token.span.start⟩ : String.Pos.Raw).IsValid text
    ∧ (⟨token.span.stop⟩ : String.Pos.Raw).IsValid text
  sliced : ∀ token ∈ tokens, token.span.slice text = some token.raw

theorem Placed.boundaries {segment : Segment} (h : Placed text segment) :
    Text.Boundary text segment.span.start ∧ Text.Boundary text segment.span.stop := by
  obtain ⟨before, after, rfl, hstart⟩ := h
  refine ⟨⟨before, _, rfl, hstart⟩, ⟨before ++ segment.text, after, by simp, ?_⟩⟩
  rw [Text.byteLength_append, hstart]
  rfl

theorem Placed.slice {text : String} {segment : Segment} (h : Placed text.toList segment) :
    segment.span.slice text = some (String.ofList segment.text) := by
  obtain ⟨before, after, htext, hstart⟩ := h
  rw [Span.slice, htext, Segment.span, ← hstart, Text.sliceBytes_append]
  rfl

theorem LaidFrom.adjacent {segments : List Segment} {offset : Nat} (h : LaidFrom offset segments)
    {i : Nat} {s next : Segment} (hs : segments[i]? = some s)
    (hnext : segments[i + 1]? = some next) : next.span.start = s.span.stop + 1 := by
  induction segments generalizing offset i with
  | nil => cases hs
  | cons first rest ih =>
    cases i with
    | zero =>
      obtain rfl := Option.some.inj hs
      cases rest with
      | nil => cases hnext
      | cons second others =>
        obtain rfl := Option.some.inj hnext
        exact h.2.2.1
    | succ i => exact ih h.2.2 hs hnext

theorem LaidFrom.first {segments : List Segment} {offset : Nat} (h : LaidFrom offset segments)
    {first : Segment} (hfirst : segments.head? = some first) : first.span.start = offset := by
  cases segments with
  | nil => cases hfirst
  | cons s rest =>
    obtain rfl := Option.some.inj hfirst
    exact h.1

/-- What holds of a token holds at the same place of the segments. -/
theorem readAt_getElem? {tokens : List Token} {segments : List Segment}
    (h : List.Forall₂ ReadAt tokens segments) {i : Nat} {token : Token}
    (htoken : tokens[i]? = some token) : ∃ s, segments[i]? = some s ∧ ReadAt token s := by
  induction h generalizing i with
  | nil => cases htoken
  | @cons first s rest others hread _ ih =>
    cases i with
    | zero =>
      obtain rfl := Option.some.inj htoken
      exact ⟨s, rfl, hread⟩
    | succ i => exact ih htoken

theorem raws_of_readAt {tokens : List Token} {segments : List Segment}
    (h : List.Forall₂ ReadAt tokens segments) :
    tokens.map (String.toList ∘ Token.raw) = segments.map Segment.text := by
  induction h with
  | nil => rfl
  | @cons token s rest others hread _ ih =>
    rw [List.map_cons, List.map_cons, ih, Function.comp_apply, hread.1, String.toList_ofList]

theorem lossless_of_fills {text : String} {c : Chain} (hproper : c.Proper)
    {segments : List Segment} (hfills : Fills segments text.toList)
    (hread : List.Forall₂ ReadAt c.tokens segments) : Lossless text c.tokens := by
  have hlength : c.tokens.length = segments.length := hread.length_eq
  have hmem {token : Token} (htoken : token ∈ c.tokens) : ∃ s ∈ segments, ReadAt token s := by
    obtain ⟨i, hi⟩ := List.mem_iff_getElem?.mp htoken
    obtain ⟨s, hs, hat⟩ := readAt_getElem? hread hi
    exact ⟨s, List.mem_of_getElem? hs, hat⟩
  refine ⟨hproper.nonempty, ?_, ?_, ?_, ?_, ?_, ?_, ?_⟩
  · rw [← String.toList_inj, Text.join, String.toList_intercalate, hfills.joined, List.map_map,
      ← raws_of_readAt hread]
    rfl
  · intro i token htoken
    obtain ⟨hi, rfl⟩ := List.getElem?_eq_some_iff.mp htoken
    rw [hproper.numbered.index_eq hi, Nat.zero_add]
  · intro token htoken
    rw [List.head?_eq_getElem?] at htoken
    obtain ⟨s, hs, hat⟩ := readAt_getElem? hread htoken
    rw [hat.2]
    exact hfills.laid.first (by rw [List.head?_eq_getElem?, hs])
  · intro i token next htoken hnext
    obtain ⟨s, hs, hat⟩ := readAt_getElem? hread htoken
    obtain ⟨s', hs', hat'⟩ := readAt_getElem? hread hnext
    rw [hat.2, hat'.2]
    exact hfills.laid.adjacent hs hs'
  · intro token htoken
    rw [List.getLast?_eq_getElem?, hlength] at htoken
    obtain ⟨s, hs, hat⟩ := readAt_getElem? hread htoken
    rw [hat.2, hfills.laid.last (by rw [List.getLast?_eq_getElem?, hs]), ← hfills.joined,
      Nat.zero_add, ← Text.utf8ByteSize_ofList, String.ofList_toList]
  · intro token htoken
    obtain ⟨s, hs, hat⟩ := hmem htoken
    obtain ⟨hstart, hstop⟩ := (hfills.placed s hs).boundaries
    rw [hat.2]
    exact ⟨hstart.isValid, hstop.isValid⟩
  · intro token htoken
    obtain ⟨s, hs, hat⟩ := hmem htoken
    rw [hat.1, hat.2]
    exact (hfills.placed s hs).slice

/-- Reading a chain loses nothing of its text, and its spans are exact: the tokens of a chain stand
in the text one after the other, each at its span, and an error that has a span points into the text
or at its end. -/
theorem parse_spans_exact (text : String) :
    (∀ c, parse text = .ok c → Lossless text c.tokens)
      ∧ ∀ e span, parse text = .error e → e.span? = some span →
        span.start < span.stop ∧ (⟨span.start⟩ : String.Pos.Raw).IsValid text
          ∧ span.stop ≤ text.utf8ByteSize + 1 := by
  have hplaces := places_parse text
  constructor
  · intro c h
    rw [h] at hplaces
    obtain ⟨segments, hfills, hread⟩ := hplaces
    exact lossless_of_fills (proper_of_parse h).2 hfills hread
  · intro e span h hspan
    rw [h] at hplaces
    obtain ⟨hstart, hlt, hstop⟩ := hplaces span hspan
    rw [← Text.utf8ByteSize_ofList, String.ofList_toList] at hstop
    exact ⟨hlt, hstart.isValid, hstop⟩

example : (parse "weight(Maß).unit").toOption.map (fun c => c.tokens.map Token.span)
    = some [⟨0, 12⟩, ⟨13, 17⟩] := by
  decide +kernel

end Chain
end ChainMapping
