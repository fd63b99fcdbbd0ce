import Mathlib.Data.List.Forall2
import ChainMapping.Proofs.Chain.Grammar

/-!
# Tokens and the forms they are read from

Reading a segment gives a token that says what its form says: the text, the name, the hint without
the blanks around it, and the shape that the bracket and the marker ask for.  So a chain that is
written as forms has one token for each of them, and a shape takes as many bytes in its form as its
suffix has, or more.
-/

namespace ChainMapping
namespace Chain

variable {chain : String} {segment : Segment} {parts : Parts} {token : Token} {f : Form}

/-- A token that says what a form says. -/
structure ReadFrom (chain : String) (token : Token) (f : Form) : Prop where
  valid : f.Valid
  raw : token.raw = String.ofList f.written
  name : token.name = String.ofList f.name
  hint : token.hint = f.hint.map fun hint => String.ofList (Text.trim hint)
  shape : ∃ parts : Parts, parts.Holds f ∧ parts.shape chain = .ok token.shape

theorem ReadFrom.toList_raw (h : ReadFrom chain token f) : token.raw.toList = f.written := by
  rw [h.raw, String.toList_ofList]

theorem ReadFrom.toList_name (h : ReadFrom chain token f) : token.name.toList = f.name := by
  rw [h.name, String.toList_ofList]

theorem parts_of_parseSegment {index : Nat}
    (h : parseSegment chain index segment = .ok token) :
    token.raw = String.ofList segment.text
      ∧ token.name = String.ofList (segment.text.takeWhile isNameChar)
      ∧ ∃ parts, scanParts chain segment
          (segment.start + (segment.text.takeWhile isNameChar).length) none {}
          (segment.text.dropWhile isNameChar) = .ok parts
        ∧ parts.shape chain = .ok token.shape ∧ token.hint = parts.hint := by
  obtain ⟨-, -, parts, shape, hparts, hshape, rfl⟩ := parseSegment_eq_ok_iff.mp h
  exact ⟨rfl, rfl, parts, hparts, hshape, rfl⟩

/-- A segment that is written as a valid form reads as a token of this form. -/
theorem readFrom_of_parseSegment {index : Nat} (h : parseSegment chain index segment = .ok token)
    (hvalid : f.Valid) (hwritten : segment.text = f.written) : ReadFrom chain token f := by
  obtain ⟨hraw, hname, parts, hparts, hshape, hhint⟩ := parts_of_parseSegment h
  obtain ⟨htake, hdrop⟩ := name_of_written hvalid.name
  rw [hwritten, hdrop] at hparts
  obtain ⟨parts', hparts', hholds⟩ := @Form.Valid.reads chain segment f hvalid
    (segment.start + (f.written.takeWhile isNameChar).length)
  rw [hparts] at hparts'
  obtain rfl := Except.ok.inj hparts'
  exact ⟨hvalid, by rw [hraw, hwritten], by rw [hname, hwritten, htake],
    hhint.trans hholds.hint, parts, hholds, hshape⟩

theorem readFrom_of_parseSegments {segments : List Segment} {index : Nat} {tokens : List Token}
    {forms : List Form} (h : parseSegments chain index segments = .ok tokens)
    (hvalid : ∀ f ∈ forms, f.Valid) (htexts : segments.map Segment.text = forms.map Form.written) :
    List.Forall₂ (ReadFrom chain) tokens forms := by
  induction segments generalizing index tokens forms with
  | nil =>
    obtain rfl : forms = [] := List.map_eq_nil_iff.mp htexts.symm
    obtain rfl := Except.ok.inj h
    exact .nil
  | cons segment rest ih =>
    cases forms with
    | nil => cases htexts
    | cons f others =>
      simp only [List.map_cons, List.cons.injEq] at htexts
      obtain ⟨token, htoken, hafter⟩ := bind_eq_ok h
      obtain ⟨more, hmore, hok⟩ := bind_eq_ok hafter
      obtain rfl := Except.ok.inj hok
      exact .cons (readFrom_of_parseSegment htoken (hvalid f List.mem_cons_self) htexts.1)
        (ih hmore (fun g hg => hvalid g (List.mem_cons_of_mem _ hg)) htexts.2)

theorem segments_of_parse {text : String} {c : Chain} (h : parse text = .ok c) :
    ∃ segments, splitSegments text = .ok segments
      ∧ parseSegments text 0 segments = .ok c.tokens := by
  obtain ⟨-, -, segments, tokens, hsegments, -, htokens, rfl⟩ := parse_eq_ok_iff.mp h
  exact ⟨segments, hsegments, htokens⟩

/-- A chain that is written as forms has one token for each of them. -/
theorem readFrom_of_parse {text : String} {c : Chain} (h : parse text = .ok c) {forms : List Form}
    (hne : forms ≠ []) (hvalid : ∀ f ∈ forms, f.Valid)
    (htext : text.toList = List.intercalate ['.'] (forms.map Form.written)) :
    List.Forall₂ (ReadFrom text) c.tokens forms := by
  obtain ⟨segments, hsplit, hread⟩ := segments_of_parse h
  obtain ⟨segments', hsplit', htexts⟩ := @splitFrom_forms text forms hne hvalid 0
  rw [← htext] at hsplit'
  have hsame : segments = segments' := Except.ok.inj (hsplit.symm.trans hsplit')
  exact readFrom_of_parseSegments hread hvalid (hsame ▸ htexts)

/-! ## Shapes -/

/-- The inside of a bracket has no square brackets. -/
theorem Form.Valid.noSquare (h : f.Valid) {body : List Char} (hbody : f.bracket = some body) :
    '[' ∉ body ∧ ']' ∉ body := by
  rcases h.bracket body hbody with ⟨hcollection, -⟩ | hmap
  · exact ⟨hcollection.notMem (by decide) (by decide) (by decide),
      hcollection.notMem (by decide) (by decide) (by decide)⟩
  · exact hmap.noSquare

/-- What the bracket and the marker of a form ask for, as far as a shape shows it in its suffix. -/
inductive Asks (f : Form) : Shape → Prop where
  | plain (noBracket : f.bracket = none) (noMarker : f.marker = none) : Asks f .plain
  | side {side : MapSide} (noBracket : f.bracket = none) (marker : f.marker = some side) :
      Asks f (.map (some side) none)
  | elements {body : List Char} {index : Option Nat} {anchor : Option Anchor}
      (bracket : f.bracket = some body) (noMarker : f.marker = none)
      (mark : IsCollectionBody body) : Asks f (.collection index anchor)
  | entries {body left right : List Char} {anchor : Option Anchor}
      (bracket : f.bracket = some body) (pair : IsPair body left right) :
      Asks f (.map f.marker anchor)

theorem asks_of_body {shape : Shape} {body : List Char} {span : Span}
    (hbracket : f.bracket = some body)
    (hasked : IsCollectionBody body ∧ f.marker = none ∨ ∃ left right, IsPair body left right)
    (hfound : shapeOfBody chain (Text.trim body) span f.marker = .ok shape) : Asks f shape := by
  cases hsplit : Text.splitOnce ',' (Text.trim body) with
  | none =>
    -- Without a comma the body asks for elements, and then there is no marker.
    have hmark : IsCollectionBody body ∧ f.marker = none := by
      refine hasked.resolve_right fun hpair => ?_
      obtain ⟨left, right, hpair⟩ := exists_isPair_trim.mpr hpair
      exact Text.splitOnce_eq_none_iff.mp hsplit
        (hpair.written ▸ List.mem_append_right _ List.mem_cons_self)
    obtain ⟨index, anchor, hok⟩ := (shapeOfBody_mark hsplit chain span f.marker).mp hmark.1
    obtain rfl := Except.ok.inj (hfound.symm.trans hok)
    exact .elements hbracket hmark.2 hmark.1
  | some sides =>
    have hpair : ∃ left right, IsPair body left right := by
      refine hasked.resolve_left fun hmark => ?_
      have hnone := Text.splitOnce_eq_none_iff.mpr (comma_notMem_of_mark hmark.1)
      rw [hnone] at hsplit
      cases hsplit
    obtain ⟨left, right, htrimmed⟩ := exists_isPair_trim.mpr hpair
    have hsides := Text.splitOnce_eq_some_iff.mpr ⟨htrimmed.written, htrimmed.comma.1⟩
    obtain ⟨anchor, hok⟩ := (shapeOfBody_pair hsides chain span f.marker).mp htrimmed
    obtain rfl := Except.ok.inj (hfound.symm.trans hok)
    obtain ⟨left, right, hpair⟩ := hpair
    exact .entries hbracket hpair

/-- The shape of parts without a bracket is known from the marker.  Otherwise the bracket
decides. -/
theorem shape_cases {shape : Shape} (h : parts.shape chain = .ok shape) :
    (parts.bracket = none ∧ shape = match parts.marker.map Prod.fst with
        | none => .plain
        | some side => .map (some side) none)
      ∨ ∃ body span, parts.bracket = some (body, span)
        ∧ shapeOfBody chain (Text.trim body) span (parts.marker.map Prod.fst) = .ok shape := by
  unfold Parts.shape at h
  cases hparts : parts.bracket with
  | none =>
    refine .inl ⟨rfl, ?_⟩
    cases hmarked : parts.marker with
    | none =>
      simp only [hparts, hmarked] at h
      exact (Except.ok.inj h).symm
    | some marked =>
      simp only [hparts, hmarked] at h
      exact (Except.ok.inj h).symm
  | some bracket =>
    obtain ⟨body, span⟩ := bracket
    simp only [hparts] at h
    obtain ⟨found, hfound, hrest⟩ := bind_eq_ok h
    have hsame : found = shape := by
      cases hmarked : parts.marker with
      | none =>
        rw [hmarked] at hrest
        exact Except.ok.inj hrest
      | some marked =>
        simp only [hmarked] at hrest
        split at hrest
        · cases hrest
        · exact Except.ok.inj hrest
    exact .inr ⟨body, span, rfl, hsame ▸ hfound⟩

theorem asks_of_shape (h : parts.Holds f) {shape : Shape} (hshape : parts.shape chain = .ok shape) :
    Asks f shape := by
  have hasked := (shape_ok_iff h).mp ⟨shape, hshape⟩
  have hbracket := h.bracket
  rcases shape_cases hshape with ⟨hnone, rfl⟩ | ⟨body, span, hsome, hfound⟩
  · rw [hnone] at hbracket
    rw [h.marker]
    cases hmarker : f.marker with
    | none => exact .plain hbracket.symm hmarker
    | some side => exact .side hbracket.symm hmarker
  · rw [hsome] at hbracket
    rw [h.marker] at hfound
    exact asks_of_body hbracket.symm (hasked body hbracket.symm) hfound

theorem ReadFrom.asks (h : ReadFrom chain token f) : Asks f token.shape := by
  obtain ⟨parts, hholds, hshape⟩ := h.shape
  exact asks_of_shape hholds hshape

end Chain
end ChainMapping
