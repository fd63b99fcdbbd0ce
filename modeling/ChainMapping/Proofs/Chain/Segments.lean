import ChainMapping.Proofs.Chain.Form
import ChainMapping.Proofs.Chain.Reading
import ChainMapping.Proofs.Text.Characters
import ChainMapping.Proofs.Text.Separator

/-!
# Reading segments

A segment is accepted exactly if it is written as a valid form, once its brackets are known to nest.
The inside of a square bracket is looked at without the blanks at its ends, so the two sides of a
map body are first told apart from the blanks around them.
-/

namespace ChainMapping
namespace Chain

variable {chain : String} {segment : Segment} {parts : Parts} {f : Form} {body : List Char}

theorem isAnchor_iff {text : List Char} :
    (∃ anchor, Anchor.ofBody? (String.ofList text) = some anchor) ↔ IsAnchor text := by
  have hbody (anchor : Anchor) : String.ofList text = anchor.body ↔ text = anchor.body.toList := by
    rw [← String.toList_inj, String.toList_ofList]
  unfold Anchor.ofBody? IsAnchor
  simp only [hbody]
  constructor
  · rintro ⟨anchor, h⟩
    split at h
    · next hplain => exact .inl hplain
    · split at h
      · next hpre => exact .inr (.inl hpre)
      · split at h
        · next hpost => exact .inr (.inr hpost)
        · simp at h
  · rintro (rfl | rfl | rfl)
    · exact ⟨.plain, rfl⟩
    · exact ⟨.pre, rfl⟩
    · exact ⟨.post, rfl⟩

/-- Blanks around a body make no difference to its two sides. -/
theorem isPair_blanks {before after text left right : List Char}
    (hbefore : Text.isAllBlank before = true) (hafter : Text.isAllBlank after = true)
    (htext : text = left ++ ',' :: right) :
    IsPair (before ++ (text ++ after)) (before ++ left) (right ++ after)
      ↔ IsPair text left right := by
  have hmem {c : Char} (hc : Text.isBlank c = false) {blanks : List Char}
      (h : Text.isAllBlank blanks = true) : c ∉ blanks := fun hin => by
    rw [List.all_eq_true.mp h c hin] at hc
    exact absurd hc (by simp)
  have hcomma : Text.isBlank ',' = false := by decide
  have hsign : Text.isBlank '^' = false := by decide
  have hleftBlank : Text.isAllBlank (before ++ left) = Text.isAllBlank left := by
    rw [Text.isAllBlank_append, hbefore, Bool.true_and]
  have hrightBlank : Text.isAllBlank (right ++ after) = Text.isAllBlank right := by
    rw [Text.isAllBlank_append, hafter, Bool.and_true]
  constructor
  · rintro ⟨-, comma, notBlank, leftAnchor, rightAnchor⟩
    rw [hleftBlank, hrightBlank] at notBlank
    rw [Text.trim_blank_append hbefore] at leftAnchor
    rw [Text.trim_append_blank hafter] at rightAnchor
    simp only [List.mem_append, hmem hcomma hbefore, hmem hcomma hafter, hmem hsign hbefore,
      hmem hsign hafter, false_or, or_false] at comma leftAnchor rightAnchor
    exact ⟨htext, comma, notBlank, leftAnchor, rightAnchor⟩
  · rintro ⟨-, comma, notBlank, leftAnchor, rightAnchor⟩
    refine ⟨by simp [htext], ?_, by rw [hleftBlank, hrightBlank]; exact notBlank, ?_, ?_⟩
    · simpa only [List.mem_append, hmem hcomma hbefore, hmem hcomma hafter, false_or, or_false]
        using comma
    · simpa only [List.mem_append, hmem hsign hbefore, false_or, Text.trim_blank_append hbefore]
        using leftAnchor
    · simpa only [List.mem_append, hmem hsign hbefore, hmem hsign hafter, false_or, or_false,
        Text.trim_append_blank hafter] using rightAnchor

theorem exists_isPair_trim :
    (∃ left right, IsPair (Text.trim body) left right) ↔ ∃ left right, IsPair body left right := by
  obtain ⟨before, after, hbefore, hafter, hbody⟩ := Text.exists_trim body
  constructor
  · rintro ⟨left, right, hpair⟩
    refine ⟨before ++ left, right ++ after, ?_⟩
    rw [hbody]
    exact (isPair_blanks hbefore hafter hpair.written).mpr hpair
  · rintro ⟨left, right, hpair⟩
    have hmem : ',' ∈ Text.trim body := by
      rw [Text.mem_trim_iff (by decide), hpair.written]
      exact List.mem_append_right _ List.mem_cons_self
    obtain ⟨first, second, htrim, hfirst⟩ := List.eq_append_cons_of_mem hmem
    have hcomma : ',' ∉ before := fun hin => by
      have := List.all_eq_true.mp hbefore _ hin
      exact absurd this (by decide)
    -- The body has one comma, so its sides are those of the trimmed body with the blanks.
    have hsides : before ++ first = left ∧ second ++ after = right := by
      refine Text.append_mark_inj_left (by simp [hcomma, hfirst]) hpair.comma.1 ?_
      rw [← hpair.written, hbody, htrim]
      simp
    refine ⟨first, second, (isPair_blanks hbefore hafter htrim).mp ?_⟩
    rw [← hbody, hsides.1, hsides.2]
    exact hpair

theorem comma_notMem_of_mark (h : IsElementMark body) : ',' ∉ body := by
  rcases h with rfl | ⟨-, hdigits⟩ | rfl | rfl | rfl
  · decide
  · intro hmem
    exact absurd (hdigits _ hmem) (by decide)
  all_goals decide

/-- A body with a comma asks for entries. -/
theorem shapeOfBody_pair {left right : List Char} (h : Text.splitOnce ',' body = some (left, right))
    (chain : String) (span : Span) (side : Option MapSide) :
    IsPair body left right
      ↔ ∃ anchor, shapeOfBody chain body span side = .ok (.map side anchor) := by
  obtain ⟨hwritten, hleft⟩ := Text.splitOnce_eq_some_iff.mp h
  unfold shapeOfBody
  simp only [h]
  split
  · next hfault =>
    simp only [Bool.or_eq_true, List.contains_iff_mem] at hfault
    refine ⟨fun hpair => ?_, fun ⟨anchor, hok⟩ => by simp at hok⟩
    have hblank := hpair.notBlank
    rcases hfault with (hblankLeft | hblankRight) | hmore
    · rw [hblankLeft] at hblank; simp at hblank
    · rw [hblankRight] at hblank; simp at hblank
    · exact absurd hmore hpair.comma.2
  · next hsound =>
    simp only [Bool.or_eq_true, List.contains_iff_mem, not_or, Bool.not_eq_true] at hsound
    obtain ⟨⟨hblankLeft, hblankRight⟩, hmore⟩ := hsound
    have hpair (hl : '^' ∈ left → IsAnchor (Text.trim left))
        (hr : '^' ∉ left → '^' ∈ right → IsAnchor (Text.trim right)) : IsPair body left right :=
      ⟨hwritten, ⟨hleft, hmore⟩, ⟨hblankLeft, hblankRight⟩, hl, hr⟩
    -- The first side with an anchor sign decides.
    have hdecides : ([left, right].find? (·.contains '^') = none ∧ IsPair body left right)
        ∨ ∃ part, [left, right].find? (·.contains '^') = some part
          ∧ (IsPair body left right ↔ IsAnchor (Text.trim part)) := by
      by_cases hl : '^' ∈ left
      · refine .inr ⟨left, by simp [hl], fun h => h.leftAnchor hl, fun h => ?_⟩
        exact hpair (fun _ => h) fun hnot => absurd hl hnot
      · by_cases hr : '^' ∈ right
        · refine .inr ⟨right, by simp [hl, hr], fun h => h.rightAnchor hl hr, fun h => ?_⟩
          exact hpair (fun hin => absurd hin hl) fun _ _ => h
        · refine .inl ⟨by simp [hl, hr], ?_⟩
          exact hpair (fun hin => absurd hin hl) fun _ hin => absurd hin hr
    rcases hdecides with ⟨hfind, hholds⟩ | ⟨part, hfind, hiff⟩
    · simp only [hfind]
      exact ⟨fun _ => ⟨none, rfl⟩, fun _ => hholds⟩
    · simp only [hfind]
      rw [hiff, ← isAnchor_iff]
      constructor
      · rintro ⟨anchor, hanchor⟩
        exact ⟨some anchor, by rw [hanchor]⟩
      · rintro ⟨anchor, hok⟩
        split at hok
        · next found hfound => exact ⟨found, hfound⟩
        · simp at hok

/-- A body without a comma asks for elements. -/
theorem shapeOfBody_mark (h : Text.splitOnce ',' body = none) (chain : String) (span : Span)
    (side : Option MapSide) :
    IsElementMark body
      ↔ ∃ index anchor, shapeOfBody chain body span side = .ok (.collection index anchor) := by
  unfold shapeOfBody
  simp only [h]
  split
  · next hstar => exact ⟨fun _ => ⟨_, _, rfl⟩, fun _ => .inl hstar⟩
  · next hstar =>
    split
    · next hdigits =>
      simp only [Bool.and_eq_true, Bool.not_eq_true', List.isEmpty_eq_false_iff, List.all_eq_true]
        at hdigits
      exact ⟨fun _ => ⟨_, _, rfl⟩, fun _ => .inr (.inl hdigits)⟩
    · next hdigits =>
      simp only [Bool.and_eq_true, Bool.not_eq_true', List.isEmpty_eq_false_iff, List.all_eq_true]
        at hdigits
      have hmark : IsElementMark body ↔ IsAnchor body := by
        simp [IsElementMark, hstar, hdigits]
      rw [hmark, ← isAnchor_iff]
      constructor
      · rintro ⟨anchor, hanchor⟩
        exact ⟨none, some anchor, by rw [hanchor]⟩
      · rintro ⟨index, anchor, hok⟩
        split at hok
        · next found hfound => exact ⟨found, hfound⟩
        · simp at hok

theorem shapeOfBody_ok {span : Span} {side : Option MapSide} {shape : Shape}
    (h : shapeOfBody chain body span side = .ok shape) :
    (shape.isCollection = true ∧ IsElementMark body)
      ∨ (shape.isCollection = false ∧ ∃ left right, IsPair body left right) := by
  cases hsplit : Text.splitOnce ',' body with
  | none =>
    have hcollection : ∃ index anchor, shape = .collection index anchor := by
      unfold shapeOfBody at h
      simp only [hsplit] at h
      split at h
      · exact ⟨_, _, (Except.ok.inj h).symm⟩
      · split at h
        · exact ⟨_, _, (Except.ok.inj h).symm⟩
        · split at h
          · exact ⟨_, _, (Except.ok.inj h).symm⟩
          · simp at h
    obtain ⟨index, anchor, rfl⟩ := hcollection
    exact .inl ⟨rfl, (shapeOfBody_mark hsplit chain span side).mpr ⟨index, anchor, h⟩⟩
  | some sides =>
    have hmap : ∃ anchor, shape = .map side anchor := by
      unfold shapeOfBody at h
      simp only [hsplit] at h
      split at h
      · simp at h
      · split at h
        · exact ⟨_, (Except.ok.inj h).symm⟩
        · split at h
          · exact ⟨_, (Except.ok.inj h).symm⟩
          · simp at h
    obtain ⟨anchor, rfl⟩ := hmap
    exact .inr ⟨rfl, _, _, (shapeOfBody_pair hsplit chain span side).mpr ⟨anchor, h⟩⟩

/-- Parts have a shape exactly if their bracket asks for entries, or for elements and there is no
marker. -/
theorem shape_ok_iff (h : parts.Holds f) :
    (∃ shape, parts.shape chain = .ok shape) ↔ ∀ body, f.bracket = some body →
      (IsCollectionBody body ∧ f.marker = none) ∨ ∃ left right, IsPair body left right := by
  have hmarker := h.marker
  have hbracket := h.bracket
  unfold Parts.shape
  cases hparts : parts.bracket with
  | none =>
    rw [hparts, Option.map_none] at hbracket
    simp only [← hbracket]
    constructor
    · intro _ body hbody
      simp at hbody
    · intro _
      cases parts.marker with
      | none => exact ⟨_, rfl⟩
      | some marked => exact ⟨_, rfl⟩
  | some bracket =>
    obtain ⟨body, span⟩ := bracket
    rw [hparts, Option.map_some] at hbracket
    constructor
    · rintro ⟨shape, hok⟩ body' hbody'
      rw [← hbracket] at hbody'
      obtain rfl := Option.some.inj hbody'
      obtain ⟨found, hfound, hrest⟩ := bind_eq_ok hok
      rcases shapeOfBody_ok hfound with ⟨hcollection, hmark⟩ | ⟨-, hpair⟩
      · refine .inl ⟨hmark, ?_⟩
        rw [← hmarker]
        cases hmarked : parts.marker with
        | none => rfl
        | some marked => simp [hmarked, hcollection] at hrest
      · exact .inr (exists_isPair_trim.mp hpair)
    · intro hall
      rcases hall body hbracket.symm with ⟨hmark, hnone⟩ | hpair
      · have hunmarked : parts.marker = none := by
          rw [hnone] at hmarker
          simpa using hmarker
        have hsplit := Text.splitOnce_eq_none_iff.mpr (comma_notMem_of_mark hmark)
        obtain ⟨index, anchor, hok⟩ :=
          (shapeOfBody_mark hsplit chain span (parts.marker.map Prod.fst)).mp hmark
        refine ⟨.collection index anchor, ?_⟩
        rw [hunmarked] at hok
        simp only [hunmarked, hok]
        rfl
      · obtain ⟨left, right, hpair⟩ := exists_isPair_trim.mpr hpair
        have hsplit := Text.splitOnce_eq_some_iff.mpr ⟨hpair.written, hpair.comma.1⟩
        obtain ⟨anchor, hok⟩ :=
          (shapeOfBody_pair hsplit chain span (parts.marker.map Prod.fst)).mp hpair
        refine ⟨.map (parts.marker.map Prod.fst) anchor, ?_⟩
        simp only [hok]
        cases parts.marker with
        | none => rfl
        | some marked => rfl

/-! ## The name and the whole segment -/

theorem isNameChar_iff {c : Char} :
    isNameChar c = true ↔ Text.isLetter c = true ∨ Text.isDigit c = true ∨ c = '_' := by
  simp [isNameChar, or_assoc]

theorem bounds_of_isNameChar {c : Char} (h : isNameChar c = true) :
    48 ≤ c.toNat ∧ c.toNat ≤ 122 := by
  rcases isNameChar_iff.mp h with hletter | hdigit | rfl
  · have hletter := Text.bounds_of_isLetter hletter
    omega
  · have hdigit := Text.bounds_of_isDigit hdigit
    omega
  · decide

theorem utf8Size_of_isNameChar {c : Char} (h : isNameChar c = true) : c.utf8Size = 1 := by
  have hbounds := bounds_of_isNameChar h
  rw [Char.utf8Size_eq_one_iff, UInt32.le_iff_toNat_le]
  show c.toNat ≤ 127
  omega

theorem isBlank_of_isNameChar {c : Char} (h : isNameChar c = true) : Text.isBlank c = false := by
  have hbounds := bounds_of_isNameChar h
  exact Text.isBlank_of_bounds (by omega) (by omega)

theorem byteLength_of_isNameChar {name : List Char} (h : ∀ c ∈ name, isNameChar c = true) :
    Text.byteLength name = name.length := by
  induction name with
  | nil => rfl
  | cons c rest ih =>
    rw [Text.byteLength, utf8Size_of_isNameChar (h c List.mem_cons_self),
      ih fun d hd => h d (List.mem_cons_of_mem _ hd), List.length_cons]
    omega

theorem byteLength_pos {text : List Char} (h : text ≠ []) : 1 ≤ Text.byteLength text := by
  obtain ⟨c, rest, rfl⟩ := List.exists_cons_of_ne_nil h
  have hsize := c.utf8Size_pos
  rw [Text.byteLength]
  omega

theorem isDigit_eq (c : Char) : c.isDigit = Text.isDigit c := by
  rw [Bool.eq_iff_iff, Char.isDigit, Text.isDigit]
  simp only [Bool.and_eq_true, decide_eq_true_eq]
  rfl

/-- Digits are the characters of a name that cannot begin it. -/
theorem begins_name_iff {c : Char} (h : isNameChar c = true) :
    (Text.isLetter c = true ∨ c = '_') ↔ Text.isDigit c = false := by
  constructor
  · intro hbegins
    cases hdigit : Text.isDigit c with
    | false => rfl
    | true =>
      rcases hbegins with hletter | rfl
      · have hletter := Text.bounds_of_isLetter hletter
        have hdigit := Text.bounds_of_isDigit hdigit
        omega
      · exact absurd hdigit (by decide)
  · intro hdigit
    rcases isNameChar_iff.mp h with hletter | hdigit' | hunderscore
    · exact .inl hletter
    · rw [hdigit] at hdigit'
      exact absurd hdigit' (by simp)
    · exact .inr hunderscore

/-- A run of name characters is a name if it is there, does not begin with a digit and is not too
long. -/
theorem isFieldName_iff {name : List Char} (h : ∀ c ∈ name, isNameChar c = true) :
    IsFieldName name ↔ name.isEmpty = false
      ∧ ((name.headD ' ').isDigit || decide (Limits.identifierLength < name.length)) = false := by
  have hlength := byteLength_of_isNameChar h
  cases name with
  | nil =>
    simp only [List.isEmpty_nil, Bool.true_eq_false, false_and, iff_false]
    rintro ⟨⟨c, rest, hnil, -⟩, -, -⟩
    simp at hnil
  | cons c rest =>
    have hbegins := begins_name_iff (h c List.mem_cons_self)
    have hlimit : Limits.identifierLength = 255 := rfl
    simp only [List.isEmpty_cons, List.headD_cons, isDigit_eq, true_and, Bool.or_eq_false_iff,
      decide_eq_false_iff_not, Nat.not_lt, hlimit]
    constructor
    · rintro ⟨⟨first, more, heq, hfirst⟩, -, hle⟩
      obtain ⟨rfl, rfl⟩ := List.cons.inj heq
      exact ⟨hbegins.mp hfirst, by omega⟩
    · rintro ⟨hdigit, hle⟩
      exact ⟨⟨c, rest, rfl, hbegins.mpr hdigit⟩, fun d hd => isNameChar_iff.mp (h d hd), by omega⟩

/-- A segment is accepted exactly if the beginning of it that could be a name is one and the rest
reads as parts that have a shape. -/
theorem parseSegment_ok_iff {index : Nat} :
    (∃ token, parseSegment chain index segment = .ok token)
      ↔ IsFieldName (segment.text.takeWhile isNameChar)
        ∧ ∃ parts, scanParts chain segment
            (segment.start + (segment.text.takeWhile isNameChar).length) none {}
            (segment.text.dropWhile isNameChar) = .ok parts
          ∧ ∃ shape, parts.shape chain = .ok shape := by
  rw [isFieldName_iff fun c hc => List.all_eq_true.mp List.all_takeWhile c hc]
  simp only [parseSegment_eq_ok_iff]
  constructor
  · rintro ⟨token, hempty, hname, parts, shape, hparts, hshape, -⟩
    exact ⟨⟨hempty, hname⟩, parts, hparts, shape, hshape⟩
  · rintro ⟨⟨hempty, hname⟩, parts, hparts, shape, hshape⟩
    exact ⟨_, hempty, hname, parts, shape, hparts, hshape, rfl⟩

theorem isNameChar_of_opening {c : Char} (h : isOpening c = true) : isNameChar c = false := by
  simp only [isOpening, Bool.or_eq_true, beq_iff_eq] at h
  rcases h with (rfl | rfl) | rfl <;> decide

theorem opening_of_mem_groups {g : Group} (h : g ∈ f.groups) : isOpening g.opener = true := by
  simp only [Form.groups, List.mem_append, Option.mem_toList,
    Option.map_eq_some_iff] at h
  rcases h with (⟨_, -, rfl⟩ | ⟨_, -, rfl⟩) | ⟨_, -, rfl⟩ <;> rfl

theorem IsFieldName.nameChars {name : List Char} (h : IsFieldName name) :
    ∀ c ∈ name, isNameChar c = true := fun c hc => isNameChar_iff.mpr (h.chars c hc)

theorem IsFieldName.notMem {name : List Char} (h : IsFieldName name) {mark : Char}
    (hmark : isNameChar mark = false) : mark ∉ name := fun hmem => by
  rw [h.nameChars mark hmem] at hmark
  exact absurd hmark (by simp)

/-- The name of a form ends where its first group begins. -/
theorem name_of_written (h : IsFieldName f.name) :
    f.written.takeWhile isNameChar = f.name
      ∧ f.written.dropWhile isNameChar = f.groups.flatMap Group.written := by
  have hgroups : (f.groups.flatMap Group.written).takeWhile isNameChar = []
      ∧ (f.groups.flatMap Group.written).dropWhile isNameChar
        = f.groups.flatMap Group.written := by
    cases hcase : f.groups with
    | nil => exact ⟨rfl, rfl⟩
    | cons g rest =>
      have hopening : isOpening g.opener = true :=
        opening_of_mem_groups (by rw [hcase]; exact List.mem_cons_self)
      rw [List.flatMap_cons, Group.written_append]
      simp [isNameChar_of_opening hopening]
  rw [Form.written, List.takeWhile_append_of_pos h.nameChars,
    List.dropWhile_append_of_pos h.nameChars, hgroups.1, hgroups.2, List.append_nil]
  exact ⟨rfl, rfl⟩

/-- Characters that may stand outside of brackets leave nothing open. -/
theorem openedBy_plain {outside : Char → Bool} {opened text : List Char}
    (h : ∀ c ∈ text, isOpening c = false ∧ isClosing c = false ∧ outside c = true) :
    openedBy outside opened text = some opened := by
  induction text with
  | nil => rfl
  | cons c rest ih =>
    obtain ⟨hopening, hclosing, houtside⟩ := h c List.mem_cons_self
    rw [openedBy_cons, openedAfter_plain hopening hclosing (.inl houtside), Option.bind_some]
    exact ih fun d hd => h d (List.mem_cons_of_mem _ hd)

theorem isBracket_of_isNameChar {c : Char} (h : isNameChar c = true) :
    isOpening c = false ∧ isClosing c = false := by
  constructor
  · cases hopening : isOpening c with
    | false => rfl
    | true => rw [isNameChar_of_opening hopening] at h; simp at h
  · cases hclosing : isClosing c with
    | false => rfl
    | true =>
      simp only [isClosing, Bool.or_eq_true, beq_iff_eq] at hclosing
      rcases hclosing with (rfl | rfl) | rfl <;> exact absurd h (by decide)

/-- A segment whose brackets nest and that can be read is written as a valid form. -/
theorem form_of_parseSegment {index : Nat} {token : Token}
    (h : parseSegment chain index segment = .ok token) (hnested : Nested segment.text) :
    ∃ f : Form, f.Valid ∧ segment.text = f.written := by
  obtain ⟨hname, parts, hparts, hshape⟩ := parseSegment_ok_iff.mp ⟨token, h⟩
  obtain ⟨f, groups, hfname, hgroups, hended, hrest, hholds⟩ :=
    holds_of_scanParts hparts (holds_empty (segment.text.takeWhile isNameChar))
  replace hgroups : f.groups = groups := hgroups
  replace hfname : f.name = segment.text.takeWhile isNameChar := hfname
  have hwritten : segment.text = f.written := by
    rw [Form.written, hfname, hgroups, ← hrest, List.takeWhile_append_dropWhile]
  have hbodies : ∀ g ∈ groups, Nested g.body := by
    refine nested_of_groups hended ?_
    have hopened := nested_iff.mp hnested
    rw [← hfname] at hname
    rw [hwritten, Form.written, openedBy_append, openedBy_plain, hgroups] at hopened
    · exact hopened
    · intro c hc
      obtain ⟨hopening, hclosing⟩ := isBracket_of_isNameChar (hname.nameChars c hc)
      exact ⟨hopening, hclosing, rfl⟩
  have hmem {g : Group} (hg : g ∈ f.groups) : g.Ended ∧ Nested g.body := by
    rw [hgroups] at hg
    exact ⟨hended g hg, hbodies g hg⟩
  refine ⟨f, ⟨by rw [hfname]; exact hname, ?_, ?_⟩, hwritten⟩
  · intro hint hhint
    obtain ⟨hends, hnests⟩ := @hmem ⟨'(', hint⟩ (by simp [Form.groups, hhint])
    have hopening := hnests.notMem_opening rfl hends.notMem
    exact ⟨hholds.notBlank hint hhint, ⟨hopening, hends.notMem⟩, hnests⟩
  · intro body hbody
    obtain ⟨hends, hnests⟩ := @hmem ⟨'[', body⟩ (by simp [Form.groups, hbody])
    rcases (shape_ok_iff hholds).mp hshape body hbody with hcollection | hpair
    · exact .inl hcollection
    · exact .inr ⟨⟨hnests.notMem_opening rfl hends.notMem, hends.notMem⟩, hnests, hpair⟩

/-- Between its blanks, the inside of a collection bracket has stars, digits and anchor signs
only. -/
theorem IsCollectionBody.notMem {body : List Char} (h : IsCollectionBody body) {c : Char}
    (hblank : Text.isBlank c = false) (hdigit : Text.isDigit c = false)
    (hmark : c ≠ '*' ∧ c ≠ '^') : c ∉ body := by
  rw [← Text.mem_trim_iff hblank]
  rcases h with hstar | ⟨-, hdigits⟩ | hanchor | hanchor | hanchor
  · simp [hstar, hmark]
  · intro hmem
    rw [hdigits c hmem] at hdigit
    exact absurd hdigit (by simp)
  all_goals simp [hanchor, hmark]

/-- The groups of a valid form are found again. -/
theorem Form.Valid.reads (h : f.Valid) (offset : Nat) :
    Reads chain segment offset {} (f.groups.flatMap Group.written) f := by
  refine reads_groups (fun hint hhint => (h.hint hint hhint).noRound.2)
    (fun hint hhint => (h.hint hint hhint).notBlank) fun body hbody => ?_
  rcases h.bracket body hbody with ⟨hcollection, -⟩ | hmap
  · exact hcollection.notMem (by decide) (by decide) (by decide)
  · exact hmap.noSquare.2

/-- A segment that is written as a valid form can be read. -/
theorem parseSegment_written (h : f.Valid) (hwritten : segment.text = f.written) (index : Nat) :
    ∃ token, parseSegment chain index segment = .ok token := by
  obtain ⟨htake, hdrop⟩ := name_of_written h.name
  rw [parseSegment_ok_iff, hwritten, htake, hdrop]
  obtain ⟨parts, hparts, hholds⟩ := h.reads _
  refine ⟨h.name, parts, hparts, (shape_ok_iff hholds).mpr fun body hbody => ?_⟩
  rcases h.bracket body hbody with hcollection | hmap
  · exact .inl hcollection
  · exact .inr hmap.pair

end Chain
end ChainMapping
