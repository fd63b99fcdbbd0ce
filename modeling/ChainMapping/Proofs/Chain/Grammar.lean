import ChainMapping.Proofs.Chain.Reading
import ChainMapping.Proofs.Chain.Segments

/-!
# The grammar of chains

The texts that can be read as chains are those of one to sixty-four valid forms joined by dots,
within the limit on bytes.  Two passes decide: the first cuts the text at the dots that stand
outside of every bracket, the second reads the pieces.  A form shows nothing but its name outside of
brackets, so the first pass goes over it in one piece; and the pieces it makes nest, which is what
the second pass needs to find forms in them.
-/

namespace ChainMapping
namespace Chain

variable {chain : String} {f : Form}

/-! ## Forms seen from outside -/

theorem nested_of_plain {text : List Char}
    (h : ∀ c ∈ text, isOpening c = false ∧ isClosing c = false) : Nested text :=
  nested_iff.mpr (openedBy_plain fun c hc => ⟨(h c hc).1, (h c hc).2, rfl⟩)

theorem IsCollectionBody.nested {body : List Char} (h : IsCollectionBody body) : Nested body := by
  refine nested_of_plain fun c hc => ⟨?_, ?_⟩
  · cases hopening : isOpening c with
    | false => rfl
    | true =>
      simp only [isOpening, Bool.or_eq_true, beq_iff_eq] at hopening
      rcases hopening with (rfl | rfl) | rfl <;>
        exact absurd hc (h.notMem (by decide) (by decide) (by decide))
  · cases hclosing : isClosing c with
    | false => rfl
    | true =>
      simp only [isClosing, Bool.or_eq_true, beq_iff_eq] at hclosing
      rcases hclosing with (rfl | rfl) | rfl <;>
        exact absurd hc (h.notMem (by decide) (by decide) (by decide))

theorem Form.Valid.nested_body (h : f.Valid) {g : Group} (hg : g ∈ f.groups) : Nested g.body := by
  simp only [Form.groups, List.mem_append, Option.mem_toList, Option.map_eq_some_iff] at hg
  rcases hg with (⟨hint, hhint, rfl⟩ | ⟨body, hbody, rfl⟩) | ⟨side, -, rfl⟩
  · exact (h.hint hint hhint).nested
  · rcases h.bracket body hbody with ⟨hcollection, -⟩ | hmap
    · exact hcollection.nested
    · exact hmap.nested
  · cases side <;> exact nested_of_plain (by simp [MapSide.letter, isOpening, isClosing])

theorem openedBy_nested_groups {outside : Char → Bool} {opened : List Char} {groups : List Group}
    (hopening : ∀ g ∈ groups, isOpening g.opener = true) (hnested : ∀ g ∈ groups, Nested g.body) :
    openedBy outside opened (groups.flatMap Group.written) = some opened := by
  induction groups with
  | nil => rfl
  | cons g rest ih =>
    rw [List.flatMap_cons, Group.written_append,
      (hnested g List.mem_cons_self).openedBy_group (hopening g List.mem_cons_self)]
    exact ih (fun g' hg' => hopening g' (List.mem_cons_of_mem _ hg'))
      fun g' hg' => hnested g' (List.mem_cons_of_mem _ hg')

/-- Outside of brackets a form shows its name only, and it leaves none of them open. -/
theorem Form.Valid.openedBy (h : f.Valid) : openedBy isNameChar [] f.written = some [] := by
  rw [Form.written, openedBy_append, openedBy_plain, Option.bind_some]
  · exact openedBy_nested_groups (fun g => opening_of_mem_groups) fun g => h.nested_body
  · intro c hc
    have hchar := h.name.nameChars c hc
    exact ⟨(isBracket_of_isNameChar hchar).1, (isBracket_of_isNameChar hchar).2, hchar⟩

theorem Form.Valid.written_ne_nil (h : f.Valid) : f.written ≠ [] := by
  obtain ⟨c, rest, hname, -⟩ := h.name.first
  simp [Form.written, hname]

/-! ## The first pass -/

/-- The first pass keeps a character that is no separator outside of brackets. -/
theorem splitFrom_cons {outside : Char → Bool} (hdot : outside '.' = false) {c : Char}
    {offset start : Nat} {opened : List (Char × Nat)} {current next : List Char}
    (h : openedAfter outside (opened.map Prod.fst) c = some next) (rest : List Char) :
    ∃ opened', opened'.map Prod.fst = next
      ∧ splitFrom chain offset opened start current (c :: rest)
        = splitFrom chain (offset + c.utf8Size) opened' start (c :: current) rest := by
  have hstep := splitFrom_step chain offset opened start current (c :: rest)
  generalize splitFrom chain offset opened start current (c :: rest) = result at hstep ⊢
  cases hstep with
  | opening hopening =>
    rw [openedAfter_opening hopening] at h
    exact ⟨(c, offset) :: opened, Option.some.inj h, rfl⟩
  | @closing bracket place outer _ hinnermost =>
    rw [hinnermost, List.map_cons, openedAfter_closingOf] at h
    exact ⟨outer, Option.some.inj h, rfl⟩
  | misplaced hclosing hdiffers =>
    rw [openedAfter_misplaced hclosing (by simpa using hdiffers)] at h
    cases h
  | empty hclosed | separator hclosed =>
    rw [hclosed, List.map_nil, openedAfter_outside rfl rfl hdot] at h
    cases h
  | plain hopening hclosing =>
    exact ⟨opened, (openedAfter_noBracket hopening hclosing h).symm, rfl⟩

/-- The first pass goes over a text that has no separator outside of brackets. -/
theorem splitFrom_append {outside : Char → Bool} (hdot : outside '.' = false) {text : List Char}
    {offset start : Nat} {opened : List (Char × Nat)} {current stack : List Char}
    (h : openedBy outside (opened.map Prod.fst) text = some stack) (rest : List Char) :
    ∃ opened', opened'.map Prod.fst = stack
      ∧ splitFrom chain offset opened start current (text ++ rest)
        = splitFrom chain (offset + Text.byteLength text) opened' start (text.reverse ++ current)
          rest := by
  induction text generalizing offset opened current with
  | nil => exact ⟨opened, Option.some.inj h, rfl⟩
  | cons c more ih =>
    rw [openedBy_cons] at h
    obtain ⟨next, hnext, hmore⟩ := Option.bind_eq_some_iff.mp h
    obtain ⟨opened₁, hopened₁, hsplit⟩ :=
      @splitFrom_cons chain _ hdot c offset start opened current next hnext (more ++ rest)
    rw [← hopened₁] at hmore
    obtain ⟨opened', hopened', hrest⟩ := @ih (offset + c.utf8Size) opened₁ (c :: current) hmore
    refine ⟨opened', hopened', ?_⟩
    rw [List.cons_append, hsplit, hrest, Text.byteLength, List.reverse_cons, List.append_assoc,
      Nat.add_assoc]
    rfl

/-- Forms joined by dots are cut into their texts. -/
theorem splitFrom_forms {forms : List Form} (hne : forms ≠ []) (hvalid : ∀ f ∈ forms, f.Valid)
    (offset : Nat) :
    ∃ segments, splitFrom chain offset [] offset []
        (List.intercalate ['.'] (forms.map Form.written)) = .ok segments
      ∧ segments.map Segment.text = forms.map Form.written := by
  induction forms generalizing offset with
  | nil => exact absurd rfl hne
  | cons f rest ih =>
    have hf := hvalid f List.mem_cons_self
    have hname : isNameChar '.' = false := by decide
    cases rest with
    | nil =>
      obtain ⟨opened, hopened, hsplit⟩ := @splitFrom_append chain _ hname _ offset offset [] [] []
        hf.openedBy []
      rw [List.map_eq_nil_iff.mp hopened] at hsplit
      refine ⟨[⟨offset, f.written⟩], ?_, rfl⟩
      rw [List.map_singleton, List.intercalate_singleton, ← List.append_nil f.written, hsplit,
        splitFrom]
      simp [hf.written_ne_nil]
    | cons second more =>
      obtain ⟨opened, hopened, hsplit⟩ := @splitFrom_append chain _ hname _ offset offset [] [] []
        hf.openedBy ('.' :: List.intercalate ['.'] ((second :: more).map Form.written))
      rw [List.map_eq_nil_iff.mp hopened] at hsplit
      have hrest : ∀ g ∈ second :: more, g.Valid := fun g hg =>
        hvalid g (List.mem_cons_of_mem _ hg)
      obtain ⟨segments, hok, htexts⟩ := ih (by simp) hrest
        (offset + Text.byteLength f.written + '.'.utf8Size)
      refine ⟨⟨offset, f.written⟩ :: segments, ?_, by simp [htexts]⟩
      rw [List.map_cons, List.map_cons, List.intercalate_cons_cons, List.append_assoc,
        List.singleton_append, ← List.map_cons, hsplit, splitFrom, hok]
      simp [hf.written_ne_nil, isOpening, isClosing, bind, Except.bind, pure, Except.pure]

/-- The pieces of a text nest, and the text is the pieces joined by dots. -/
theorem pieces_of_splitFrom {text : List Char} {offset start : Nat} {opened : List (Char × Nat)}
    {current : List Char} {segments : List Segment}
    (h : splitFrom chain offset opened start current text = .ok segments)
    (hcurrent : openedBy anywhere [] current.reverse = some (opened.map Prod.fst)) :
    current.reverse ++ text = List.intercalate ['.'] (segments.map Segment.text)
      ∧ ∀ segment ∈ segments, Nested segment.text := by
  induction text generalizing offset start opened current segments with
  | nil =>
    have hstep := splitFrom_step chain offset opened start current []
    generalize splitFrom chain offset opened start current [] = result at h hstep
    cases hstep with
    | unclosed | missing => cases h
    | last hclosed =>
      obtain rfl := Except.ok.inj h
      rw [hclosed] at hcurrent
      refine ⟨by simp, fun segment hsegment => ?_⟩
      rw [List.mem_singleton.mp hsegment]
      exact nested_iff.mpr hcurrent
  | cons c rest ih =>
    -- A character that is kept belongs to the text of the segment being read.
    have hkeep {opened' : List (Char × Nat)} {offset' : Nat}
        (hok : splitFrom chain offset' opened' start (c :: current) rest = .ok segments)
        (hc : openedAfter anywhere (opened.map Prod.fst) c = some (opened'.map Prod.fst)) :
        current.reverse ++ c :: rest = List.intercalate ['.'] (segments.map Segment.text)
          ∧ ∀ segment ∈ segments, Nested segment.text := by
      have hcurrent' : openedBy anywhere [] (c :: current).reverse
          = some (opened'.map Prod.fst) := by
        rw [List.reverse_cons, openedBy_append, hcurrent, Option.bind_some, openedBy_cons, hc]
        rfl
      have hrest := ih hok hcurrent'
      rwa [List.reverse_cons, List.append_assoc, List.singleton_append] at hrest
    have hstep := splitFrom_step chain offset opened start current (c :: rest)
    generalize splitFrom chain offset opened start current (c :: rest) = result at h hstep
    cases hstep with
    | opening hopening => exact hkeep h (openedAfter_opening hopening)
    | closing hinnermost =>
      refine hkeep h ?_
      rw [hinnermost, List.map_cons, openedAfter_closingOf]
    | misplaced | empty => cases h
    | plain hopening hclosing => exact hkeep h (openedAfter_plain hopening hclosing (.inl rfl))
    | separator hclosed =>
      obtain ⟨more, hmore, hok⟩ := bind_eq_ok h
      obtain rfl := Except.ok.inj hok
      rw [hclosed] at hcurrent
      obtain ⟨hjoin, hnested⟩ := ih hmore rfl
      refine ⟨?_, List.forall_mem_cons.mpr ⟨nested_iff.mpr hcurrent, hnested⟩⟩
      obtain ⟨first, others, rfl⟩ := List.exists_cons_of_ne_nil (splitFrom_ne_nil hmore)
      rw [List.map_cons, List.map_cons, List.intercalate_cons_cons, ← List.map_cons, ← hjoin]
      simp

/-! ## Both passes -/

/-- Whether a segment can be read does not depend on its number. -/
theorem parseSegments_ok_iff {segments : List Segment} {index : Nat} :
    (∃ tokens, parseSegments chain index segments = .ok tokens)
      ↔ ∀ segment ∈ segments, ∃ token, parseSegment chain 0 segment = .ok token := by
  induction segments generalizing index with
  | nil => simp [parseSegments]
  | cons segment rest ih =>
    have hindex : (∃ token, parseSegment chain index segment = .ok token)
        ↔ ∃ token, parseSegment chain 0 segment = .ok token := by
      rw [parseSegment_ok_iff, parseSegment_ok_iff]
    rw [List.forall_mem_cons, ← hindex, ← @ih (index + 1)]
    constructor
    · rintro ⟨tokens, hok⟩
      obtain ⟨token, htoken, hmore⟩ := bind_eq_ok hok
      obtain ⟨more, hmore, -⟩ := bind_eq_ok hmore
      exact ⟨⟨token, htoken⟩, more, hmore⟩
    · rintro ⟨⟨token, htoken⟩, more, hmore⟩
      exact ⟨token :: more, by rw [parseSegments, htoken, hmore]; rfl⟩

theorem parse_ok_iff {text : String} :
    (∃ chain, parse text = .ok chain)
      ↔ text.utf8ByteSize ≤ Limits.chainLength ∧ Text.isAllBlank text.toList = false
        ∧ ∃ segments, splitSegments text = .ok segments
          ∧ segments.length ≤ Limits.tokensPerChain
          ∧ ∀ segment ∈ segments, ∃ token, parseSegment text 0 segment = .ok token := by
  simp only [parse_eq_ok_iff]
  constructor
  · rintro ⟨chain, hsize, hblank, segments, tokens, hsegments, hcount, htokens, -⟩
    exact ⟨hsize, hblank, segments, hsegments, hcount, parseSegments_ok_iff.mp ⟨tokens, htokens⟩⟩
  · rintro ⟨hsize, hblank, segments, hsegments, hcount, hall⟩
    obtain ⟨tokens, htokens⟩ := @parseSegments_ok_iff text segments 0 |>.mpr hall
    exact ⟨_, hsize, hblank, segments, tokens, hsegments, hcount, htokens, rfl⟩

/-- A text that can be read consists of forms. -/
theorem forms_of_segments {segments : List Segment} (hnested : ∀ s ∈ segments, Nested s.text)
    (hread : ∀ s ∈ segments, ∃ token, parseSegment chain 0 s = .ok token) :
    ∃ forms : List Form, (∀ f ∈ forms, f.Valid)
      ∧ segments.map Segment.text = forms.map Form.written := by
  induction segments with
  | nil => exact ⟨[], fun f hf => absurd hf List.not_mem_nil, rfl⟩
  | cons s rest ih =>
    obtain ⟨token, htoken⟩ := hread s List.mem_cons_self
    obtain ⟨f, hvalid, hwritten⟩ := form_of_parseSegment htoken (hnested s List.mem_cons_self)
    obtain ⟨forms, hforms, htexts⟩ := ih (fun t ht => hnested t (List.mem_cons_of_mem _ ht))
      fun t ht => hread t (List.mem_cons_of_mem _ ht)
    refine ⟨f :: forms, List.forall_mem_cons.mpr ⟨hvalid, hforms⟩, ?_⟩
    rw [List.map_cons, List.map_cons, hwritten, htexts]

theorem not_blank_of_forms {forms : List Form} (hne : forms ≠ []) (hvalid : ∀ f ∈ forms, f.Valid) :
    Text.isAllBlank (List.intercalate ['.'] (forms.map Form.written)) = false := by
  obtain ⟨f, rest, rfl⟩ := List.exists_cons_of_ne_nil hne
  have hname := (hvalid f List.mem_cons_self).name
  obtain ⟨c, more, heq, -⟩ := hname.first
  have hc : c ∈ f.name := heq ▸ List.mem_cons_self
  have hwritten : c ∈ f.written := List.mem_append_left _ hc
  have hmem : c ∈ List.intercalate ['.'] ((f :: rest).map Form.written) := by
    cases rest with
    | nil => simpa using hwritten
    | cons second others =>
      rw [List.map_cons, List.map_cons, List.intercalate_cons_cons, List.append_assoc]
      exact List.mem_append_left _ hwritten
  rw [Text.isAllBlank, List.all_eq_false]
  exact ⟨c, hmem, by simp [isBlank_of_isNameChar (hname.nameChars c hc)]⟩

theorem forms_of_parse {text : String} (h : ∃ chain, parse text = .ok chain) :
    ∃ forms : List Form, 1 ≤ forms.length ∧ forms.length ≤ 64 ∧ (∀ f ∈ forms, f.Valid)
      ∧ text.toList = List.intercalate ['.'] (forms.map Form.written) := by
  obtain ⟨-, -, segments, hsegments, hcount, hread⟩ := parse_ok_iff.mp h
  obtain ⟨hjoin, hnested⟩ := pieces_of_splitFrom hsegments rfl
  obtain ⟨forms, hvalid, htexts⟩ := forms_of_segments hnested hread
  have hlength : segments.length = forms.length := by
    simpa using congrArg List.length htexts
  have hsome : 0 < segments.length := List.length_pos_iff.mpr (splitFrom_ne_nil hsegments)
  have hlimit : Limits.tokensPerChain = 64 := rfl
  refine ⟨forms, by omega, by omega, hvalid, ?_⟩
  rw [← htexts, ← hjoin]
  rfl

theorem parse_of_forms {text : String} (hsize : text.utf8ByteSize ≤ Limits.chainLength)
    {forms : List Form} (hne : forms ≠ []) (hcount : forms.length ≤ Limits.tokensPerChain)
    (hvalid : ∀ f ∈ forms, f.Valid)
    (htext : text.toList = List.intercalate ['.'] (forms.map Form.written)) :
    ∃ chain, parse text = .ok chain := by
  obtain ⟨segments, hsegments, htexts⟩ := @splitFrom_forms text forms hne hvalid 0
  have hlength : segments.length = forms.length := by
    simpa using congrArg List.length htexts
  rw [← htext] at hsegments
  refine parse_ok_iff.mpr ⟨hsize, by rw [htext]; exact not_blank_of_forms hne hvalid, segments,
    hsegments, by rw [hlength]; exact hcount, fun segment hsegment => ?_⟩
  have hmem : segment.text ∈ forms.map Form.written := by
    rw [← htexts]
    exact List.mem_map_of_mem hsegment
  obtain ⟨f, hf, hwritten⟩ := List.mem_map.mp hmem
  exact parseSegment_written (hvalid f hf) hwritten.symm 0

/-- The texts that read as chains are those of the grammar: 1024 bytes at most, one to sixty-four
segments joined by dots. -/
theorem parse_accepts_iff (text : String) :
    (∃ chain, parse text = .ok chain)
      ↔ text.utf8ByteSize ≤ 1024 ∧ ∃ forms : List Form, 1 ≤ forms.length ∧ forms.length ≤ 64
        ∧ (∀ f ∈ forms, f.Valid)
        ∧ text.toList = List.intercalate ['.'] (forms.map Form.written) := by
  constructor
  · intro h
    exact ⟨(parse_ok_iff.mp h).1, forms_of_parse h⟩
  · rintro ⟨hsize, forms, hsome, hcount, hvalid, htext⟩
    exact parse_of_forms hsize (List.length_pos_iff.mp hsome) hcount hvalid htext

/-! ## Chains seen from outside -/

/-- Names and the separators between them. -/
def inNames (c : Char) : Bool := isNameChar c || c == '.'

/-- Outside of brackets a chain shows names and separators only. -/
theorem openedBy_of_parse {text : String} (h : ∃ chain, parse text = .ok chain) :
    openedBy inNames [] text.toList = some [] := by
  obtain ⟨forms, -, -, hvalid, htext⟩ := forms_of_parse h
  rw [htext]
  clear htext h
  have hnames : ∀ c, isNameChar c = true → inNames c = true := fun c hc => by simp [inNames, hc]
  induction forms with
  | nil => rfl
  | cons f rest ih =>
    have hf := openedBy_mono hnames (hvalid f List.mem_cons_self).openedBy
    have hrest := ih fun g hg => hvalid g (List.mem_cons_of_mem _ hg)
    cases rest with
    | nil => simpa using hf
    | cons second more =>
      rw [List.map_cons, List.map_cons, List.intercalate_cons_cons, List.append_assoc,
        openedBy_append, hf, Option.bind_some, List.singleton_append, openedBy_cons,
        openedAfter_plain rfl rfl (.inl rfl), Option.bind_some]
      exact hrest

end Chain
end ChainMapping
