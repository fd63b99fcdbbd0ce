import ChainMapping.Proofs.Chain.Prefix
import ChainMapping.Proofs.Chain.Tokens

/-!
# Normal forms are chains

The normal form of a chain can be read again.  It is written as forms of the same names, with a
bare bracket or marker where the chain had one, and no form takes more bytes than the one it stands
for.  What is read is in normal form already, so it says of every segment what the chain says, but
for its index, its anchor and its hint.  Texts in normal form are the same exactly if their segments
are.
-/

namespace ChainMapping

/-- The shape without element index and anchor. -/
def Shape.bare : Shape → Shape
  | plain => plain
  | collection _ _ => collection none none
  | map side _ => map side none

/-- A segment that is the normal form of another one. -/
structure Token.IsNormalOf (token token' : Token) : Prop where
  name_eq : token.name = token'.name
  normal_eq : token.normal = token'.normal
  collection_eq : token.shape.isCollection = token'.shape.isCollection
  map_eq : token.shape.isMap = token'.shape.isMap
  side_eq : token.shape.side? = token'.shape.side?
  raw_eq : token.raw = token.normal
  noAnchor : token.shape.anchor? = none
  noIndex : token.shape.index? = none
  noHint : token.hint = none

theorem Token.isNormalOf_bare {token token' : Token} (hname : token.name = token'.name)
    (hshape : token.shape = token'.shape.bare) (hraw : token.raw = token'.normal)
    (hhint : token.hint = none) : token.IsNormalOf token' := by
  have hnormal : token.normal = token'.normal := by
    rw [normal, normal, hname, hshape]
    rcases token'.shape with _ | _ | ⟨_ | _, _⟩ <;> rfl
  refine ⟨hname, hnormal, ?_, ?_, ?_, hraw.trans hnormal.symm, ?_, ?_, hhint⟩ <;>
    rw [hshape] <;> cases token'.shape <;> rfl

namespace Chain

variable {chain : String} {token : Token} {parts : Parts} {f : Form} {name : List Char}
  {shape : Shape}

/-! ## The forms of a normal form -/

/-- The parts in which a shape is written in normal form. -/
def Form.bare (name : List Char) : Shape → Form
  | .plain => { name }
  | .collection _ _ => { name, bracket := some ['*'] }
  | .map (some side) _ => { name, marker := some side }
  | .map none _ => { name, bracket := some ['*', ',', '*'] }

theorem written_bare (name : List Char) (shape : Shape) :
    (Form.bare name shape).written = name ++ shape.suffix.toList := by
  rcases shape with _ | _ | ⟨_ | _ | _, _⟩ <;>
    simp [Form.bare, Form.written, Form.groups, Group.written, closingOf, Shape.suffix,
      MapSide.letter, MapSide.marker]

theorem isPair_stars : IsPair ['*', ',', '*'] ['*'] ['*'] where
  written := rfl
  comma := by decide
  notBlank := by decide
  leftAnchor h := absurd h (by decide)
  rightAnchor _ h := absurd h (by decide)

theorem isMapBody_stars : IsMapBody ['*', ',', '*'] where
  noSquare := by decide
  nested := by
    refine nested_of_plain fun c hc => ?_
    simp only [List.mem_cons, List.not_mem_nil, or_false] at hc
    rcases hc with rfl | rfl | rfl <;> decide
  pair := ⟨_, _, isPair_stars⟩

theorem valid_bare (h : IsFieldName name) (shape : Shape) : (Form.bare name shape).Valid where
  name := by rcases shape with _ | _ | ⟨_ | _, _⟩ <;> exact h
  hint hint hhint := by rcases shape with _ | _ | ⟨_ | _, _⟩ <;> cases hhint
  bracket body hbody := by
    rcases shape with _ | _ | ⟨_ | _, _⟩ <;> cases hbody
    · exact .inl ⟨.inl rfl, rfl⟩
    · exact .inr isMapBody_stars

/-- The form of a shape reads as the shape. -/
theorem shape_bare (h : parts.Holds (Form.bare name shape)) :
    parts.shape chain = .ok shape.bare := by
  obtain ⟨hint, bracket, marker⟩ := parts
  have hbracket := h.bracket
  have hmarker := h.marker
  simp only at hbracket hmarker
  rcases shape with _ | _ | ⟨_ | side, _⟩ <;>
    simp only [Form.bare, Option.map_eq_none_iff, Option.map_eq_some_iff, Prod.exists,
      exists_and_right, exists_eq_right] at hbracket hmarker
  · rw [hbracket, hmarker]; rfl
  · obtain ⟨span, rfl⟩ := hbracket
    rw [hmarker]; rfl
  · obtain ⟨span, rfl⟩ := hbracket
    rw [hmarker]; rfl
  · obtain ⟨span, rfl⟩ := hmarker
    rw [hbracket]; rfl

/-! ## The bytes of a normal form -/

theorem byteLength_group {opener : Char} {body : List Char}
    (h : isOpening opener = true) :
    Text.byteLength (Group.mk opener body).written = Text.byteLength body + 2 := by
  simp only [isOpening, Bool.or_eq_true, beq_iff_eq] at h
  rw [Group.written, Text.byteLength, Text.byteLength_append]
  rcases h with (rfl | rfl) | rfl <;> simp [closingOf, Text.byteLength, Char.utf8Size] <;> omega

/-- The groups of a form take at least the bytes of each of them. -/
theorem byteLength_le_groups {g : Group} (h : g ∈ f.groups) :
    Text.byteLength g.written ≤ Text.byteLength (f.groups.flatMap Group.written) := by
  obtain ⟨before, after, heq⟩ := List.append_of_mem h
  rw [heq, List.flatMap_append, List.flatMap_cons, Text.byteLength_append, Text.byteLength_append]
  omega

theorem IsCollectionBody.byteLength_le {body : List Char} (h : IsCollectionBody body) :
    1 ≤ Text.byteLength body := by
  refine byteLength_pos ?_
  rintro rfl
  have hnil : Text.trim [] = [] := rfl
  simp [IsCollectionBody, IsElementMark, IsAnchor, hnil] at h

theorem IsPair.byteLength_le {body left right : List Char} (h : IsPair body left right) :
    3 ≤ Text.byteLength body := by
  have hside {text : List Char} (hblank : Text.isAllBlank text = false) :
      1 ≤ Text.byteLength text := by
    refine byteLength_pos ?_
    rintro rfl
    cases hblank
  have hleft := hside h.notBlank.1
  have hright := hside h.notBlank.2
  have hcomma : Char.utf8Size ',' = 1 := by decide
  rw [h.written, Text.byteLength_append, Text.byteLength, hcomma]
  omega

/-- A form takes the bytes of its suffix in normal form, or more. -/
theorem byteLength_suffix_le (h : Asks f shape) :
    Text.byteLength shape.suffix.toList ≤ Text.byteLength (f.groups.flatMap Group.written) := by
  have hmarked {side : MapSide} (hmarker : f.marker = some side) :
      Text.byteLength side.marker.toList
        ≤ Text.byteLength (f.groups.flatMap Group.written) := by
    have hmem : Group.mk '<' side.letter ∈ f.groups := by simp [Form.groups, hmarker]
    have hgroup := byteLength_le_groups hmem
    rw [byteLength_group rfl] at hgroup
    refine le_trans ?_ hgroup
    cases side <;> decide
  have hbracketed {body : List Char} (hbracket : f.bracket = some body) :
      Text.byteLength body + 2 ≤ Text.byteLength (f.groups.flatMap Group.written) := by
    have hmem : Group.mk '[' body ∈ f.groups := by simp [Form.groups, hbracket]
    have hgroup := byteLength_le_groups hmem
    rwa [byteLength_group rfl] at hgroup
  cases h with
  | plain => exact Nat.zero_le _
  | side _ marker => exact hmarked marker
  | elements bracket _ mark =>
    have hbody := mark.byteLength_le
    have hgroup := hbracketed bracket
    have hsuffix : Text.byteLength "[*]".toList = 3 := by decide
    show Text.byteLength "[*]".toList ≤ _
    omega
  | entries bracket pair =>
    cases hmarker : f.marker with
    | none =>
      have hbody := pair.byteLength_le
      have hgroup := hbracketed bracket
      have hsuffix : Text.byteLength "[*,*]".toList = 5 := by decide
      show Text.byteLength "[*,*]".toList ≤ _
      omega
    | some side => exact hmarked hmarker

theorem ReadFrom.byteLength_le (h : ReadFrom chain token f) :
    Text.byteLength token.normal.toList ≤ Text.byteLength f.written := by
  rw [Token.normal, String.toList_append, h.toList_name, Text.byteLength_append, Form.written,
    Text.byteLength_append]
  exact Nat.add_le_add_left (byteLength_suffix_le h.asks) _

theorem byteLength_join_le {texts texts' : List (List Char)}
    (h : List.Forall₂ (fun text text' => Text.byteLength text ≤ Text.byteLength text') texts
      texts') :
    Text.byteLength (List.intercalate ['.'] texts)
      ≤ Text.byteLength (List.intercalate ['.'] texts') := by
  induction h with
  | nil => exact le_rfl
  | cons hfirst hrest ih =>
    cases hrest with
    | nil => simpa using hfirst
    | cons hsecond hmore =>
      simp only [List.intercalate_cons_cons, Text.byteLength_append] at ih ⊢
      omega

/-! ## Reading a normal form -/

/-- The form that a token has in normal form. -/
def bareForm (token : Token) : Form := Form.bare token.name.toList token.shape

theorem ReadFrom.isFieldName (h : ReadFrom chain token f) : IsFieldName token.name.toList := by
  rw [h.toList_name]
  exact h.valid.name

/-- What is read from the normal form of a segment is its normal form. -/
theorem ReadFrom.isNormalOf {token' : Token} (h : ReadFrom chain token (bareForm token')) :
    token.IsNormalOf token' := by
  obtain ⟨parts, hholds, hshape⟩ := h.shape
  have hname : (bareForm token').name = token'.name.toList := by
    rw [bareForm]
    rcases token'.shape with _ | _ | ⟨_ | _, _⟩ <;> rfl
  have hhint : (bareForm token').hint = none := by
    rw [bareForm]
    rcases token'.shape with _ | _ | ⟨_ | _, _⟩ <;> rfl
  refine Token.isNormalOf_bare ?_ ?_ ?_ ?_
  · rw [h.name, hname, String.ofList_toList]
  · exact Except.ok.inj (hshape.symm.trans (shape_bare hholds))
  · rw [h.raw, bareForm, written_bare, ← String.toList_append, String.ofList_toList, Token.normal]
  · rw [h.hint, hhint]
    rfl

theorem valid_bareForms {tokens : List Token} {forms : List Form}
    (h : List.Forall₂ (ReadFrom chain) tokens forms) : ∀ f ∈ tokens.map bareForm, f.Valid := by
  induction h with
  | nil => exact fun f hf => absurd hf List.not_mem_nil
  | cons hfirst _ ih => exact List.forall_mem_cons.mpr ⟨valid_bare hfirst.isFieldName _, ih⟩

theorem toList_normal (c : Chain) :
    c.normal.toList = List.intercalate ['.'] ((c.tokens.map bareForm).map Form.written) := by
  rw [normal, Text.join, String.toList_intercalate, List.map_map, List.map_map]
  refine congrArg (List.intercalate ['.']) (List.map_congr_left fun token _ => ?_)
  simp only [Function.comp_apply, bareForm, written_bare, Token.normal, String.toList_append]

/-- The normal form of a chain is no longer than the chain. -/
theorem utf8ByteSize_normal_le {c : Chain} {text : String} {forms : List Form}
    (h : List.Forall₂ (ReadFrom chain) c.tokens forms)
    (htext : text.toList = List.intercalate ['.'] (forms.map Form.written)) :
    c.normal.utf8ByteSize ≤ text.utf8ByteSize := by
  rw [← String.ofList_toList (s := text), ← String.ofList_toList (s := c.normal),
    Text.utf8ByteSize_ofList, Text.utf8ByteSize_ofList, htext, toList_normal]
  refine byteLength_join_le ?_
  rw [List.map_map, List.forall₂_map_left_iff, List.forall₂_map_right_iff]
  refine h.imp fun token f hf => ?_
  have hlength := hf.byteLength_le
  rwa [Token.normal, String.toList_append, ← written_bare] at hlength

/-- The normal form of a chain is a chain of the same segments in normal form. -/
theorem exists_parse_normal {text : String} {c : Chain} (h : parse text = .ok c) :
    ∃ d, parse c.normal = .ok d ∧ List.Forall₂ Token.IsNormalOf d.tokens c.tokens := by
  have hproper := (proper_of_parse h).2
  obtain ⟨forms, hsome, -, hvalid, htext⟩ := forms_of_parse ⟨c, h⟩
  have hread := readFrom_of_parse h (List.length_pos_iff.mp hsome) hvalid htext
  have hsize : c.normal.utf8ByteSize ≤ Limits.chainLength :=
    le_trans (utf8ByteSize_normal_le hread htext) (parse_ok_iff.mp ⟨c, h⟩).1
  have hbare := valid_bareForms hread
  have hne : c.tokens.map bareForm ≠ [] := by simpa using hproper.nonempty
  obtain ⟨d, hd⟩ := parse_of_forms hsize hne (by simpa using hproper.length_le) hbare
    (toList_normal c)
  have hagain := readFrom_of_parse hd hne hbare (toList_normal c)
  rw [List.forall₂_map_right_iff] at hagain
  exact ⟨d, hd, hagain.imp fun _ _ hread => hread.isNormalOf⟩

theorem normal_of_isNormalOf {tokens tokens' : List Token}
    (h : List.Forall₂ Token.IsNormalOf tokens tokens') :
    tokens.map Token.normal = tokens'.map Token.normal := by
  induction h with
  | nil => rfl
  | cons hfirst _ ih => rw [List.map_cons, List.map_cons, hfirst.normal_eq, ih]

/-- Normal forms can be read again, and what is read is its own normal form: it has as many
segments, each of which says what it said before and is written the way it is said.  Two chains have
the same normal form, as a whole or up to some segment of each, exactly if their segments have the
same normal forms, as many as there are. -/
theorem parse_normal_fixed (text : String) (c : Chain) (h : parse text = .ok c) :
    (∃ d, parse c.normal = .ok d ∧ List.Forall₂ Token.IsNormalOf d.tokens c.tokens
        ∧ d.normal = c.normal)
      ∧ ∀ text' c', parse text' = .ok c' →
        (c.normal = c'.normal ↔ c.tokens.map Token.normal = c'.tokens.map Token.normal)
          ∧ ∀ k k', c.normalPrefix k = c'.normalPrefix k'
            ↔ (c.tokens.take (k + 1)).map Token.normal
              = (c'.tokens.take (k' + 1)).map Token.normal := by
  refine ⟨?_, fun text' c' h' => ⟨?_, fun k k' => ?_⟩⟩
  · obtain ⟨d, hd, hnormals⟩ := exists_parse_normal h
    exact ⟨d, hd, hnormals, congrArg (Text.join ".") (normal_of_isNormalOf hnormals)⟩
  · have hproper := (proper_of_parse h).2
    have hproper' := (proper_of_parse h').2
    constructor
    · exact Token.join_normal_inj hproper.nonempty hproper'.nonempty hproper.names hproper'.names
    · exact congrArg (Text.join ".")
  · have hproper := (proper_of_parse h).2
    have hproper' := (proper_of_parse h').2
    constructor
    · refine Token.join_normal_inj ?_ ?_ (fun token hmem => hproper.names token
        (List.mem_of_mem_take hmem)) fun token hmem => hproper'.names token
          (List.mem_of_mem_take hmem)
      · simp [hproper.nonempty]
      · simp [hproper'.nonempty]
    · exact congrArg (Text.join ".")

/-- Every notation at once: a hint, an index among blanks, an anchor, a map body with a marker and
without.  Another chain of the same normal form is written with none of them. -/
theorem parse_normal_fixed_notations :
    (parse "a(X<Y[]>)[ 07 ].b[*^].c[k.x,( v )]<V>.d[^,e].f").map normal
        = .ok "a[*].b[*].c<V>.d[*,*].f"
      ∧ (∃ d, parse "a[*].b[*].c<V>.d[*,*].f" = .ok d ∧ d.normal = "a[*].b[*].c<V>.d[*,*].f")
      ∧ (parse "a(X<Y[]>)[ 07 ].b[*^].c[k.x,( v )]<V>.d[^,e].f").map
          (fun c => c.tokens.map Token.normal)
        = (parse "a[*].b[*].c<V>.d[x,y].f").map fun c => c.tokens.map Token.normal := by
  have hnormal : (parse "a(X<Y[]>)[ 07 ].b[*^].c[k.x,( v )]<V>.d[^,e].f").map normal
      = .ok "a[*].b[*].c<V>.d[*,*].f" := by decide +kernel
  have hnormal' : (parse "a[*].b[*].c<V>.d[x,y].f").map normal
      = .ok "a[*].b[*].c<V>.d[*,*].f" := by decide +kernel
  obtain ⟨c, hparse, heq⟩ := map_eq_ok hnormal
  obtain ⟨c', hparse', heq'⟩ := map_eq_ok hnormal'
  obtain ⟨⟨d, hd, -, hfixed⟩, hsame⟩ := parse_normal_fixed _ c hparse
  rw [heq] at hd hfixed
  refine ⟨hnormal, ⟨d, hd, hfixed⟩, ?_⟩
  rw [hparse, hparse']
  exact congrArg Except.ok ((hsame _ c' hparse').1.mp (heq.trans heq'.symm))

end Chain
end ChainMapping
