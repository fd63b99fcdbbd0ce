import ChainMapping.Proofs.Types.Expression

/-!
# The grammar of type expressions

The texts that are read as types are those of the grammar

    E ::= N | C | M | C '<' E '>' | M '<' E ',' E '>' | E '[]'

with blanks around every `E`, where `N` is a scalar or a known type, `C` a container of one type and
`M` a map.  `IsExpression` has a constructor for each production, with the type that it denotes.

An expression is read from the outside: the square brackets at its end first, then what stands
between the first angle bracket and one at the end.  The commas between arguments are told from
those inside of arguments by counting brackets.  That works because an expression closes each angle
bracket that it opens and shows no comma outside of them, so that counting goes over it in one
piece.
-/

namespace ChainMapping
namespace TypeRef

/-- A text is an expression of a type. -/
inductive IsExpression (classify : String → Option Kind) : List Char → TypeRef → Prop where
  /-- the name of a scalar or of a known type -/
  | known {name : String} {kind : Kind} (isName : IsName name)
      (free : Kind.ofContainerName? name = none) (known : kindOf? classify name = some kind) :
      IsExpression classify name.toList ⟨name, kind, []⟩
  /-- a container that leaves open what it holds -/
  | raw {name : String} {kind : Kind} (container : Kind.ofContainerName? name = some kind) :
      IsExpression classify name.toList ⟨name, kind, []⟩
  /-- a list, a set or a queue -/
  | collection {name : String} {kind : Kind} {blanks inner : List Char} {element : TypeRef}
      (container : Kind.ofContainerName? name = some kind) (single : kind ≠ .map)
      (blank : Text.isAllBlank blanks = true) (inside : IsExpression classify inner element) :
      IsExpression classify (name.toList ++ blanks ++ '<' :: (inner ++ ['>']))
        ⟨name, kind, [element]⟩
  | map {name : String} {blanks first second : List Char} {key value : TypeRef}
      (container : Kind.ofContainerName? name = some .map) (blank : Text.isAllBlank blanks = true)
      (keys : IsExpression classify first key) (values : IsExpression classify second value) :
      IsExpression classify (name.toList ++ blanks ++ '<' :: (first ++ ',' :: second ++ ['>']))
        ⟨name, .map, [key, value]⟩
  | array {component : List Char} {element : TypeRef}
      (items : IsExpression classify component element) :
      IsExpression classify (component ++ ['[', ']']) (arrayOf element)
  | spaced {before text after : List Char} {t : TypeRef}
      (blankBefore : Text.isAllBlank before = true) (blankAfter : Text.isAllBlank after = true)
      (inside : IsExpression classify text t) : IsExpression classify (before ++ (text ++ after)) t

variable {classify : String → Option Kind} {text inner : List Char} {t : TypeRef}

/-! ## Splitting -/

/-- How many angle brackets are open after one more character; a closing one too many is ignored. -/
def depthAfter (depth : Nat) (c : Char) : Nat :=
  if c = '<' then depth + 1 else if c = '>' then depth - 1 else depth

theorem splitArguments_comma (rest : List Char) :
    splitArguments 0 (',' :: rest) = [] :: splitArguments 0 rest := by
  simp [splitArguments]

/-- A character that ends no part is put in front of the first part. -/
theorem splitArguments_cons {depth : Nat} {c : Char} (h : c = ',' → depth ≠ 0)
    (rest : List Char) :
    splitArguments depth (c :: rest)
      = (splitArguments (depthAfter depth c) rest).modifyHead (c :: ·) := by
  have hkept : ¬((decide (c = ',') && decide (depth = 0)) = true) := by simpa using h
  rw [splitArguments, if_neg hkept]
  simp only
  rw [← depthAfter]
  cases hparts : splitArguments (depthAfter depth c) rest with
  | nil => exact absurd hparts (splitArguments_ne_nil _ rest)
  | cons part parts => rfl

theorem intercalate_modifyHead {separator : List Char} {parts : List (List Char)} (h : parts ≠ [])
    (c : Char) :
    separator.intercalate (parts.modifyHead (c :: ·)) = c :: separator.intercalate parts := by
  rcases parts with _ | ⟨part, _ | ⟨second, more⟩⟩
  · exact absurd rfl h
  · rw [List.modifyHead_cons, List.intercalate_singleton, List.intercalate_singleton]
  · rw [List.modifyHead_cons, List.intercalate_cons_cons, List.intercalate_cons_cons]
    rfl

/-- The parts of a text make it up again. -/
theorem intercalate_splitArguments (depth : Nat) (cs : List Char) :
    List.intercalate [','] (splitArguments depth cs) = cs := by
  induction cs generalizing depth with
  | nil => rfl
  | cons c rest ih =>
    by_cases hcomma : c = ',' ∧ depth = 0
    · obtain ⟨rfl, rfl⟩ := hcomma
      rw [splitArguments_comma]
      cases hrest : splitArguments 0 rest with
      | nil => exact absurd hrest (splitArguments_ne_nil 0 rest)
      | cons part parts =>
        rw [List.intercalate_cons_cons, ← hrest, ih]
        rfl
    · rw [splitArguments_cons fun hc hd => hcomma ⟨hc, hd⟩,
        intercalate_modifyHead (splitArguments_ne_nil _ rest), ih]

/-- Splitting goes over a text in one piece, if so many angle brackets are open before it. -/
def Unsplit (depth : Nat) (text : List Char) : Prop :=
  ∀ rest, splitArguments depth (text ++ rest) = (splitArguments depth rest).modifyHead (text ++ ·)

namespace Unsplit

variable {depth : Nat} {text after : List Char}

theorem append (h : Unsplit depth text) (hafter : Unsplit depth after) :
    Unsplit depth (text ++ after) := by
  intro rest
  rw [List.append_assoc, h, hafter, List.modifyHead_modifyHead]
  simp only [Function.comp_def, List.append_assoc]

theorem comma : Unsplit (depth + 1) [','] := by
  intro rest
  rw [List.singleton_append, splitArguments_cons fun _ => Nat.succ_ne_zero depth]
  rfl

theorem plain (h : ∀ c ∈ text, c ≠ '<' ∧ c ≠ '>' ∧ c ≠ ',') : Unsplit depth text := by
  induction text with
  | nil =>
    intro rest
    cases hrest : splitArguments depth rest with
    | nil => exact absurd hrest (splitArguments_ne_nil depth rest)
    | cons part parts => simp [hrest]
  | cons c text ih =>
    obtain ⟨hopening, hclosing, hcomma⟩ := h c List.mem_cons_self
    intro rest
    rw [List.cons_append, splitArguments_cons fun hc => absurd hc hcomma, depthAfter,
      if_neg hopening, if_neg hclosing, ih fun c hc => h c (List.mem_cons_of_mem _ hc),
      List.modifyHead_modifyHead]
    rfl

/-- A pair of angle brackets shelters what is in it. -/
theorem group (h : Unsplit (depth + 1) text) : Unsplit depth ('<' :: (text ++ ['>'])) := by
  intro rest
  rw [List.cons_append, splitArguments_cons (by simp), List.append_assoc]
  show (splitArguments (depth + 1) _).modifyHead _ = _
  rw [h, List.singleton_append, splitArguments_cons (by simp), List.modifyHead_modifyHead,
    List.modifyHead_modifyHead]
  show (splitArguments depth rest).modifyHead _ = _
  simp [Function.comp_def]

theorem split (h : Unsplit 0 text) : splitArguments 0 text = [text] := by
  have hsplit := h []
  rwa [List.append_nil, splitArguments, List.modifyHead_cons, List.append_nil] at hsplit

theorem split_comma (h : Unsplit 0 text) (hafter : Unsplit 0 after) :
    splitArguments 0 (text ++ ',' :: after) = [text, after] := by
  rw [h, splitArguments_comma, hafter.split, List.modifyHead_cons, List.append_nil]

end Unsplit

/-! ## What is read is an expression -/

theorem isName_of_container {name : String} {kind : Kind}
    (h : Kind.ofContainerName? name = some kind) : IsName name := by
  have hall : Kind.containerNames.all
      (fun entry => !(entry.1.isEmpty || !entry.1.toList.all isNameChar)) = true := by decide
  have hname := List.all_eq_true.mp hall (name, kind) (Ordered.mem_of_lookup h)
  exact isName_iff.mpr (by simpa using hname)

theorem named_of_container {name : String} {kind : Kind} {args : List TypeRef}
    (h : Kind.ofContainerName? name = some kind) (hargs : args ≠ [] → args.length = kind.arity) :
    Named classify name args ⟨name, kind, args⟩ :=
  ⟨isName_of_container h, by rw [kindOf?, h]; rfl, fun hne => ⟨h, hargs hne⟩, rfl⟩

/-- A name with as many expressions between angle brackets as the container holds types. -/
theorem isExpression_of_args {before inner : List Char} {name : String} {args : List TypeRef}
    (hfront : Text.trim before = name.toList) (hnamed : Named classify name args t)
    (hargs : List.Forall₂ (IsExpression classify) (splitArguments 0 inner) args) :
    IsExpression classify (before ++ '<' :: (inner ++ ['>'])) t := by
  have hsome : args ≠ [] := by
    rintro rfl
    exact splitArguments_ne_nil 0 inner (List.forall₂_nil_right_iff.mp hargs)
  obtain ⟨hcontainer, hlength⟩ := hnamed.arity hsome
  have hinner := intercalate_splitArguments 0 inner
  obtain ⟨left, right, hleft, hright, hbefore⟩ := Text.exists_trim before
  rw [hfront] at hbefore
  have hcore : IsExpression classify (name.toList ++ right ++ '<' :: (inner ++ ['>'])) t := by
    rw [hnamed.eq]
    by_cases hmap : t.kind = .map
    · rw [Kind.arity, if_pos hmap] at hlength
      obtain ⟨key, value, rfl⟩ := List.length_eq_two.mp hlength
      obtain ⟨first, others, hkey, hothers, hparts⟩ := List.forall₂_cons_right_iff.mp hargs
      obtain ⟨second, none, hvalue, hnone, rfl⟩ := List.forall₂_cons_right_iff.mp hothers
      obtain rfl := List.forall₂_nil_right_iff.mp hnone
      rw [hparts, List.intercalate_cons_cons, List.intercalate_singleton, List.append_assoc]
        at hinner
      rw [hmap] at hcontainer ⊢
      rw [← hinner]
      exact .map hcontainer hright hkey hvalue
    · rw [Kind.arity, if_neg hmap] at hlength
      obtain ⟨element, rfl⟩ := List.length_eq_one_iff.mp hlength
      obtain ⟨part, none, helement, hnone, hparts⟩ := List.forall₂_cons_right_iff.mp hargs
      obtain rfl := List.forall₂_nil_right_iff.mp hnone
      rw [hparts, List.intercalate_singleton] at hinner
      rw [← hinner]
      exact .collection hcontainer hmap hright helement
  rw [hbefore, List.append_assoc]
  simpa using IsExpression.spaced hleft (show Text.isAllBlank [] = true from rfl) hcore

theorem isExpression_of_named {name : String} (h : Named classify name [] t) :
    IsExpression classify name.toList t := by
  rw [h.eq]
  cases hcontainer : Kind.ofContainerName? name with
  | none => exact .known h.isName hcontainer h.kind
  | some kind =>
    have hkind := h.kind
    rw [kindOf?, hcontainer] at hkind
    rw [← Option.some.inj hkind]
    exact .raw hcontainer

/-- Every text that is read as a type is an expression of it. -/
theorem isExpression_of_parse (h : parseChars classify text = .ok t) :
    IsExpression classify text t := by
  induction hlength : text.length using Nat.strong_induction_on generalizing text t with
  | _ n ih =>
    subst hlength
    have htrim := length_trim_le text
    have hcore : IsExpression classify (Text.trim text) t := by
      cases read_of_parse h with
      | @array component element written read =>
        rw [written, List.length_append, List.length_cons] at htrim
        rw [written]
        exact .array (ih component.length (by omega) read rfl)
      | @generic before inner name args _ written first front read named =>
        rw [written, List.length_append, List.length_cons, List.length_append] at htrim
        have hshorter : ∀ part ∈ splitArguments 0 inner, part.length < text.length := by
          intro part hpart
          have hle := length_le_of_mem_splitArguments hpart
          omega
        rw [written]
        refine isExpression_of_args front named ?_
        refine ((List.forall₂_and_left _ _).mpr ⟨hshorter, read⟩).imp ?_
        rintro part arg ⟨hlt, hread⟩
        exact ih part.length hlt hread rfl
      | named written named =>
        rw [written]
        exact isExpression_of_named named
    obtain ⟨before, after, hbefore, hafter, htext⟩ := Text.exists_trim text
    rw [htext]
    exact .spaced hbefore hafter hcore

/-! ## Every expression is read -/

/-- Blanks at the ends of a text make no difference to what it is read as. -/
theorem Read.congr {text' : List Char} (h : Read classify text t)
    (htrim : Text.trim text' = Text.trim text) : Read classify text' t := by
  cases h with
  | array written read => exact .array (htrim.trans written) read
  | generic written first front read named =>
    exact .generic (htrim.trans written) first front read named
  | named written named => exact .named (htrim.trans written) named

theorem unsplit_blank {depth : Nat} {blanks : List Char} (h : Text.isAllBlank blanks = true) :
    Unsplit depth blanks := by
  refine .plain fun c hc => ?_
  have hblank := List.all_eq_true.mp h c hc
  refine ⟨?_, ?_, ?_⟩ <;> rintro rfl <;> exact absurd hblank (by decide)

theorem IsName.unsplit {name : String} (h : IsName name) (depth : Nat) :
    Unsplit depth name.toList := by
  refine .plain fun c hc => ?_
  have hchar := h.chars c hc
  refine ⟨?_, ?_, ?_⟩ <;> rintro rfl <;> exact absurd hchar (by decide)

/-- Splitting goes over an expression in one piece, wherever it stands. -/
theorem IsExpression.unsplit (h : IsExpression classify text t) (depth : Nat) :
    Unsplit depth text := by
  induction h generalizing depth with
  | known isName => exact isName.unsplit depth
  | raw container => exact (isName_of_container container).unsplit depth
  | collection container _ blank _ ih =>
    exact (((isName_of_container container).unsplit depth).append (unsplit_blank blank)).append
      (.group (ih (depth + 1)))
  | map container blank _ _ ihKey ihValue =>
    have hsides := ((ihKey (depth + 1)).append .comma).append (ihValue (depth + 1))
    rw [List.append_assoc, List.singleton_append] at hsides
    exact (((isName_of_container container).unsplit depth).append (unsplit_blank blank)).append
      (.group hsides)
  | array _ ih => exact (ih depth).append (.plain (by simp))
  | spaced blankBefore blankAfter _ ih =>
    exact (unsplit_blank blankBefore).append ((ih depth).append (unsplit_blank blankAfter))

/-- A name in front of what is read as its arguments. -/
theorem parse_of_args {name : String} {blanks inner : List Char} {args : List TypeRef}
    (hnamed : Named classify name args t) (hblank : Text.isAllBlank blanks = true)
    (hargs : List.Forall₂ (fun part arg => parseChars classify part = .ok arg)
      (splitArguments 0 inner) args) :
    parseChars classify (name.toList ++ blanks ++ '<' :: (inner ++ ['>'])) = .ok t := by
  refine parse_of_read (.generic (Text.trim_frame (by decide) (by decide) _ inner) ?_ ?_ hargs
    hnamed)
  · intro hopening
    rcases List.mem_append.mp ((List.dropWhile_sublist _).subset hopening) with hname | hblanks
    · exact absurd (hnamed.isName.chars '<' hname) (by decide)
    · exact absurd (List.all_eq_true.mp hblank '<' hblanks) (by decide)
  · rw [Text.trim_trimLeft, Text.trim_append_blank hblank, hnamed.isName.trim_eq]

/-- Every expression is read as its type. -/
theorem IsExpression.parse_eq (h : IsExpression classify text t) :
    parseChars classify text = .ok t := by
  induction h with
  | known isName _ known =>
    exact parse_of_read (.named isName.trim_eq ⟨isName, known, fun hne => absurd rfl hne, rfl⟩)
  | raw container =>
    exact parse_of_read (.named (isName_of_container container).trim_eq
      (named_of_container container fun hne => absurd rfl hne))
  | collection container single blank inside ih =>
    refine parse_of_args (named_of_container container fun _ => ?_) blank ?_
    · rw [Kind.arity, if_neg single]
      rfl
    · rw [(inside.unsplit 0).split]
      exact .cons ih .nil
  | map container blank keys values ihKey ihValue =>
    refine parse_of_args (named_of_container container fun _ => rfl) blank ?_
    rw [(keys.unsplit 0).split_comma (values.unsplit 0)]
    exact .cons ihKey (.cons ihValue .nil)
  | @array component element _ ih =>
    have hread := (read_of_parse ih).congr (Text.trim_trimLeft component)
    refine parse_of_read (.array ?_ (parse_of_read hread))
    exact Text.trim_frame (by decide) (by decide) component []
  | @spaced before text after t blankBefore blankAfter _ ih =>
    refine parse_of_read ((read_of_parse ih).congr ?_)
    rw [Text.trim_blank_append blankBefore, Text.trim_append_blank blankAfter]

/-- A text is read as a type exactly if it is an expression of that type. -/
theorem parse_eq_ok_iff_isExpression (classify : String → Option Kind) (expression : String)
    (t : TypeRef) :
    parse classify expression = .ok t ↔ IsExpression classify expression.toList t :=
  ⟨isExpression_of_parse, IsExpression.parse_eq⟩

end TypeRef
end ChainMapping
