import ChainMapping.Chain.Tokenize

/-!
# Nested brackets

Brackets nest if each one is closed by its own kind and those inside of it are closed first.  The
same is told by a stack: going through a text, `openedBy` keeps the brackets that are open, and the
text is nested if none is left.  On the way it can also refuse characters that stand outside of
every bracket, which is how names and separators are told from what brackets shelter.
-/

namespace ChainMapping
namespace Chain

/-- A text whose brackets nest. -/
inductive Nested : List Char → Prop where
  | nil : Nested []
  | plain {c : Char} {rest : List Char} (opening : isOpening c = false)
      (closing : isClosing c = false) (more : Nested rest) : Nested (c :: rest)
  | group {bracket : Char} {inner rest : List Char} (opening : isOpening bracket = true)
      (inside : Nested inner) (more : Nested rest) :
      Nested (bracket :: (inner ++ closingOf bracket :: rest))

/-- The open brackets, innermost first, after one more character.  Outside of all brackets only
characters of `outside` may stand. -/
def openedAfter (outside : Char → Bool) (opened : List Char) (c : Char) : Option (List Char) :=
  if isOpening c then some (c :: opened)
  else if isClosing c then
    match opened with
    | [] => none
    | bracket :: outer => if closingOf bracket = c then some outer else none
  else if opened.isEmpty && !outside c then none
  else some opened

/-- The open brackets after a text. -/
def openedBy (outside : Char → Bool) (opened text : List Char) : Option (List Char) :=
  text.foldlM (openedAfter outside) opened

/-- Anything may stand outside of brackets. -/
def anywhere : Char → Bool := fun _ => true

variable {outside : Char → Bool} {opened opened' text : List Char}

theorem openedBy_nil : openedBy outside opened [] = some opened := rfl

theorem openedBy_cons (c : Char) :
    openedBy outside opened (c :: text)
      = (openedAfter outside opened c).bind (openedBy outside · text) := rfl

theorem openedBy_append (before after : List Char) :
    openedBy outside opened (before ++ after)
      = (openedBy outside opened before).bind (openedBy outside · after) :=
  List.foldlM_append

theorem openedAfter_opening {c : Char} (h : isOpening c = true) :
    openedAfter outside opened c = some (c :: opened) := by
  simp [openedAfter, h]

theorem isClosing_closingOf (bracket : Char) : isClosing (closingOf bracket) = true := by
  unfold closingOf
  split
  · decide
  · split <;> decide

theorem isOpening_closingOf (bracket : Char) : isOpening (closingOf bracket) = false := by
  unfold closingOf
  split
  · decide
  · split <;> decide

/-- Brackets of different kinds are closed differently. -/
theorem closingOf_inj {a b : Char} (ha : isOpening a = true) (hb : isOpening b = true)
    (h : closingOf a = closingOf b) : a = b := by
  simp only [isOpening, Bool.or_eq_true, beq_iff_eq] at ha hb
  rcases ha with (rfl | rfl) | rfl <;> rcases hb with (rfl | rfl) | rfl <;>
    first | rfl | exact absurd h (by decide)

theorem openedAfter_closingOf (bracket : Char) (outer : List Char) :
    openedAfter outside (bracket :: outer) (closingOf bracket) = some outer := by
  simp [openedAfter, isClosing_closingOf, isOpening_closingOf]

theorem isOpening_of_isClosing {c : Char} (h : isClosing c = true) : isOpening c = false := by
  simp only [isClosing, Bool.or_eq_true, beq_iff_eq] at h
  rcases h with (rfl | rfl) | rfl <;> decide

theorem openedAfter_misplaced {c : Char} (hclosing : isClosing c = true)
    (h : ∀ bracket ∈ opened.head?, closingOf bracket ≠ c) :
    openedAfter outside opened c = none := by
  cases opened with
  | nil => simp [openedAfter, hclosing, isOpening_of_isClosing hclosing]
  | cons bracket outer =>
    simp [openedAfter, hclosing, isOpening_of_isClosing hclosing, h bracket rfl]

theorem openedAfter_outside {c : Char} (hopening : isOpening c = false)
    (hclosing : isClosing c = false) (h : outside c = false) :
    openedAfter outside [] c = none := by
  simp [openedAfter, hopening, hclosing, h]

theorem openedAfter_plain {c : Char} (hopening : isOpening c = false)
    (hclosing : isClosing c = false) (h : outside c = true ∨ opened ≠ []) :
    openedAfter outside opened c = some opened := by
  have hempty : (opened.isEmpty && !outside c) = false := by
    rcases h with h | h <;> simp [h]
  simp [openedAfter, hopening, hclosing, hempty]

/-- What one more character does to the open brackets where it may stand. -/
inductive OpenedStep (outside : Char → Bool) : List Char → Char → List Char → Prop where
  | opening {opened : List Char} {c : Char} (opening : isOpening c = true) :
      OpenedStep outside opened c (c :: opened)
  | closing {bracket c : Char} {outer : List Char} (closes : closingOf bracket = c) :
      OpenedStep outside (bracket :: outer) c outer
  | plain {opened : List Char} {c : Char} (opening : isOpening c = false)
      (closing : isClosing c = false) (stands : outside c = true ∨ opened ≠ []) :
      OpenedStep outside opened c opened

theorem openedAfter_eq_some_iff {c : Char} :
    openedAfter outside opened c = some opened' ↔ OpenedStep outside opened c opened' := by
  constructor
  · intro h
    unfold openedAfter at h
    split at h
    next hopening =>
      obtain rfl := Option.some.inj h
      exact .opening hopening
    next hopening =>
      rw [Bool.not_eq_true] at hopening
      split at h
      next hclosing =>
        cases opened with
        | nil => cases h
        | cons bracket outer =>
          simp only at h
          split at h
          next hcloses =>
            obtain rfl := Option.some.inj h
            exact .closing hcloses
          next => cases h
      next hclosing =>
        rw [Bool.not_eq_true] at hclosing
        split at h
        next => cases h
        next hstands =>
          obtain rfl := Option.some.inj h
          refine .plain hopening hclosing (Decidable.or_iff_not_imp_right.mpr fun hempty => ?_)
          simpa [Decidable.not_not.mp hempty] using hstands
  · intro h
    cases h with
    | opening hopening => exact openedAfter_opening hopening
    | closing hcloses => exact hcloses ▸ openedAfter_closingOf _ _
    | plain hopening hclosing hstands => exact openedAfter_plain hopening hclosing hstands

theorem openedAfter_noBracket {c : Char} (hopening : isOpening c = false)
    (hclosing : isClosing c = false) (h : openedAfter outside opened c = some opened') :
    opened' = opened := by
  cases openedAfter_eq_some_iff.mp h with
  | opening hopening' => simp [hopening] at hopening'
  | @closing bracket _ _ hcloses =>
    rw [← hcloses, isClosing_closingOf] at hclosing
    cases hclosing
  | plain => rfl

/-- A closing bracket closes the innermost bracket and no other. -/
theorem openedAfter_cons_closingOf {first bracket : Char} {outer : List Char}
    (h : openedAfter outside (first :: outer) (closingOf bracket) = some opened') :
    closingOf first = closingOf bracket ∧ opened' = outer := by
  by_cases hcloses : closingOf first = closingOf bracket
  · rw [← hcloses, openedAfter_closingOf] at h
    exact ⟨hcloses, (Option.some.inj h).symm⟩
  · rw [openedAfter_misplaced (isClosing_closingOf bracket) (by simpa using hcloses)] at h
    cases h

/-- What one character does to the innermost brackets does not depend on those further out. -/
theorem openedAfter_frame {c : Char} (h : openedAfter outside opened c = some opened')
    (outer : List Char) : openedAfter outside (opened ++ outer) c = some (opened' ++ outer) := by
  rw [openedAfter_eq_some_iff] at h ⊢
  cases h with
  | opening hopening => exact .opening hopening
  | closing hcloses => exact .closing hcloses
  | plain hopening hclosing hstands =>
    refine .plain hopening hclosing (hstands.imp_right fun hne hnil => hne ?_)
    exact (List.append_eq_nil_iff.mp hnil).1

theorem openedBy_frame (h : openedBy outside opened text = some opened') (outer : List Char) :
    openedBy outside (opened ++ outer) text = some (opened' ++ outer) := by
  induction text generalizing opened with
  | nil => rw [openedBy_nil] at h ⊢; rw [Option.some.inj h]
  | cons c rest ih =>
    rw [openedBy_cons] at h ⊢
    obtain ⟨next, hnext, hrest⟩ := Option.bind_eq_some_iff.mp h
    rw [openedAfter_frame hnext outer]
    exact ih hrest

/-- Allowing more outside of brackets changes nothing where nothing was refused. -/
theorem openedAfter_mono {outside' : Char → Bool}
    (hmore : ∀ c, outside c = true → outside' c = true) {c : Char}
    (h : openedAfter outside opened c = some opened') :
    openedAfter outside' opened c = some opened' := by
  rw [openedAfter_eq_some_iff] at h ⊢
  cases h with
  | opening hopening => exact .opening hopening
  | closing hcloses => exact .closing hcloses
  | plain hopening hclosing hstands =>
    exact .plain hopening hclosing (hstands.imp_left (hmore c))

theorem openedBy_mono {outside' : Char → Bool} (hmore : ∀ c, outside c = true → outside' c = true)
    (h : openedBy outside opened text = some opened') :
    openedBy outside' opened text = some opened' := by
  induction text generalizing opened with
  | nil => exact h
  | cons c rest ih =>
    rw [openedBy_cons] at h ⊢
    obtain ⟨next, hnext, hrest⟩ := Option.bind_eq_some_iff.mp h
    rw [openedAfter_mono hmore hnext]
    exact ih hrest

/-- Inside a bracket that a text does not close, the text is on its own: the bracket and all that is
further out stay open. -/
theorem openedAfter_inside {bracket c : Char} (h : c ≠ closingOf bracket) (outer : List Char) :
    openedAfter outside (opened ++ bracket :: outer) c
      = (openedAfter anywhere opened c).map (· ++ bracket :: outer) := by
  unfold openedAfter
  split
  · rfl
  · split
    · cases opened with
      | nil => simp [Ne.symm h]
      | cons first rest =>
        simp only [List.cons_append]
        split <;> rfl
    · simp [anywhere]

theorem openedBy_inside {bracket : Char} (h : closingOf bracket ∉ text) (outer : List Char) :
    openedBy outside (opened ++ bracket :: outer) text
      = (openedBy anywhere opened text).map (· ++ bracket :: outer) := by
  induction text generalizing opened with
  | nil => rfl
  | cons c rest ih =>
    have hc : c ≠ closingOf bracket := fun heq => h (heq ▸ List.mem_cons_self)
    have hrest : closingOf bracket ∉ rest := fun hmem => h (List.mem_cons_of_mem _ hmem)
    rw [openedBy_cons, openedBy_cons, openedAfter_inside hc]
    cases openedAfter anywhere opened c with
    | none => rfl
    | some next => exact ih hrest

/-- A bracket that is opened and not closed is open at the end. -/
theorem mem_openedBy {bracket : Char} (h : openedBy outside opened text = some opened')
    (hopening : isOpening bracket = true) (hmem : bracket ∈ text)
    (hclosing : closingOf bracket ∉ text) : bracket ∈ opened' := by
  obtain ⟨before, after, rfl⟩ := List.append_of_mem hmem
  rw [openedBy_append] at h
  obtain ⟨mid, -, hafter⟩ := Option.bind_eq_some_iff.mp h
  rw [openedBy_cons, openedAfter_opening hopening, Option.bind_some] at hafter
  have hrest : closingOf bracket ∉ after := fun hin =>
    hclosing (List.mem_append_right _ (List.mem_cons_of_mem _ hin))
  have hinside : openedBy outside ([] ++ bracket :: mid) after
      = (openedBy anywhere [] after).map (· ++ bracket :: mid) := openedBy_inside hrest mid
  rw [List.nil_append, hafter] at hinside
  obtain ⟨inner, -, rfl⟩ := Option.map_eq_some_iff.mp hinside.symm
  exact List.mem_append_right _ List.mem_cons_self

/-- Where a text closes the outermost bracket, it falls into what stands inside of it and the
rest. -/
theorem split_at_closing {bracket : Char}
    (h : openedBy anywhere (opened ++ [bracket]) text = some []) :
    ∃ inner rest, text = inner ++ closingOf bracket :: rest
      ∧ openedBy anywhere opened inner = some [] ∧ openedBy anywhere [] rest = some [] := by
  induction text generalizing opened with
  | nil =>
    rw [openedBy_nil] at h
    simp at h
  | cons c rest ih =>
    by_cases hc : openedAfter anywhere opened c = none
    · -- Only the closing of the outermost bracket is refused without it.
      rw [openedBy_cons] at h
      obtain ⟨next, hnext, hrest⟩ := Option.bind_eq_some_iff.mp h
      by_cases hclose : c = closingOf bracket
      · have hnil : opened = [] := by
          cases opened with
          | nil => rfl
          | cons first others =>
            have hcloses : closingOf first = closingOf bracket :=
              (openedAfter_cons_closingOf (hclose ▸ hnext)).1
            rw [hclose, ← hcloses, openedAfter_closingOf] at hc
            cases hc
        subst hnil hclose
        rw [List.nil_append, openedAfter_closingOf] at hnext
        rw [← Option.some.inj hnext] at hrest
        exact ⟨[], rest, rfl, rfl, hrest⟩
      · rw [openedAfter_inside hclose, hc] at hnext
        simp at hnext
    · obtain ⟨next, hnext⟩ := Option.ne_none_iff_exists'.mp hc
      rw [openedBy_cons, openedAfter_frame hnext, Option.bind_some] at h
      obtain ⟨inner, more, rfl, hinner, hmore⟩ := ih h
      refine ⟨c :: inner, more, rfl, ?_, hmore⟩
      rw [openedBy_cons, hnext]
      exact hinner

theorem Nested.openedBy (h : Nested text) : openedBy anywhere [] text = some [] := by
  induction h with
  | nil => rfl
  | plain opening closing _ ih =>
    rw [openedBy_cons, openedAfter_plain opening closing (.inl rfl)]
    exact ih
  | @group bracket inner rest opening _ _ ihInner ihRest =>
    have hinner := openedBy_frame ihInner [bracket]
    rw [List.nil_append] at hinner
    rw [openedBy_cons, openedAfter_opening opening, Option.bind_some, openedBy_append, hinner,
      Option.bind_some, openedBy_cons, openedAfter_closingOf, Option.bind_some]
    exact ihRest

/-- A text is nested exactly if no bracket is left open and none is closed that was not the last
one opened. -/
theorem nested_iff : Nested text ↔ openedBy anywhere [] text = some [] := by
  refine ⟨Nested.openedBy, fun h => ?_⟩
  -- The rest after a group is no tail of the text by one character, so the length is what falls.
  induction hn : text.length using Nat.strongRecOn generalizing text with
  | ind n ih =>
    cases text with
    | nil => exact .nil
    | cons c rest =>
      rw [openedBy_cons] at h
      obtain ⟨next, hnext, hrest⟩ := Option.bind_eq_some_iff.mp h
      rw [List.length_cons] at hn
      cases openedAfter_eq_some_iff.mp hnext with
      | opening hopening =>
        rw [← List.nil_append [c]] at hrest
        obtain ⟨inner, more, rfl, hinner, hmore⟩ := split_at_closing hrest
        rw [List.length_append, List.length_cons] at hn
        exact .group hopening (ih _ (by omega) hinner rfl) (ih _ (by omega) hmore rfl)
      | plain hopening hclosing => exact .plain hopening hclosing (ih _ (by omega) hrest rfl)

/-- A nested text inside a bracket leaves the bracket open, whatever may stand outside. -/
theorem Nested.openedBy_below (h : Nested text) (bracket : Char) (outer : List Char) :
    Chain.openedBy outside (bracket :: outer) text = some (bracket :: outer) := by
  induction h generalizing bracket outer with
  | nil => rfl
  | plain opening closing _ ih =>
    rw [openedBy_cons, openedAfter_plain opening closing (.inr (by simp))]
    exact ih bracket outer
  | group opening _ _ ihInner ihRest =>
    rw [openedBy_cons, openedAfter_opening opening, Option.bind_some, openedBy_append,
      ihInner, Option.bind_some, openedBy_cons, openedAfter_closingOf, Option.bind_some]
    exact ihRest bracket outer

/-- A bracket around a nested text is over when it is closed. -/
theorem Nested.openedBy_group (h : Nested text) {bracket : Char}
    (hopening : isOpening bracket = true) (rest : List Char) :
    Chain.openedBy outside opened (bracket :: (text ++ closingOf bracket :: rest))
      = Chain.openedBy outside opened rest := by
  rw [openedBy_cons, openedAfter_opening hopening, Option.bind_some, openedBy_append,
    h.openedBy_below, Option.bind_some, openedBy_cons, openedAfter_closingOf, Option.bind_some]

/-- A nested text that does not close a bracket does not open one of its kind either. -/
theorem Nested.notMem_opening (h : Nested text) {bracket : Char}
    (hopening : isOpening bracket = true) (hclosing : closingOf bracket ∉ text) :
    bracket ∉ text := fun hmem =>
  absurd (mem_openedBy h.openedBy hopening hmem hclosing) List.not_mem_nil

end Chain
end ChainMapping
