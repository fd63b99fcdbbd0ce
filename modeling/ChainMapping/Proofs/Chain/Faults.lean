import Mathlib.Data.List.Induction
import Mathlib.Tactic.ByContra
import ChainMapping.Proofs.Chain.Nesting
import ChainMapping.Text.Bytes

/-!
# Faults of nesting

A text whose brackets do not nest has one first fault.  From left to right it is the first closing
bracket that does not belong to the innermost bracket open before it.  If all of them do, then some
bracket is never closed, and the fault is the outermost of these.

`Opened` is the stack again, now with the places of the brackets in the text: it is what a reader
that goes through a text once can know about it.
-/

namespace ChainMapping
namespace Chain

/-- The last bracket of a text that is still open at its end. -/
def Innermost (text : List Char) (bracket : Char) : Prop :=
  ∃ outer inner, text = outer ++ bracket :: inner ∧ isOpening bracket = true ∧ Nested inner

/-- After `before`, the closing bracket `c` is of another kind than the innermost open bracket, or
no bracket is open. -/
def Misplaced (before : List Char) (c : Char) : Prop :=
  isClosing c = true ∧ ∀ bracket, Innermost before bracket → closingOf bracket ≠ c

/-- Each closing bracket of a text closes the innermost bracket before it. -/
def Fitting (text : List Char) : Prop :=
  ∀ before c after, text = before ++ c :: after → ¬Misplaced before c

/-- The first fault of a text is the bracket `delimiter` after `before`. -/
inductive Fault (text before : List Char) (delimiter : Char) : Prop where
  | closing {after : List Char} (written : text = before ++ delimiter :: after)
      (misplaced : Misplaced before delimiter) (first : Fitting before)
  | unclosed {after : List Char} (written : text = before ++ delimiter :: after)
      (fitting : Fitting text) (opening : isOpening delimiter = true) (outermost : Nested before)
      (unclosed : ∀ inner rest, after = inner ++ closingOf delimiter :: rest → ¬Nested inner)

/-- The brackets that a text leaves open, innermost first, and where they stand in it. -/
inductive Opened : List Char → List (Char × Nat) → Prop where
  | closed {inner : List Char} (inside : Nested inner) : Opened inner []
  | more {outer inner : List Char} {bracket : Char} {opened : List (Char × Nat)}
      (further : Opened outer opened) (opening : isOpening bracket = true)
      (inside : Nested inner) :
      Opened (outer ++ bracket :: inner) ((bracket, Text.byteLength outer) :: opened)

variable {text before before' after : List Char} {opened : List (Char × Nat)} {c c' : Char}

theorem Nested.append (h : Nested text) (h' : Nested after) : Nested (text ++ after) := by
  rw [nested_iff, openedBy_append, h.openedBy]
  exact h'.openedBy

/-! ## Two places in a text -/

/-- Of two places in a text one is the other, or comes before it. -/
theorem split_cases {after' : List Char} (h : before ++ c :: after = before' ++ c' :: after') :
    (before = before' ∧ c = c') ∨ (∃ more, before' = before ++ c :: more)
      ∨ ∃ more, before = before' ++ c' :: more := by
  rcases List.append_eq_append_iff.mp h with ⟨more, hbefore, hmore⟩ | ⟨more, hbefore, hmore⟩
  · cases more with
    | nil => exact .inl ⟨by simpa using hbefore.symm, (List.cons.inj hmore).1⟩
    | cons first others =>
      obtain rfl : c = first := (List.cons.inj hmore).1
      exact .inr (.inl ⟨others, hbefore⟩)
  · cases more with
    | nil => exact .inl ⟨by simpa using hbefore, (List.cons.inj hmore).1.symm⟩
    | cons first others =>
      obtain rfl : c' = first := (List.cons.inj hmore).1
      exact .inr (.inr ⟨others, hbefore⟩)

theorem concat_cases (h : text ++ [c] = before ++ c' :: after) :
    (text = before ∧ c = c') ∨ ∃ more, text = before ++ c' :: more := by
  rcases List.eq_nil_or_concat after with rfl | ⟨more, last, rfl⟩
  · obtain ⟨rfl, hlast⟩ := List.append_inj' h rfl
    exact .inl ⟨rfl, by simpa using hlast⟩
  · have hsplit : text ++ [c] = (before ++ c' :: more) ++ [last] := by simpa using h
    exact .inr ⟨more, (List.append_inj' hsplit rfl).1⟩

/-! ## The stack with places -/

theorem Opened.nested (h : Opened text []) : Nested text := by
  cases h with
  | closed inside => exact inside

/-- A nested text leaves the same brackets open as there were before it. -/
theorem Opened.append (h : Opened text opened) (hafter : Nested after) :
    Opened (text ++ after) opened := by
  cases h with
  | closed inside => exact .closed (inside.append hafter)
  | more further opening inside =>
    rw [List.append_assoc, List.cons_append]
    exact .more further opening (inside.append hafter)

theorem Opened.opening (h : Opened text opened) (hc : isOpening c = true) :
    Opened (text ++ [c]) ((c, Text.byteLength text) :: opened) :=
  .more h hc .nil

/-- The innermost bracket and the one that closes it make a nested text with what is between. -/
theorem Opened.closing {bracket : Char} {place : Nat}
    (h : Opened text ((bracket, place) :: opened)) :
    Opened (text ++ [closingOf bracket]) opened := by
  cases h with
  | more further opening inside =>
    rw [List.append_assoc, List.cons_append]
    exact further.append (.group opening inside .nil)

theorem Opened.plain (h : Opened text opened) (hopening : isOpening c = false)
    (hclosing : isClosing c = false) : Opened (text ++ [c]) opened :=
  h.append (.plain hopening hclosing .nil)

theorem Opened.openedBy (h : Opened text opened) :
    Chain.openedBy anywhere [] text = some (opened.map Prod.fst) := by
  induction h with
  | closed inside => exact inside.openedBy
  | more further opening inside ih =>
    rw [openedBy_append, ih, Option.bind_some, openedBy_cons, openedAfter_opening opening,
      Option.bind_some]
    exact inside.openedBy_below _ _

theorem opened_of_openedBy {stack : List Char} (h : openedBy anywhere [] text = some stack) :
    ∃ opened, Opened text opened ∧ opened.map Prod.fst = stack := by
  -- By the last character: the stack is about the text that has been read.
  induction text using List.reverseRecOn generalizing stack with
  | nil => exact ⟨[], .closed .nil, Option.some.inj h⟩
  | append_singleton text c ih =>
    rw [openedBy_append] at h
    obtain ⟨mid, hmid, hc⟩ := Option.bind_eq_some_iff.mp h
    rw [openedBy_cons] at hc
    obtain ⟨next, hnext, heq⟩ := Option.bind_eq_some_iff.mp hc
    obtain rfl : next = stack := Option.some.inj heq
    obtain ⟨opened, hopened, rfl⟩ := ih hmid
    generalize hstack : opened.map Prod.fst = stack at hnext
    cases openedAfter_eq_some_iff.mp hnext with
    | opening hopening => exact ⟨_, hopened.opening hopening, congrArg (c :: ·) hstack⟩
    | closing hcloses =>
      obtain ⟨entry, outer, rfl, rfl, rfl⟩ := List.map_eq_cons_iff.mp hstack
      exact ⟨outer, hcloses ▸ hopened.closing, rfl⟩
    | plain hopening hclosing => exact ⟨opened, hopened.plain hopening hclosing, hstack⟩

theorem Opened.innermost_iff (h : Opened text opened) {bracket : Char} :
    Innermost text bracket ↔ (opened.map Prod.fst).head? = some bracket := by
  constructor
  · rintro ⟨outer, inner, rfl, hopening, hinner⟩
    have hall := h.openedBy
    rw [openedBy_append] at hall
    obtain ⟨stack, -, hstack⟩ := Option.bind_eq_some_iff.mp hall
    rw [openedBy_cons, openedAfter_opening hopening, Option.bind_some,
      hinner.openedBy_below] at hstack
    rw [← Option.some.inj hstack]
    rfl
  · intro hhead
    cases h with
    | closed inside => simp at hhead
    | more further opening inside =>
      obtain rfl := Option.some.inj hhead
      exact ⟨_, _, rfl, opening, inside⟩

theorem Opened.misplaced_iff (h : Opened before opened) :
    Misplaced before c ↔ openedAfter anywhere (opened.map Prod.fst) c = none := by
  simp only [Misplaced, h.innermost_iff, openedAfter, anywhere, Bool.not_true, Bool.and_false,
    Bool.false_eq_true, if_false]
  by_cases hclosing : isClosing c = true
  · rw [isOpening_of_isClosing hclosing]
    cases opened with
    | nil => simp [hclosing]
    | cons entry outer => simp [hclosing]
  · rw [if_neg hclosing]
    simp only [hclosing, Bool.false_eq_true, false_and, false_iff]
    split <;> simp

/-- The outermost open bracket stands after a nested text, and nothing beyond it closes it. -/
theorem Opened.outermost (h : Opened text opened) {bracket : Char} {place : Nat}
    (hlast : opened.getLast? = some (bracket, place)) :
    ∃ before after stack, text = before ++ bracket :: after ∧ Nested before
      ∧ place = Text.byteLength before ∧ isOpening bracket = true
      ∧ Chain.openedBy anywhere [] after = some stack := by
  induction h with
  | closed inside => simp at hlast
  | @more outer inner first opened further opening inside ih =>
    cases opened with
    | nil =>
      rw [List.getLast?_singleton, Option.some.injEq, Prod.mk.injEq] at hlast
      obtain ⟨rfl, rfl⟩ := hlast
      exact ⟨outer, inner, [], rfl, further.nested, rfl, opening, inside.openedBy⟩
    | cons entry others =>
      rw [List.getLast?_cons_cons] at hlast
      obtain ⟨before, after, stack, rfl, hbefore, hplace, hbracket, hstack⟩ := ih hlast
      refine ⟨before, after ++ first :: inner, first :: stack, by simp, hbefore, hplace, hbracket,
        ?_⟩
      rw [openedBy_append, hstack, Option.bind_some, openedBy_cons, openedAfter_opening opening]
      exact inside.openedBy_below _ _

/-! ## Texts without a misplaced bracket -/

theorem fitting_concat : Fitting (text ++ [c]) ↔ Fitting text ∧ ¬Misplaced text c := by
  constructor
  · intro h
    exact ⟨fun before c' after heq => h before c' (after ++ [c]) (by simp [heq]),
      h text c [] rfl⟩
  · rintro ⟨htext, hc⟩ before c' after heq
    rcases concat_cases heq with ⟨rfl, rfl⟩ | ⟨more, hmore⟩
    · exact hc
    · exact htext before c' more hmore

/-- No bracket is misplaced exactly if the stack takes the whole text. -/
theorem fitting_iff : Fitting text ↔ ∃ opened, Opened text opened := by
  induction text using List.reverseRecOn with
  | nil => exact ⟨fun _ => ⟨[], .closed .nil⟩, fun _ before c after h => by simp at h⟩
  | append_singleton text c ih =>
    rw [fitting_concat, ih]
    constructor
    · rintro ⟨⟨opened, hopened⟩, hc⟩
      obtain ⟨stack, hstack⟩ := Option.ne_none_iff_exists'.mp (mt hopened.misplaced_iff.mpr hc)
      have hall : openedBy anywhere [] (text ++ [c]) = some stack := by
        rw [openedBy_append, hopened.openedBy, Option.bind_some, openedBy_cons, hstack]
        rfl
      obtain ⟨opened', hopened', -⟩ := opened_of_openedBy hall
      exact ⟨opened', hopened'⟩
    · rintro ⟨opened, hopened⟩
      have hall := hopened.openedBy
      rw [openedBy_append] at hall
      obtain ⟨mid, hmid, hc⟩ := Option.bind_eq_some_iff.mp hall
      obtain ⟨opened', hopened', rfl⟩ := opened_of_openedBy hmid
      refine ⟨⟨opened', hopened'⟩, fun hmisplaced => ?_⟩
      rw [openedBy_cons, hopened'.misplaced_iff.mp hmisplaced] at hc
      simp at hc

theorem Nested.fitting (h : Nested text) : Fitting text :=
  fitting_iff.mpr ⟨[], .closed h⟩

theorem exists_first_misplaced (h : ¬Fitting text) :
    ∃ before c after, text = before ++ c :: after ∧ Misplaced before c ∧ Fitting before := by
  induction text using List.reverseRecOn with
  | nil => exact absurd Nested.nil.fitting h
  | append_singleton text c ih =>
    by_cases htext : Fitting text
    · have hc : Misplaced text c := by
        by_contra hc
        exact h (fitting_concat.mpr ⟨htext, hc⟩)
      exact ⟨text, c, [], rfl, hc, htext⟩
    · obtain ⟨before, c', after, rfl, hmisplaced, hfitting⟩ := ih htext
      exact ⟨before, c', after ++ [c], by simp, hmisplaced, hfitting⟩

/-! ## The first fault -/

theorem Fault.written (h : Fault text before c) : ∃ after, text = before ++ c :: after := by
  cases h with
  | closing written => exact ⟨_, written⟩
  | unclosed written => exact ⟨_, written⟩

theorem Fault.isBracket (h : Fault text before c) : isOpening c = true ∨ isClosing c = true := by
  cases h with
  | closing _ misplaced => exact .inr misplaced.1
  | unclosed _ _ opening => exact .inl opening

/-- A text that goes beyond a fault does not nest. -/
theorem Fault.not_nested {more rest : List Char} (h : Fault text before c)
    (htext : text = (before ++ c :: more) ++ rest) : ¬Nested (before ++ c :: more) := by
  intro hnested
  cases h with
  | closing _ misplaced => exact hnested.fitting before c more rfl misplaced
  | @unclosed after written _ opening outermost unclosed =>
    -- The bracket is outermost, so a nested text beyond it would have to close it.
    have hopen := hnested.openedBy
    rw [openedBy_append, outermost.openedBy, Option.bind_some, openedBy_cons,
      openedAfter_opening opening, Option.bind_some, ← List.nil_append [c]] at hopen
    obtain ⟨inner, more', rfl, hinner, -⟩ := split_at_closing hopen
    have hafter : after = inner ++ closingOf c :: (more' ++ rest) := by
      rw [htext] at written
      simpa using written.symm
    exact unclosed inner _ hafter (nested_iff.mpr hinner)

theorem Fault.not_beyond {more : List Char} (h : Fault text before c)
    (h' : Fault text before' c') : before' ≠ before ++ c :: more := by
  rintro rfl
  cases h' with
  | closing written misplaced' first =>
    cases h with
    | closing _ misplaced => exact first before c more rfl misplaced
    | unclosed _ fitting => exact fitting _ c' _ written misplaced'
  | unclosed written fitting _ outermost =>
    exact h.not_nested written outermost

theorem Fault.unique (h : Fault text before c) (h' : Fault text before' c') :
    before = before' ∧ c = c' := by
  obtain ⟨after, hafter⟩ := h.written
  obtain ⟨after', hafter'⟩ := h'.written
  rcases split_cases (hafter.symm.trans hafter') with hsame | ⟨more, hbeyond⟩ | ⟨more, hbeyond⟩
  · exact hsame
  · exact absurd hbeyond (h.not_beyond h')
  · exact absurd hbeyond (h'.not_beyond h)

/-- The outermost bracket that is left open is a fault if no bracket is misplaced. -/
theorem Opened.fault (h : Opened text opened) {bracket : Char} {place : Nat}
    (hlast : opened.getLast? = some (bracket, place)) :
    ∃ before, Fault text before bracket ∧ place = Text.byteLength before := by
  obtain ⟨before, after, stack, htext, hbefore, hplace, hopening, hstack⟩ := h.outermost hlast
  have hunclosed (inner rest : List Char) (hafter : after = inner ++ closingOf bracket :: rest) :
      ¬Nested inner := by
    intro hinner
    rw [hafter, openedBy_append, hinner.openedBy, Option.bind_some, openedBy_cons] at hstack
    rw [openedAfter_misplaced (isClosing_closingOf bracket) (by simp)] at hstack
    cases hstack
  exact ⟨before, .unclosed htext (fitting_iff.mpr ⟨opened, h⟩) hopening hbefore hunclosed, hplace⟩

/-- The texts with a fault are those whose brackets do not nest. -/
theorem exists_fault_iff : (∃ before c, Fault text before c) ↔ ¬Nested text := by
  constructor
  · rintro ⟨before, c, h⟩
    obtain ⟨after, htext⟩ := h.written
    rw [htext]
    exact h.not_nested (by rw [List.append_nil, htext])
  · intro h
    by_cases hfitting : Fitting text
    · obtain ⟨opened, hopened⟩ := fitting_iff.mp hfitting
      cases hlast : opened.getLast? with
      | none =>
        rw [List.getLast?_eq_none_iff.mp hlast] at hopened
        exact absurd hopened.nested h
      | some entry =>
        obtain ⟨before, hfault, -⟩ := hopened.fault hlast
        exact ⟨before, entry.1, hfault⟩
    · obtain ⟨before, c, after, htext, hmisplaced, hfirst⟩ := exists_first_misplaced hfitting
      exact ⟨before, c, .closing htext hmisplaced hfirst⟩

end Chain
end ChainMapping
