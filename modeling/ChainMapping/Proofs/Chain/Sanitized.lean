import ChainMapping.Chain.Normal
import ChainMapping.Proofs.Chain.Grammar

/-!
# Normal forms of chains seen from outside

Replacing brackets and dropping anchor signs leaves the brackets of a chain nested, so outside of
them its normal form shows what the chain shows: names and separators.  A text that is followed by
a colon and a normal form can therefore be told from it: what stands outside of brackets in the
normal form has no colon, and what stands inside has its closing bracket still to come.
-/

namespace ChainMapping
namespace Chain

variable {outside : Char → Bool} {opened opened' text : List Char}

/-- A bracket that is open after a text was open before or is opened by the text. -/
theorem mem_of_openedAfter {c bracket : Char} (h : openedAfter outside opened c = some opened')
    (hmem : bracket ∈ opened') : bracket ∈ opened ∨ (isOpening bracket = true ∧ bracket = c) := by
  cases openedAfter_eq_some_iff.mp h with
  | opening hopening =>
    rcases List.mem_cons.mp hmem with rfl | hmem
    · exact .inr ⟨hopening, rfl⟩
    · exact .inl hmem
  | closing => exact .inl (List.mem_cons_of_mem _ hmem)
  | plain => exact .inl hmem

theorem mem_of_openedBy {bracket : Char} (h : openedBy outside opened text = some opened')
    (hmem : bracket ∈ opened') :
    bracket ∈ opened ∨ (isOpening bracket = true ∧ bracket ∈ text) := by
  induction text generalizing opened with
  | nil =>
    rw [openedBy_nil] at h
    exact .inl (Option.some.inj h ▸ hmem)
  | cons c rest ih =>
    rw [openedBy_cons] at h
    obtain ⟨next, hnext, hrest⟩ := Option.bind_eq_some_iff.mp h
    rcases ih hrest with hin | ⟨hopening, hin⟩
    · rcases mem_of_openedAfter hnext hin with hin | ⟨hopening, rfl⟩
      · exact .inl hin
      · exact .inr ⟨hopening, List.mem_cons_self⟩
    · exact .inr ⟨hopening, List.mem_cons_of_mem _ hin⟩

/-- A bracket whose kind does not occur inside of it is over when it is closed. -/
theorem openedBy_after_group {bracket : Char} {body rest : List Char}
    (hopening : isOpening bracket = true) (hbody : bracket ∉ body)
    (hclosing : closingOf bracket ∉ body)
    (h : openedBy outside opened (bracket :: (body ++ closingOf bracket :: rest)) = some opened') :
    openedBy outside opened rest = some opened' := by
  rw [openedBy_cons, openedAfter_opening hopening, Option.bind_some, openedBy_append,
    ← List.nil_append (bracket :: opened), openedBy_inside hclosing] at h
  obtain ⟨mid, hmid, hrest⟩ := Option.bind_eq_some_iff.mp h
  obtain ⟨inner, hinner, rfl⟩ := Option.map_eq_some_iff.mp hmid
  rw [openedBy_cons] at hrest
  cases inner with
  | nil =>
    rw [List.nil_append, openedAfter_closingOf, Option.bind_some] at hrest
    exact hrest
  | cons first others =>
    -- Whatever the body leaves open is of another kind, and the closing does not fit it.
    have hfirst := mem_of_openedBy hinner List.mem_cons_self
    simp only [List.not_mem_nil, false_or] at hfirst
    obtain ⟨next, hnext, -⟩ := Option.bind_eq_some_iff.mp hrest
    have hcloses := (openedAfter_cons_closingOf hnext).1
    exact absurd (closingOf_inj hfirst.1 hopening hcloses ▸ hfirst.2) hbody

/-- Dropping characters that are no brackets changes nothing about brackets. -/
theorem openedBy_filter {keep : Char → Bool}
    (hkeep : ∀ c, keep c = false → isOpening c = false ∧ isClosing c = false)
    (h : openedBy outside opened text = some opened') :
    openedBy outside opened (text.filter keep) = some opened' := by
  induction text generalizing opened with
  | nil => exact h
  | cons c rest ih =>
    rw [openedBy_cons] at h
    obtain ⟨next, hnext, hrest⟩ := Option.bind_eq_some_iff.mp h
    cases hc : keep c with
    | true =>
      rw [List.filter_cons_of_pos hc, openedBy_cons, hnext]
      exact ih hrest
    | false =>
      obtain ⟨hopening, hclosing⟩ := hkeep c hc
      rw [List.filter_cons_of_neg (by simp [hc])]
      exact ih (openedAfter_noBracket hopening hclosing hnext ▸ hrest)

/-- What an unfinished bracket has read. -/
def pendingText : Option OpenBracket → List Char
  | none => []
  | some b => b.written

/-- An unfinished bracket has no square bracket inside. -/
def FreeOfSquares (pending : Option OpenBracket) : Prop :=
  ∀ b ∈ pending, '[' ∉ b.body ∧ ']' ∉ b.body

theorem freeOfSquares_none : FreeOfSquares none := fun _ h => nomatch h

theorem freeOfSquares_start : FreeOfSquares (some ⟨[], false⟩) := by
  intro b hb
  cases hb
  exact ⟨List.not_mem_nil, List.not_mem_nil⟩

theorem FreeOfSquares.cons {b : OpenBracket} (h : FreeOfSquares (some b)) {c : Char}
    (hopen : c ≠ '[') (hclose : c ≠ ']') (comma : Bool) :
    FreeOfSquares (some ⟨c :: b.body, comma⟩) := by
  intro b' hb'
  cases hb'
  obtain ⟨hopened, hclosed⟩ := h b rfl
  exact ⟨by simp [Ne.symm hopen, hopened], by simp [Ne.symm hclose, hclosed]⟩

theorem openedBy_star (rest : List Char) :
    openedBy outside opened ("[*]".toList ++ rest) = openedBy outside opened rest :=
  Nested.openedBy_group (.plain rfl rfl .nil) rfl rest

theorem openedBy_starPair (rest : List Char) :
    openedBy outside opened ("[*,*]".toList ++ rest) = openedBy outside opened rest :=
  Nested.openedBy_group (.plain rfl rfl (.plain rfl rfl (.plain rfl rfl .nil))) rfl rest

/-- Replacing brackets leaves the brackets around them as they are. -/
theorem openedBy_starBrackets {pending : Option OpenBracket} (hfree : FreeOfSquares pending)
    (h : openedBy outside opened (pendingText pending ++ text) = some opened') :
    openedBy outside opened (starBrackets pending text) = some opened' := by
  fun_induction starBrackets pending text generalizing opened with
  | case1 => exact h
  | case2 b => rwa [pendingText, List.append_nil] at h
  | case3 rest ih => exact ih freeOfSquares_start h
  | case4 c rest _ ih =>
    rw [pendingText, List.nil_append, openedBy_cons] at h
    obtain ⟨next, hnext, hrest⟩ := Option.bind_eq_some_iff.mp h
    rw [openedBy_cons, hnext]
    exact ih freeOfSquares_none hrest
  | case5 b rest ih =>
    rw [pendingText, openedBy_append] at h
    obtain ⟨next, hnext, hrest⟩ := Option.bind_eq_some_iff.mp h
    rw [openedBy_append, hnext]
    exact ih freeOfSquares_start hrest
  | case6 b rest _ ih =>
    have hgroup : openedBy outside opened ('[' :: (b.body.reverse ++ closingOf '[' :: rest))
        = some opened' := h
    obtain ⟨hopened, hclosed⟩ := hfree b rfl
    have hclosing : closingOf '[' ∉ b.body.reverse := fun hmem =>
      hclosed (List.mem_reverse.mp hmem)
    have hrest := openedBy_after_group rfl (by simpa using hopened) hclosing hgroup
    split
    · rw [openedBy_starPair]
      exact ih freeOfSquares_none hrest
    · rw [openedBy_star]
      exact ih freeOfSquares_none hrest
  | case7 b rest _ _ _ ih =>
    rw [pendingText, openedBy_append] at h
    obtain ⟨next, hnext, hrest⟩ := Option.bind_eq_some_iff.mp h
    rw [openedBy_cons] at hrest
    obtain ⟨after, hafter, hrest⟩ := Option.bind_eq_some_iff.mp hrest
    rw [openedBy_append, hnext, Option.bind_some, openedBy_cons, hafter]
    exact ih freeOfSquares_none hrest
  | case8 b rest _ _ _ ih =>
    refine ih (hfree.cons (by decide) (by decide) true) ?_
    simpa [pendingText, OpenBracket.written] using h
  | case9 b c rest hopen hclose _ ih =>
    refine ih (hfree.cons hopen hclose b.comma) ?_
    simpa [pendingText, OpenBracket.written] using h

/-- Outside of brackets the normal form of a chain shows names and separators only. -/
theorem openedBy_sanitize {text : String} (h : ∃ chain, parse text = .ok chain) :
    openedBy inNames [] (sanitize text).toList = some [] := by
  have hstars := openedBy_starBrackets freeOfSquares_none (openedBy_of_parse h)
  rw [sanitize, String.toList_ofList, sanitizeChars]
  refine openedBy_filter (fun c hc => ?_) hstars
  have hanchor : c = '^' := by simpa using hc
  subst hanchor
  exact ⟨rfl, rfl⟩

/-- A character that may not stand outside of brackets stands in a bracket, and what follows it has
that bracket to close. -/
theorem not_openedBy_after_mark {mark : Char} {before after : List Char}
    (hopening : isOpening mark = false) (hclosing : isClosing mark = false)
    (hmark : outside mark = false)
    (h : openedBy outside [] (before ++ mark :: after) = some []) :
    openedBy outside [] after ≠ some [] := by
  intro hafter
  rw [openedBy_append] at h
  obtain ⟨inside, -, hrest⟩ := Option.bind_eq_some_iff.mp h
  rw [openedBy_cons] at hrest
  cases inside with
  | nil =>
    rw [openedAfter_outside hopening hclosing hmark] at hrest
    cases hrest
  | cons bracket outer =>
    have hframe := openedBy_frame hafter (bracket :: outer)
    rw [openedAfter_plain hopening hclosing (.inr (by simp)), Option.bind_some] at hrest
    rw [List.nil_append, hrest] at hframe
    simp at hframe

end Chain
end ChainMapping
