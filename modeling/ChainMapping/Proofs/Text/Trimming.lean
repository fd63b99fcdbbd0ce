import Mathlib.Data.List.TakeWhile
import ChainMapping.Text.Blank

/-!
# Blanks at the ends of a text

A text is what is left of it after trimming, between blanks.  More blanks at either end make no
difference, and nothing is left of a text exactly if it is blank.
-/

namespace ChainMapping
namespace Text

theorem isAllBlank_append (a b : List Char) :
    isAllBlank (a ++ b) = (isAllBlank a && isAllBlank b) := List.all_append

theorem isAllBlank_reverse (cs : List Char) : isAllBlank cs.reverse = isAllBlank cs :=
  List.all_reverse

theorem dropWhile_of_isAllBlank {cs : List Char} (h : isAllBlank cs = true) :
    cs.dropWhile isBlank = [] :=
  List.dropWhile_eq_nil_iff.mpr (List.all_eq_true.mp h)

theorem trimLeft_blank_append {blanks : List Char} (h : isAllBlank blanks = true)
    (cs : List Char) : trimLeft (blanks ++ cs) = trimLeft cs := by
  rw [trimLeft, trimLeft, List.dropWhile_append, dropWhile_of_isAllBlank h]
  rfl

theorem trimRight_append_blank {blanks : List Char} (h : isAllBlank blanks = true)
    (cs : List Char) : trimRight (cs ++ blanks) = trimRight cs := by
  rw [← isAllBlank_reverse] at h
  rw [trimRight, trimRight, List.reverse_append, List.dropWhile_append, dropWhile_of_isAllBlank h]
  rfl

theorem trim_blank_append {blanks : List Char} (h : isAllBlank blanks = true) (cs : List Char) :
    trim (blanks ++ cs) = trim cs := by
  rw [trim, trim, trimLeft_blank_append h]

theorem trim_append_blank {blanks : List Char} (h : isAllBlank blanks = true) (cs : List Char) :
    trim (cs ++ blanks) = trim cs := by
  rw [trim, trim, trimLeft, trimLeft, List.dropWhile_append]
  split
  · next hempty =>
    rw [dropWhile_of_isAllBlank h, List.isEmpty_iff.mp hempty]
  · exact trimRight_append_blank h _

/-- Blanks are only taken off before the first character that is none. -/
theorem trimLeft_append_cons {c : Char} (hc : isBlank c = false) (cs rest : List Char) :
    trimLeft (cs ++ c :: rest) = trimLeft cs ++ c :: rest := by
  rw [trimLeft, trimLeft, List.dropWhile_append]
  split
  · next hempty =>
    rw [List.isEmpty_iff.mp hempty, List.dropWhile_cons_of_neg (by simp [hc])]
    rfl
  · rfl

theorem trimRight_concat {c : Char} (hc : isBlank c = false) (cs : List Char) :
    trimRight (cs ++ [c]) = cs ++ [c] := by
  rw [trimRight, List.reverse_concat, List.dropWhile_cons_of_neg (by simp [hc]),
    ← List.reverse_concat, List.reverse_reverse]

/-- What stands from a character that is no blank to another one at the end is kept. -/
theorem trim_frame {c d : Char} (hc : isBlank c = false) (hd : isBlank d = false)
    (cs inner : List Char) :
    trim (cs ++ c :: (inner ++ [d])) = trimLeft cs ++ c :: (inner ++ [d]) := by
  rw [trim, trimLeft_append_cons hc, ← List.cons_append, ← List.append_assoc, trimRight_concat hd]

theorem exists_trimLeft (cs : List Char) :
    ∃ blanks, isAllBlank blanks = true ∧ cs = blanks ++ trimLeft cs :=
  ⟨cs.takeWhile isBlank, List.all_takeWhile, List.takeWhile_append_dropWhile.symm⟩

theorem trim_trimLeft (cs : List Char) : trim (trimLeft cs) = trim cs := by
  obtain ⟨blanks, hblanks, hcs⟩ := exists_trimLeft cs
  calc trim (trimLeft cs) = trim (blanks ++ trimLeft cs) := (trim_blank_append hblanks _).symm
    _ = trim cs := by rw [← hcs]

theorem exists_trimRight (cs : List Char) :
    ∃ blanks, isAllBlank blanks = true ∧ cs = trimRight cs ++ blanks := by
  obtain ⟨blanks, hblanks, heq⟩ := exists_trimLeft cs.reverse
  refine ⟨blanks.reverse, by rw [isAllBlank_reverse]; exact hblanks, ?_⟩
  have hreverse := congrArg List.reverse heq
  rwa [List.reverse_reverse, List.reverse_append] at hreverse

/-- A text is its trimmed form between blanks. -/
theorem exists_trim (cs : List Char) :
    ∃ before after, isAllBlank before = true ∧ isAllBlank after = true
      ∧ cs = before ++ (trim cs ++ after) := by
  obtain ⟨before, hbefore, hcs⟩ := exists_trimLeft cs
  obtain ⟨after, hafter, hleft⟩ := exists_trimRight (trimLeft cs)
  refine ⟨before, after, hbefore, hafter, ?_⟩
  rw [trim, ← hleft]
  exact hcs

theorem trim_eq_nil_iff {cs : List Char} : trim cs = [] ↔ isAllBlank cs = true := by
  constructor
  · intro h
    obtain ⟨before, after, hbefore, hafter, hcs⟩ := exists_trim cs
    rw [hcs, h, isAllBlank_append, isAllBlank_append, hbefore, hafter]
    rfl
  · intro h
    rw [trim, trimLeft, dropWhile_of_isAllBlank h]
    rfl

theorem trim_of_noBlank {cs : List Char} (h : ∀ c ∈ cs, isBlank c = false) : trim cs = cs := by
  have hleft {l : List Char} (hl : ∀ c ∈ l, isBlank c = false) : l.dropWhile isBlank = l := by
    cases l with
    | nil => rfl
    | cons c rest => exact List.dropWhile_cons_of_neg (by simp [hl c List.mem_cons_self])
  rw [trim, trimLeft, hleft h, trimRight, hleft fun c hc => h c (List.mem_reverse.mp hc),
    List.reverse_reverse]

/-- A character that is no blank is in a text exactly if trimming leaves it. -/
theorem mem_trim_iff {c : Char} (hc : isBlank c = false) {cs : List Char} :
    c ∈ trim cs ↔ c ∈ cs := by
  obtain ⟨before, after, hbefore, hafter, hcs⟩ := exists_trim cs
  have hnot {blanks : List Char} (h : isAllBlank blanks = true) : c ∉ blanks := fun hmem => by
    rw [List.all_eq_true.mp h c hmem] at hc
    exact absurd hc (by simp)
  constructor
  · intro hmem
    rw [hcs]
    exact List.mem_append_right _ (List.mem_append_left _ hmem)
  · intro hmem
    rw [hcs, List.mem_append, List.mem_append] at hmem
    rcases hmem with hmem | hmem | hmem
    · exact absurd hmem (hnot hbefore)
    · exact hmem
    · exact absurd hmem (hnot hafter)

end Text
end ChainMapping
