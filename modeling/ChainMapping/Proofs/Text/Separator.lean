import Mathlib.Data.List.Infix
import ChainMapping.Text.Search

/-!
# Texts with separators

A separator that does not occur in the parts it stands between lets the parts be told apart again:
at its first occurrence if the part before it is free of it, at its last one if the part after it
is.
-/

namespace ChainMapping
namespace Text

theorem append_mark_inj_left {mark : Char} {xs xs' ys ys' : List Char} (hx : mark ∉ xs)
    (hx' : mark ∉ xs') (h : xs ++ mark :: ys = xs' ++ mark :: ys') : xs = xs' ∧ ys = ys' := by
  induction xs generalizing xs' with
  | nil =>
    cases xs' with
    | nil => simpa using h
    | cons c rest =>
      simp only [List.nil_append, List.cons_append, List.cons.injEq] at h
      exact absurd (h.1 ▸ List.mem_cons_self) hx'
  | cons c rest ih =>
    cases xs' with
    | nil =>
      simp only [List.nil_append, List.cons_append, List.cons.injEq] at h
      exact absurd (h.1 ▸ List.mem_cons_self) hx
    | cons c' rest' =>
      simp only [List.cons_append, List.cons.injEq] at h
      have hrest : mark ∉ rest := fun hmem => hx (List.mem_cons_of_mem _ hmem)
      have hrest' : mark ∉ rest' := fun hmem => hx' (List.mem_cons_of_mem _ hmem)
      obtain ⟨heq, hys⟩ := ih hrest hrest' h.2
      exact ⟨by rw [h.1, heq], hys⟩

theorem append_mark_inj_right {mark : Char} {xs xs' ys ys' : List Char} (hy : mark ∉ ys)
    (hy' : mark ∉ ys') (h : xs ++ mark :: ys = xs' ++ mark :: ys') : xs = xs' ∧ ys = ys' := by
  have hreverse := congrArg List.reverse h
  simp only [List.reverse_append, List.reverse_cons, List.append_assoc, List.cons_append,
    List.nil_append] at hreverse
  obtain ⟨hys, hxs⟩ := append_mark_inj_left (by simpa using hy) (by simpa using hy') hreverse
  exact ⟨List.reverse_inj.mp hxs, List.reverse_inj.mp hys⟩

/-- A number is told by its digits. -/
theorem toString_inj {i j : Nat} (h : toString i = toString j) : i = j := by
  rw [Nat.toString_eq_repr, Nat.toString_eq_repr] at h
  have hdigits := congrArg (Nat.ofDigitChars 10 ·.toList 0) h
  simpa [Nat.toList_repr] using hdigits

theorem splitOnce_eq_none_iff {mark : Char} {cs : List Char} :
    splitOnce mark cs = none ↔ mark ∉ cs := by
  induction cs with
  | nil => simp [splitOnce]
  | cons c rest ih =>
    rw [splitOnce]
    by_cases hc : c = mark
    · simp [hc]
    · simp [hc, ih, Ne.symm hc]

/-- A text is cut at the first mark. -/
theorem splitOnce_eq_some_iff {mark : Char} {cs before after : List Char} :
    splitOnce mark cs = some (before, after) ↔ cs = before ++ mark :: after ∧ mark ∉ before := by
  constructor
  · intro h
    induction cs generalizing before with
    | nil => simp [splitOnce] at h
    | cons c rest ih =>
      rw [splitOnce] at h
      split at h
      next hc =>
        obtain ⟨rfl, rfl⟩ := Prod.mk.inj (Option.some.inj h)
        exact ⟨by rw [hc, List.nil_append], List.not_mem_nil⟩
      next hc =>
        obtain ⟨⟨first, more⟩, hsplit, heq⟩ := Option.map_eq_some_iff.mp h
        obtain ⟨rfl, rfl⟩ := Prod.mk.inj heq
        obtain ⟨rfl, hnotMem⟩ := ih hsplit
        exact ⟨rfl, by simp [hnotMem, Ne.symm hc]⟩
  · rintro ⟨rfl, h⟩
    induction before with
    | nil => simp [splitOnce]
    | cons c rest ih =>
      have hc : c ≠ mark := fun heq => h (heq ▸ List.mem_cons_self)
      rw [List.cons_append, splitOnce, if_neg hc, ih fun hmem => h (List.mem_cons_of_mem _ hmem)]
      rfl

theorem splitAll_ne_nil (mark : Char) (cs : List Char) : splitAll mark cs ≠ [] := by
  cases cs with
  | nil => simp [splitAll]
  | cons c rest =>
    rw [splitAll]
    split
    · simp
    · split <;> simp

theorem splitAll_of_notMem {mark : Char} {cs : List Char} (h : mark ∉ cs) :
    splitAll mark cs = [cs] := by
  induction cs with
  | nil => rfl
  | cons c rest ih =>
    have hc : c ≠ mark := fun heq => h (heq ▸ List.mem_cons_self)
    rw [splitAll, if_neg hc, ih fun hmem => h (List.mem_cons_of_mem _ hmem)]

theorem splitAll_append_mark (mark : Char) (before after : List Char) :
    splitAll mark (before ++ mark :: after) = splitAll mark before ++ splitAll mark after := by
  induction before with
  | nil => simp [splitAll]
  | cons c rest ih =>
    rw [List.cons_append, splitAll, splitAll, ih]
    split
    · rfl
    · obtain ⟨piece, pieces, hpieces⟩ := List.exists_cons_of_ne_nil (splitAll_ne_nil mark rest)
      rw [hpieces]
      rfl

theorem dropSuffix?_eq_some_iff {tail cs rest : List Char} :
    dropSuffix? tail cs = some rest ↔ cs = rest ++ tail := by
  unfold dropSuffix?
  constructor
  · intro h
    split at h
    next hsuffix =>
      have hcs := List.suffix_iff_eq_append.mp (List.isSuffixOf_iff_suffix.mp hsuffix)
      rw [← Option.some.inj h, hcs]
    next => cases h
  · rintro rfl
    rw [if_pos (List.isSuffixOf_iff_suffix.mpr (List.suffix_append rest tail))]
    simp

theorem join_cons_cons (separator first second : String) (rest : List String) :
    join separator (first :: second :: rest)
      = first ++ separator ++ join separator (second :: rest) := String.intercalate_cons_cons

theorem join_singleton (separator text : String) : join separator [text] = text :=
  String.intercalate_singleton

/-- Parts without dots can be told apart after they have been joined with dots. -/
theorem join_dot_inj {parts parts' : List String} (hne : parts ≠ []) (hne' : parts' ≠ [])
    (h : ∀ part ∈ parts, '.' ∉ part.toList) (h' : ∀ part ∈ parts', '.' ∉ part.toList)
    (heq : join "." parts = join "." parts') : parts = parts' := by
  induction parts generalizing parts' with
  | nil => exact absurd rfl hne
  | cons first rest ih =>
    cases parts' with
    | nil => exact absurd rfl hne'
    | cons first' rest' =>
      have hfirst := h first List.mem_cons_self
      have hfirst' := h' first' List.mem_cons_self
      have hlist := congrArg String.toList heq
      cases rest with
      | nil =>
        cases rest' with
        | nil => rw [join_singleton, join_singleton] at heq; rw [heq]
        | cons second' more' =>
          rw [join_singleton, join_cons_cons] at hlist
          simp only [String.toList_append] at hlist
          exact absurd (hlist ▸ (by simp : '.' ∈ _)) hfirst
      | cons second more =>
        cases rest' with
        | nil =>
          rw [join_singleton, join_cons_cons] at hlist
          simp only [String.toList_append] at hlist
          exact absurd (hlist ▸ (by simp : '.' ∈ _)) hfirst'
        | cons second' more' =>
          rw [join_cons_cons, join_cons_cons] at hlist
          simp only [String.toList_append, List.append_assoc] at hlist
          obtain ⟨hhead, htail⟩ := append_mark_inj_left hfirst hfirst' hlist
          have hrest : second :: more = second' :: more' :=
            ih (by simp) (by simp) (fun part hmem => h part (List.mem_cons_of_mem _ hmem))
              (fun part hmem => h' part (List.mem_cons_of_mem _ hmem)) (String.toList_inj.mp htail)
          rw [String.toList_inj.mp hhead, hrest]

end Text
end ChainMapping
