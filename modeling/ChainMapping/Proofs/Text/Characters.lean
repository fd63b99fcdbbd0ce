import Mathlib.Data.List.Induction
import Mathlib.Data.Nat.Digits.Defs
import ChainMapping.Text.Blank
import ChainMapping.Text.Search

/-!
# Letters, digits and the numbers they write

Letters and digits are told by their codes, and so are blanks.

Digits are read from the left, each ten times what is right of it.  Zeros in front make no
difference, and nothing else can be changed without changing the number: two runs of digits write
the same number exactly if they agree from the first digit that is not zero.
-/

namespace ChainMapping
namespace Text

/-! ## Codes -/

variable {c : Char}

theorem bounds_of_isDigit (h : isDigit c = true) : 48 ≤ c.toNat ∧ c.toNat ≤ 57 := by
  simpa only [isDigit, Bool.and_eq_true, decide_eq_true_eq, Char.le_def, UInt32.le_iff_toNat_le,
    Char.reduceVal, UInt32.reduceToNat, Char.toNat_val] using h

theorem bounds_of_isLetter (h : isLetter c = true) :
    97 ≤ c.toNat ∧ c.toNat ≤ 122 ∨ 65 ≤ c.toNat ∧ c.toNat ≤ 90 := by
  simpa only [isLetter, Bool.or_eq_true, Bool.and_eq_true, decide_eq_true_eq, Char.le_def,
    UInt32.le_iff_toNat_le, Char.reduceVal, UInt32.reduceToNat, Char.toNat_val] using h

theorem isBlank_of_bounds (hlow : 33 ≤ c.toNat) (hhigh : c.toNat ≤ 122) : isBlank c = false := by
  simp only [isBlank, Bool.or_eq_false_iff, Bool.and_eq_false_iff, decide_eq_false_iff_not,
    beq_eq_false_iff_ne]
  omega

/-! ## Numbers -/

/-- The digits from the first that is not zero. -/
def significant (cs : List Char) : List Char := cs.dropWhile (· == '0')

def digit (c : Char) : Nat := c.toNat - '0'.toNat

theorem ofNat_digit (h : isDigit c = true) : Char.ofNat (digit c + 48) = c := by
  have hbounds := bounds_of_isDigit h
  have hcode : digit c + 48 = c.toNat := by
    show c.toNat - 48 + 48 = c.toNat
    omega
  rw [hcode, Char.ofNat_toNat]

theorem digitsValue_eq_ofDigits (cs : List Char) :
    digitsValue cs = Nat.ofDigits 10 (cs.reverse.map digit) := by
  induction cs using List.reverseRecOn with
  | nil => rfl
  | append_singleton cs c ih =>
    rw [List.reverse_append, List.reverse_singleton, List.singleton_append, List.map_cons,
      Nat.ofDigits_cons, ← ih, digitsValue, List.foldl_append]
    show 10 * digitsValue cs + digit c = digit c + 10 * digitsValue cs
    omega

theorem digitsValue_significant (cs : List Char) :
    digitsValue (significant cs) = digitsValue cs := by
  induction cs with
  | nil => rfl
  | cons c rest ih =>
    rw [significant, List.dropWhile_cons]
    split
    next hzero =>
      rw [beq_iff_eq.mp hzero]
      exact ih
    next => rfl

theorem all_significant {cs : List Char} (h : cs.all isDigit = true) :
    (significant cs).all isDigit = true :=
  List.all_eq_true.mpr fun c hc =>
    List.all_eq_true.mp h c ((List.dropWhile_sublist _).subset hc)

theorem map_ofNat_digit {cs : List Char} (h : cs.all isDigit = true) :
    (cs.map digit).map (fun n => Char.ofNat (n + 48)) = cs := by
  rw [List.map_map]
  refine (List.map_congr_left fun c hc => ?_).trans (List.map_id cs)
  exact ofNat_digit (List.all_eq_true.mp h c hc)

/-- The digits of a number are those that write it, without zeros in front. -/
theorem digits_digitsValue {cs : List Char} (h : cs.all isDigit = true) :
    Nat.digits 10 (digitsValue cs) = (significant cs).reverse.map digit := by
  rw [← digitsValue_significant, digitsValue_eq_ofDigits]
  have hall := List.all_eq_true.mp (all_significant h)
  refine Nat.digits_ofDigits 10 (by decide) _ (fun n hn => ?_) fun hne => ?_
  · obtain ⟨c, hc, rfl⟩ := List.mem_map.mp hn
    have hbounds := bounds_of_isDigit (hall c (List.mem_reverse.mp hc))
    show c.toNat - 48 < 10
    omega
  · have hsome : significant cs ≠ [] := by
      rintro hnil
      rw [hnil] at hne
      exact hne rfl
    rw [List.getLast_map, List.getLast_reverse]
    intro hzero
    have hfirst : (significant cs).head hsome ≠ '0' :=
      beq_eq_false_iff_ne.mp (List.head_dropWhile_not (· == '0') hsome)
    have hdigit := ofNat_digit (hall _ (List.head_mem hsome))
    rw [hzero] at hdigit
    exact hfirst hdigit.symm

theorem digitsValue_eq_iff {cs ds : List Char} (hcs : cs.all isDigit = true)
    (hds : ds.all isDigit = true) :
    digitsValue cs = digitsValue ds ↔ significant cs = significant ds := by
  refine ⟨fun h => ?_, fun h => ?_⟩
  · have hdigits : (significant cs).reverse.map digit = (significant ds).reverse.map digit := by
      rw [← digits_digitsValue hcs, ← digits_digitsValue hds, h]
    have hchars := congrArg (List.map fun n => Char.ofNat (n + 48)) hdigits
    rw [map_ofNat_digit, map_ofNat_digit] at hchars
    · exact List.reverse_inj.mp hchars
    · rw [List.all_reverse]; exact all_significant hds
    · rw [List.all_reverse]; exact all_significant hcs
  · rw [← digitsValue_significant cs, h, digitsValue_significant]

theorem significant_eq_nil_iff {cs : List Char} (h : cs.all isDigit = true) :
    significant cs = [] ↔ digitsValue cs = 0 :=
  (digitsValue_eq_iff h (List.all_nil (f := isDigit))).symm

end Text
end ChainMapping
