import Mathlib.Data.List.Basic
import ChainMapping.Proofs.Ending
import ChainMapping.Proofs.Ordered
import ChainMapping.Proofs.Text.Characters
import ChainMapping.Proofs.Text.Separator
import ChainMapping.Proofs.Text.Trimming
import ChainMapping.Types.Expression

/-!
# What an expression says about the type it denotes

A name stands for a container, for a scalar or for a type that the caller knows, and is tried as
these in that order.  A type that was read without arguments was written as its name between blanks,
so its name alone reads as the same type again.
-/

namespace ChainMapping
namespace TypeRef

variable {classify : String → Option Kind} {expression name : String} {t : TypeRef}

/-- Letters, digits, underscores and points, and at least one of them. -/
structure IsName (name : String) : Prop where
  nonempty : name ≠ ""
  chars : ∀ c ∈ name.toList, isNameChar c = true

/-- The kind of type that a name stands for. -/
def kindOf? (classify : String → Option Kind) (name : String) : Option Kind :=
  (Kind.ofContainerName? name).orElse fun _ =>
    if Kind.scalarNames.contains name then some .scalar else classify name

theorem isContainer_of_ofContainerName? {kind : Kind} (h : Kind.ofContainerName? name = some kind) :
    kind.isContainer = true := by
  have hall : Kind.containerNames.all (·.2.isContainer) = true := by decide
  exact List.all_eq_true.mp hall (name, kind) (Ordered.mem_of_lookup h)

/-! ## Names -/

theorem bounds_of_isNameChar {c : Char} (h : isNameChar c = true) :
    46 ≤ c.toNat ∧ c.toNat ≤ 122 ∧ c.toNat ≠ 60 ∧ c.toNat ≠ 93 := by
  simp only [isNameChar, Bool.or_eq_true, beq_iff_eq] at h
  rcases h with ((hletter | hdigit) | rfl) | rfl
  · have hletter := Text.bounds_of_isLetter hletter
    omega
  · have hdigit := Text.bounds_of_isDigit hdigit
    omega
  · decide
  · decide

theorem isBlank_of_nameChar {c : Char} (h : isNameChar c = true) : Text.isBlank c = false := by
  have hbounds := bounds_of_isNameChar h
  exact Text.isBlank_of_bounds (by omega) (by omega)

theorem IsName.trim_eq (h : IsName name) : Text.trim name.toList = name.toList :=
  Text.trim_of_noBlank fun c hc => isBlank_of_nameChar (h.chars c hc)

theorem IsName.dropSuffix?_eq (h : IsName name) :
    Text.dropSuffix? ['[', ']'] name.toList = none := by
  rw [Text.dropSuffix?, if_neg]
  intro hsuffix
  have hclosing : ']' ∈ name.toList :=
    (List.isSuffixOf_iff_suffix.mp hsuffix).subset (by simp)
  exact (bounds_of_isNameChar (h.chars ']' hclosing)).2.2.2 rfl

theorem IsName.splitOnce_eq (h : IsName name) : Text.splitOnce '<' name.toList = none := by
  rw [Text.splitOnce_eq_none_iff]
  intro hopening
  exact (bounds_of_isNameChar (h.chars '<' hopening)).2.2.1 rfl

/-! ## Types of names -/

theorem isName_iff : IsName name ↔ (name.isEmpty || !name.toList.all isNameChar) = false := by
  simp only [Bool.or_eq_false_iff, Bool.not_eq_false', List.all_eq_true]
  constructor
  · intro h
    exact ⟨by simpa using h.nonempty, h.chars⟩
  · rintro ⟨hnonempty, hchars⟩
    exact ⟨by simpa using hnonempty, hchars⟩

/-- A type that is written as a name, in front of its arguments if it has any. -/
structure Named (classify : String → Option Kind) (name : String) (args : List TypeRef)
    (t : TypeRef) : Prop where
  isName : IsName name
  kind : kindOf? classify name = some t.kind
  /-- only the name of a container takes arguments, as many as the container holds types -/
  arity : args ≠ [] → Kind.ofContainerName? name = some t.kind ∧ args.length = t.kind.arity
  eq : t = ⟨name, t.kind, args⟩

variable {args : List TypeRef}

theorem named_of_ofName (h : ofName classify expression name args = .ok t) :
    Named classify name args t := by
  unfold ofName at h
  split at h
  next => cases h
  next hname =>
    have hname : IsName name := isName_iff.mpr (by simpa using hname)
    cases hcontainer : Kind.ofContainerName? name with
    | some kind =>
      have hkind : kindOf? classify name = some kind := by rw [kindOf?, hcontainer]; rfl
      simp only [hcontainer] at h
      split_ifs at h with hwrong
      cases h
      refine ⟨hname, hkind, fun hargs => ⟨hcontainer, ?_⟩, rfl⟩
      simpa [hargs] using hwrong
    | none =>
      have hkind : kindOf? classify name
          = if Kind.scalarNames.contains name then some .scalar else classify name := by
        rw [kindOf?, hcontainer, Option.orElse_none]
      simp only [hcontainer] at h
      split_ifs at h with hargs hscalar
      · obtain rfl : args = [] := by simpa using hargs
        cases h
        exact ⟨hname, by rw [hkind, if_pos hscalar], fun hne => absurd rfl hne, rfl⟩
      · obtain rfl : args = [] := by simpa using hargs
        split at h
        next kind hknown =>
          cases h
          exact ⟨hname, by rw [hkind, if_neg hscalar, hknown], fun hne => absurd rfl hne, rfl⟩
        next => cases h

theorem ofName_of_named (h : Named classify name args t) :
    ofName classify expression name args = .ok t := by
  obtain ⟨hname, hkind, harity, ht⟩ := h
  rw [ht]
  unfold ofName
  rw [if_neg (by simpa using isName_iff.mp hname)]
  unfold kindOf? at hkind
  cases hcontainer : Kind.ofContainerName? name with
  | some kind =>
    rw [hcontainer] at hkind
    obtain rfl : kind = t.kind := Option.some.inj hkind
    have hlength : args ≠ [] → args.length = t.kind.arity := fun hargs => (harity hargs).2
    simp only
    rw [if_neg (by simpa using hlength)]
  | none =>
    obtain rfl : args = [] := by
      by_contra hargs
      rw [(harity hargs).1] at hcontainer
      cases hcontainer
    rw [hcontainer, Option.orElse_none] at hkind
    simp only [List.isEmpty_nil, Bool.not_true, Bool.false_eq_true, if_false]
    by_cases hscalar : Kind.scalarNames.contains name = true
    · rw [if_pos hscalar] at hkind ⊢
      rw [Option.some.inj hkind]
    · rw [if_neg hscalar] at hkind ⊢
      rw [hkind]

/-! ## Reading an expression -/

/-- How a type is read from a text, blanks at its ends apart, with the texts that are read for its
parts. -/
inductive Read (classify : String → Option Kind) (text : List Char) : TypeRef → Prop where
  | array {component : List Char} {element : TypeRef}
      (written : Text.trim text = component ++ ['[', ']'])
      (read : parseChars classify component = .ok element) : Read classify text (arrayOf element)
  | generic {before inner : List Char} {name : String} {args : List TypeRef} {t : TypeRef}
      (written : Text.trim text = before ++ '<' :: (inner ++ ['>'])) (first : '<' ∉ before)
      (front : Text.trim before = name.toList)
      (read : List.Forall₂ (fun part arg => parseChars classify part = .ok arg)
        (splitArguments 0 inner) args)
      (named : Named classify name args t) : Read classify text t
  | named {name : String} {t : TypeRef} (written : Text.trim text = name.toList)
      (named : Named classify name [] t) : Read classify text t

theorem splitArguments_ne_nil (depth : Nat) (cs : List Char) : splitArguments depth cs ≠ [] := by
  cases cs with
  | nil => simp [splitArguments]
  | cons c rest =>
    simp only [splitArguments]
    split_ifs <;> (try split) <;> simp

theorem read_of_parse {text : List Char} (h : parseChars classify text = .ok t) :
    Read classify text t := by
  rw [parseChars] at h
  split at h
  next => cases h
  next first others htrim =>
    split at h
    next component hcomponent =>
      obtain ⟨element, helement, heq⟩ := bind_eq_ok h
      cases heq
      exact .array (htrim.trans (Text.dropSuffix?_eq_some_iff.mp hcomponent)) helement
    next =>
      split at h
      next before after hopen =>
        obtain ⟨hwritten, hfirst⟩ := Text.splitOnce_eq_some_iff.mp hopen
        split at h
        next => cases h
        next inner hinner =>
          obtain ⟨args, hargs, hnamed⟩ := bind_eq_ok h
          rw [List.mapM_subtype fun _ _ => rfl, List.unattach_attach] at hargs
          rw [Text.dropSuffix?_eq_some_iff.mp hinner] at hwritten
          exact .generic (htrim.trans hwritten) hfirst String.toList_ofList.symm
            (mapM_eq_ok_iff.mp hargs) (named_of_ofName hnamed)
      next => exact .named (htrim.trans String.toList_ofList.symm) (named_of_ofName h)

theorem parse_of_read {text : List Char} (h : Read classify text t) :
    parseChars classify text = .ok t := by
  rw [parseChars]
  cases h with
  | array written read =>
    split
    next hnil => simp [hnil] at written
    next first others htrim =>
      rw [← htrim, Text.dropSuffix?_eq_some_iff.mpr written]
      simp only [read]
      rfl
  | @generic before inner name args _ written first front read named =>
    split
    next hnil => simp [hnil] at written
    next first' others htrim =>
      have hnone : Text.dropSuffix? ['[', ']'] (Text.trim text) = none := by
        cases hsuffix : Text.dropSuffix? ['[', ']'] (Text.trim text) with
        | none => rfl
        | some rest =>
          have hends : (before ++ '<' :: inner) ++ ['>'] = (rest ++ ['[']) ++ [']'] := by
            simpa [written] using Text.dropSuffix?_eq_some_iff.mp hsuffix
          exact absurd (List.append_inj' hends rfl).2 (by decide)
      rw [← htrim, hnone, Text.splitOnce_eq_some_iff.mpr ⟨written, first⟩]
      simp only
      rw [Text.dropSuffix?_eq_some_iff.mpr rfl]
      simp only
      rw [List.mapM_subtype fun _ _ => rfl, List.unattach_attach, mapM_eq_ok_iff.mpr read, front,
        String.ofList_toList]
      exact ofName_of_named named
  | named written named =>
    rw [written]
    split
    next hnil => exact absurd (String.toList_eq_nil_iff.mp hnil) named.isName.nonempty
    next first others htrim =>
      rw [← htrim, named.isName.dropSuffix?_eq, named.isName.splitOnce_eq, String.ofList_toList]
      exact ofName_of_named named

/-- Every type has a name that could stand alone.  Only a container has arguments, and a type
without them was written as its name. -/
theorem parse_eq_ok (h : parse classify expression = .ok t) :
    IsName t.name ∧ (t.args ≠ [] → t.isContainer = true) ∧ (t.args = [] →
      Text.trim expression.toList = t.name.toList ∧ kindOf? classify t.name = some t.kind) := by
  cases read_of_parse h with
  | array written read =>
    have harray : IsName "Array" := ⟨by decide, List.all_eq_true.mp (by decide)⟩
    exact ⟨harray, fun _ => rfl, fun hargs => by cases hargs⟩
  | @generic before inner name args _ written first front read named =>
    have hsome : args ≠ [] := by
      rintro rfl
      exact splitArguments_ne_nil 0 inner (List.forall₂_nil_right_iff.mp read)
    rw [named.eq]
    exact ⟨named.isName, fun hargs => isContainer_of_ofContainerName? (named.arity hargs).1,
      fun hnil => absurd hnil hsome⟩
  | named written named =>
    rw [named.eq]
    exact ⟨named.isName, fun hne => absurd rfl hne, fun _ => ⟨written, named.kind⟩⟩

/-- A name alone denotes the type without arguments of the kind that it stands for. -/
theorem parse_name_iff (hname : IsName name) :
    parse classify name = .ok t ↔ kindOf? classify name = some t.kind ∧ t = ⟨name, t.kind, []⟩ := by
  constructor
  · intro h
    cases read_of_parse h with
    | array written read =>
      rw [hname.trim_eq] at written
      have hsquare := Text.dropSuffix?_eq_some_iff.mpr written
      rw [hname.dropSuffix?_eq] at hsquare
      cases hsquare
    | generic written first front read named =>
      rw [hname.trim_eq] at written
      have hopening := Text.splitOnce_eq_some_iff.mpr ⟨written, first⟩
      rw [hname.splitOnce_eq] at hopening
      cases hopening
    | named written named =>
      rw [hname.trim_eq, String.toList_inj] at written
      subst written
      exact ⟨named.kind, named.eq⟩
  · rintro ⟨hkind, ht⟩
    exact parse_of_read (.named hname.trim_eq ⟨hname, hkind, fun hne => absurd rfl hne, ht⟩)

end TypeRef
end ChainMapping
