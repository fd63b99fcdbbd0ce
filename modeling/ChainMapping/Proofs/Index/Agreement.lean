import ChainMapping.Proofs.Index.Walk
import ChainMapping.Proofs.Text.Separator

/-!
# Chains agree about values

Two chains of a tree never disagree about a value.  The id of a position spells the names that lead
to its container, so levels with the same id read the same fields, and where they go on from the
same side they start from the same node of the tree again.
-/

namespace ChainMapping
namespace Index

variable {store : Store} {v : Value}

/-- Levels with the same id read the same fields, and go on alike from the same side. -/
def Agree : List ChainLevel → List ChainLevel → Prop
  | l :: rest, l' :: rest' =>
    l.key = l'.key → l.fields = l'.fields ∧ (l.side = l'.side → Agree rest rest')
  | _, _ => True

theorem agree_nil_right (levels : List ChainLevel) : Agree levels [] := by
  cases levels <;> trivial

/-- Two chains that agree keep the same value where both keep one. -/
theorem Kept.unique {levels levels' : List ChainLevel} (hagree : Agree levels levels')
    {path : List String} {w w' : Value} (h : Kept store levels v path w)
    (h' : Kept store levels' v path w') : w = w' := by
  induction levels generalizing levels' v path w w' with
  | nil => cases h
  | cons level rest ih =>
    cases levels' with
    | nil => cases h'
    | cons level' rest' =>
      cases path with
      | nil => exact absurd rfl h.ne_nil
      | cons key tail =>
        have hkey := h.key_eq
        subst hkey
        obtain ⟨hfields, hnext⟩ := hagree h'.key_eq
        rw [h'.key_eq] at h'
        obtain ⟨container, hread⟩ : ∃ container,
            store.readAlong level.fields v = .ok (some container) := by
          cases h <;> exact ⟨_, ‹_›⟩
        have hread' := hfields ▸ hread
        cases tail with
        | nil => rw [((kept_position_iff hread).mp h).1, ((kept_position_iff hread').mp h').1]
        | cons id tail =>
          obtain ⟨side, u, place, -, hkept⟩ := (kept_below_iff hread).mp h
          obtain ⟨side', u', place', -, hkept'⟩ := (kept_below_iff hread').mp h'
          obtain ⟨rfl, rfl⟩ := place.unique place'
          rcases hkept with ⟨rfl, rfl, -⟩ | ⟨hside, hkept⟩
          · rcases hkept' with ⟨-, rfl, -⟩ | ⟨-, hkept'⟩
            · rfl
            · exact absurd rfl hkept'.ne_nil
          · rcases hkept' with ⟨rfl, -, -⟩ | ⟨hside', hkept'⟩
            · exact absurd rfl hkept.ne_nil
            · exact ih (hnext (hside.symm.trans hside')) hkept hkept'

end Index

namespace ChainLevel

theorem key_afterField {l : ChainLevel} (h : l.names ≠ []) (name : String) (field : FieldType) :
    (l.afterField name field).key = name ++ "." ++ l.key := by
  obtain ⟨first, more, hnames⟩ := List.exists_cons_of_ne_nil h
  rw [key, key, afterField, hnames, Text.join_cons_cons]
  simp only [String.append_assoc]

theorem takeWhile_key {l : ChainLevel} {name : String} {more : List String}
    (hnames : l.names = name :: more) (hname : Chain.IsName name) :
    l.key.toList.takeWhile Chain.isNameChar = name.toList := by
  -- A mark follows the name: a dot before the next name, or the bracket of the container.
  have hsplit : ∃ mark tail, Chain.isNameChar mark = false
      ∧ l.key.toList = name.toList ++ mark :: tail := by
    rw [key, hnames]
    cases more with
    | nil =>
      rw [Text.join_singleton]
      cases l.descriptor.isMap
      · exact ⟨'[', "*]".toList, by decide, by simp [String.toList_append]⟩
      · exact ⟨'[', "*,*]".toList, by decide, by simp [String.toList_append]⟩
    | cons second others =>
      rw [Text.join_cons_cons]
      exact ⟨'.', _, by decide, by simp only [String.toList_append, List.append_assoc]; rfl⟩
  obtain ⟨mark, tail, hmark, hkey⟩ := hsplit
  rw [hkey, List.takeWhile_append_of_pos hname.chars, List.takeWhile_cons, hmark]
  simp

end ChainLevel

namespace Tree

open Chain (IsName)

theorem names_of_levels {t : Tree} {current : Option Nat} {token : Token} {rest : List Token}
    {level : ChainLevel} {levels : List ChainLevel}
    (h : t.levels current (token :: rest) = level :: levels) :
    ∃ more, level.names = token.name :: more := by
  cases hc : t.childOf? current token.name with
  | none => simp [Tree.levels, hc] at h
  | some id =>
    cases hn : t.node? id with
    | none => simp [Tree.levels, hc, hn] at h
    | some n =>
      rw [levels_cons hc hn] at h
      split at h
      · simp only [List.cons.injEq] at h
        exact ⟨[], h.1 ▸ rfl⟩
      · cases hfurther : t.levels (some (t.onward id token)) rest with
        | nil => simp [hfurther] at h
        | cons further others =>
          simp only [hfurther, List.modifyHead_cons, List.cons.injEq] at h
          exact ⟨further.names, h.1 ▸ rfl⟩

theorem names_ne_nil {t : Tree} {current : Option Nat} {tokens : List Token} {level : ChainLevel}
    {levels : List ChainLevel} (h : t.levels current tokens = level :: levels) :
    level.names ≠ [] := by
  cases tokens with
  | nil => simp [Tree.levels] at h
  | cons token rest =>
    obtain ⟨more, hnames⟩ := names_of_levels h
    simp [hnames]

/-- One more field on the way makes no difference to agreement. -/
theorem agree_afterField {t : Tree} {current : Option Nat} {tokens tokens' : List Token}
    (h : Index.Agree (t.levels current tokens) (t.levels current tokens')) (name : String)
    (field : FieldType) :
    Index.Agree ((t.levels current tokens).modifyHead (ChainLevel.afterField name field))
      ((t.levels current tokens').modifyHead (ChainLevel.afterField name field)) := by
  cases hl : t.levels current tokens with
  | nil => trivial
  | cons l more =>
    cases hl' : t.levels current tokens' with
    | nil => exact Index.agree_nil_right _
    | cons l' more' =>
      rw [hl, hl'] at h
      intro heq
      rw [ChainLevel.key_afterField (names_ne_nil hl), ChainLevel.key_afterField (names_ne_nil hl')]
        at heq
      have hkey : l.key = l'.key := by
        have hlist := congrArg String.toList heq
        simp only [String.toList_append] at hlist
        exact String.toList_inj.mp (List.append_cancel_left hlist)
      obtain ⟨hfields, hnext⟩ := h hkey
      exact ⟨congrArg (field :: ·) hfields, hnext⟩

/-- Two chains agree from whatever node both start. -/
theorem agree_levels (t : Tree) {current : Option Nat} {tokens tokens' : List Token}
    (h : ∀ token ∈ tokens, IsName token.name) (h' : ∀ token ∈ tokens', IsName token.name) :
    Index.Agree (t.levels current tokens) (t.levels current tokens') := by
  induction tokens generalizing current tokens' with
  | nil => trivial
  | cons token rest ih =>
    cases tokens' with
    | nil => exact Index.agree_nil_right _
    | cons token' rest' =>
      have hrest := fun (k : Token) (hk : k ∈ rest) => h k (List.mem_cons_of_mem _ hk)
      have hrest' := fun (k : Token) (hk : k ∈ rest') => h' k (List.mem_cons_of_mem _ hk)
      by_cases hname : token.name = token'.name
      · cases hc : t.childOf? current token.name with
        | none =>
          rw [Tree.levels, hc]
          trivial
        | some id =>
          have hc' : t.childOf? current token'.name = some id := hname ▸ hc
          cases hn : t.node? id with
          | none =>
            rw [Tree.levels, hc]
            simp only [hn]
            trivial
          | some n =>
            rw [levels_cons hc hn, levels_cons hc' hn]
            cases hcontainer : n.isContainer with
            | true =>
              refine fun _ => ⟨rfl, fun hside => ?_⟩
              have honward : t.onward id token = t.onward id token' := by
                rw [onward, onward]
                exact congrArg (fun s => (t.memberOf? id s).getD id) hside
              rw [honward]
              exact ih hrest hrest'
            | false =>
              have hplain (k : Token) : t.onward id k = id := by
                rw [onward, memberOf?_of_plain hn hcontainer, Option.getD_none]
              rw [hplain, hplain, ← hname]
              exact agree_afterField (ih hrest hrest') token.name n.field
      · -- Different first names give different ids.
        cases hl : t.levels current (token :: rest) with
        | nil => trivial
        | cons l more =>
          cases hl' : t.levels current (token' :: rest') with
          | nil => exact Index.agree_nil_right _
          | cons l' more' =>
            intro heq
            obtain ⟨_, hnames⟩ := names_of_levels hl
            obtain ⟨_, hnames'⟩ := names_of_levels hl'
            have hfirst := ChainLevel.takeWhile_key hnames (h token List.mem_cons_self)
            rw [heq, ChainLevel.takeWhile_key hnames' (h' token' List.mem_cons_self)] at hfirst
            exact absurd (String.toList_inj.mp hfirst).symm hname

end Tree
end ChainMapping
