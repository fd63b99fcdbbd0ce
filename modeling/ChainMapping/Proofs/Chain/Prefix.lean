import ChainMapping.Proofs.Chain.Reading
import ChainMapping.Proofs.Text.Separator

/-!
# Chains up to their last container

The normal form of a chain up to its last container tells the names of its segments and the sides
that they address.  Names hold no mark of the notation, so every segment ends where the next dot is
and every name where the first mark is.
-/

namespace ChainMapping

theorem pairwise_lt_zipIdx {α : Type} (xs : List α) :
    xs.zipIdx.Pairwise fun a b => a.2 < b.2 := by
  rw [← List.pairwise_map, List.zipIdx_map_snd]
  exact List.pairwise_lt_range'

theorem Shape.side?_of_suffix {shape shape' : Shape} (h : shape.suffix = shape'.suffix) :
    shape.side? = shape'.side? := by
  rcases shape with _ | _ | ⟨_ | _ | _, _⟩ <;> rcases shape' with _ | _ | ⟨_ | _ | _, _⟩ <;>
    simp [Shape.suffix, Shape.side?, MapSide.marker] at h ⊢

/-- No suffix begins like a name. -/
theorem Shape.takeWhile_suffix (shape : Shape) :
    shape.suffix.toList.takeWhile Chain.isNameChar = [] := by
  have hsquare : Chain.isNameChar '[' = false := by decide
  have hangle : Chain.isNameChar '<' = false := by decide
  rcases shape with _ | _ | ⟨_ | _ | _, _⟩ <;> simp [suffix, MapSide.marker, hsquare, hangle]

theorem Shape.dot_notMem_suffix (shape : Shape) : '.' ∉ shape.suffix.toList := by
  rcases shape with _ | _ | ⟨_ | _ | _, _⟩ <;> simp [suffix, MapSide.marker]

namespace Token

open Chain (IsName)

/-- The name of a segment ends where its suffix begins. -/
theorem takeWhile_normal {token : Token} (h : IsName token.name) :
    token.normal.toList.takeWhile Chain.isNameChar = token.name.toList := by
  rw [normal, String.toList_append, List.takeWhile_append_of_pos h.chars,
    token.shape.takeWhile_suffix, List.append_nil]

/-- The normal form of a segment tells its name and the side it addresses. -/
theorem normal_inj {token token' : Token} (h : IsName token.name) (h' : IsName token'.name)
    (heq : token.normal = token'.normal) :
    token.name = token'.name ∧ token.shape.side? = token'.shape.side? := by
  have hname : token.name = token'.name := by
    rw [← String.toList_inj, ← takeWhile_normal h, ← takeWhile_normal h', heq]
  refine ⟨hname, Shape.side?_of_suffix ?_⟩
  rw [normal, normal, hname] at heq
  have hlist := congrArg String.toList heq
  rw [String.toList_append, String.toList_append] at hlist
  exact String.toList_inj.mp (List.append_cancel_left hlist)

theorem dot_notMem_normal {token : Token} (h : IsName token.name) :
    '.' ∉ token.normal.toList := by
  have hname : '.' ∉ token.name.toList := h.notMem (by decide)
  rw [normal, String.toList_append, List.mem_append]
  exact not_or.mpr ⟨hname, token.shape.dot_notMem_suffix⟩

section Parts

variable {tokens tokens' : List Token} {part : Token → String}

/-- Segments can be told apart after parts without dots have been joined. -/
theorem join_part_inj (hdot : ∀ {token : Token}, IsName token.name → '.' ∉ (part token).toList)
    (hne : tokens ≠ []) (hne' : tokens' ≠ []) (h : ∀ token ∈ tokens, IsName token.name)
    (h' : ∀ token ∈ tokens', IsName token.name)
    (heq : Text.join "." (tokens.map part) = Text.join "." (tokens'.map part)) :
    tokens.map part = tokens'.map part := by
  refine Text.join_dot_inj ?_ ?_ ?_ ?_ heq
  · simpa using hne
  · simpa using hne'
  · exact List.forall_mem_map.mpr fun token hmem => hdot (h token hmem)
  · exact List.forall_mem_map.mpr fun token hmem => hdot (h' token hmem)

theorem join_normal_inj (hne : tokens ≠ []) (hne' : tokens' ≠ [])
    (h : ∀ token ∈ tokens, IsName token.name) (h' : ∀ token ∈ tokens', IsName token.name)
    (heq : Text.join "." (tokens.map normal) = Text.join "." (tokens'.map normal)) :
    tokens.map normal = tokens'.map normal :=
  join_part_inj dot_notMem_normal hne hne' h h' heq

/-- What a part of a segment tells is told by the parts of all segments. -/
theorem map_eq_of_part {α : Type} {f : Token → α}
    (htells : ∀ {token token' : Token}, IsName token.name → IsName token'.name →
      part token = part token' → f token = f token')
    (h : ∀ token ∈ tokens, IsName token.name) (h' : ∀ token ∈ tokens', IsName token.name)
    (heq : tokens.map part = tokens'.map part) : tokens.map f = tokens'.map f := by
  induction tokens generalizing tokens' with
  | nil =>
    have hnil : tokens' = [] := List.map_eq_nil_iff.mp heq.symm
    rw [hnil]
  | cons token rest ih =>
    cases tokens' with
    | nil => simp at heq
    | cons token' rest' =>
      rw [List.forall_mem_cons] at h h'
      simp only [List.map_cons, List.cons.injEq] at heq ⊢
      exact ⟨htells h.1 h'.1 heq.1, ih h.2 h'.2 heq.2⟩

end Parts

/-- What the levels of a chain are made of. -/
def address (token : Token) : String × Option MapSide := (token.name, token.shape.side?)

theorem map_address_eq {tokens tokens' : List Token} (h : ∀ token ∈ tokens, IsName token.name)
    (h' : ∀ token ∈ tokens', IsName token.name)
    (heq : tokens.map normal = tokens'.map normal) : tokens.map address = tokens'.map address := by
  refine map_eq_of_part (fun hname hname' hnormal => ?_) h h' heq
  obtain ⟨hsame, hside⟩ := normal_inj hname hname' hnormal
  rw [address, address, hsame, hside]

end Token

namespace Chain

/-- The last container is a segment, and no container comes after it. -/
theorem lastContainerIndex?_eq_some {c : Chain} {last : Nat}
    (h : c.lastContainerIndex? = some last) :
    last < c.tokens.length ∧ (c.tokens.drop (last + 1)).any Token.isContainer = false
      ∧ c.tokens.any Token.isContainer = true := by
  obtain ⟨⟨token, i⟩, hlast, rfl⟩ := Option.map_eq_some_iff.mp h
  obtain ⟨init, hinit⟩ := List.getLast?_eq_some_iff.mp hlast
  replace hinit : c.tokens.zipIdx.filter (·.1.isContainer) = init ++ [(token, i)] := hinit
  have hmem : (token, i) ∈ c.tokens.zipIdx.filter (·.1.isContainer) := by
    rw [hinit]
    exact List.mem_append_right _ List.mem_cons_self
  rw [List.mem_filter, List.mem_zipIdx_iff_getElem?] at hmem
  obtain ⟨hget, hcontainer⟩ := hmem
  refine ⟨(List.getElem?_eq_some_iff.mp hget).1, ?_, ?_⟩
  · rw [List.any_eq_false]
    intro later hlater hany
    obtain ⟨k, hk⟩ := List.mem_iff_getElem?.mp hlater
    rw [List.getElem?_drop] at hk
    -- A container further on would come after the last one in the list.
    have hfurther : (later, i + 1 + k) ∈ c.tokens.zipIdx.filter (·.1.isContainer) := by
      rw [List.mem_filter, List.mem_zipIdx_iff_getElem?]
      exact ⟨hk, hany⟩
    have hsorted := (pairwise_lt_zipIdx c.tokens).filter (·.1.isContainer)
    rw [hinit] at hfurther hsorted
    rcases List.mem_append.mp hfurther with hbefore | heq
    · have hlt := (List.pairwise_append.mp hsorted).2.2 _ hbefore _ List.mem_cons_self
      simp only at hlt
      omega
    · simp only [List.mem_singleton, Prod.mk.injEq] at heq
      omega
  · exact List.any_eq_true.mpr ⟨token, List.mem_of_getElem? hget, hcontainer⟩

theorem lastContainerIndex?_eq_none {c : Chain} (h : c.lastContainerIndex? = none) :
    c.tokens.any Token.isContainer = false := by
  rw [lastContainerIndex?, Option.map_eq_none_iff, List.getLast?_eq_none_iff,
    List.filter_eq_nil_iff] at h
  rw [List.any_eq_false]
  intro token hmem
  obtain ⟨i, hi⟩ := List.mem_iff_getElem?.mp hmem
  exact h (token, i) (List.mem_zipIdx_iff_getElem?.mpr hi)

/-- Chains with the same normal form up to their last container have the same names and sides up to
there. -/
theorem address_of_normalPrefix {c c' : Chain} (h : c.Proper) (h' : c'.Proper) {last last' : Nat}
    (heq : c.normalPrefix last = c'.normalPrefix last') :
    (c.tokens.take (last + 1)).map Token.address
      = (c'.tokens.take (last' + 1)).map Token.address := by
  have hnames := fun (k : Token) (hk : k ∈ c.tokens.take (last + 1)) =>
    h.names k (List.mem_of_mem_take hk)
  have hnames' := fun (k : Token) (hk : k ∈ c'.tokens.take (last' + 1)) =>
    h'.names k (List.mem_of_mem_take hk)
  refine Token.map_address_eq hnames hnames' (Token.join_normal_inj ?_ ?_ hnames hnames' heq)
  · simp [h.nonempty]
  · simp [h'.nonempty]

end Chain
end ChainMapping
