import Mathlib.Data.List.Chain
import Mathlib.Data.List.Forall2
import ChainMapping.Proofs.Chain.Anchors
import ChainMapping.Proofs.Cursor.Walk

/-!
# Sizes along a target

On the walk along a target less and less is left of it, so that the comparison with a source can
only turn in favour of the source.  An anchor works against this: past the anchored segment the
source counts one level less.  It never turns the comparison back, because the anchored segment is
itself a level, which the target has lost by then.
-/

namespace ChainMapping

namespace SizeComparison

/-- The place of a comparison in the order that targets go through. -/
def rank : SizeComparison → Nat
  | largeTarget => 0
  | equalSize => 1
  | largeSource => 2

instance : LE SizeComparison := ⟨fun a b => a.rank ≤ b.rank⟩

instance (a b : SizeComparison) : Decidable (a ≤ b) := Nat.decLe a.rank b.rank

/-- The same comparison with the sides exchanged. -/
def swapped : SizeComparison → SizeComparison
  | largeSource => largeTarget
  | largeTarget => largeSource
  | equalSize => equalSize

theorem compare_swapped (source target : Nat) :
    compare target source = (compare source target).swapped := by
  rcases Nat.lt_trichotomy source target with hlt | rfl | hgt
  · simp [compare, swapped, hlt, Nat.lt_asymm hlt]
  · simp [compare, swapped]
  · simp [compare, swapped, hgt, Nat.lt_asymm hgt]

/-- What compares later has a source that exceeds its target by more, or by as much. -/
theorem compare_mono {source target source' target' : Nat}
    (h : source + target' ≤ source' + target) :
    compare source target ≤ compare source' target' := by
  show rank _ ≤ rank _
  unfold compare
  split_ifs <;> first | omega | decide

/-- The levels that a source counts at a place of the target. -/
def levels (source target : Cursor) : Nat :=
  if target.chain.hasAnchor && !target.isAnchored then source.containerCount - 1
  else source.containerCount

theorem current_eq (source target : Cursor) :
    current source target = compare (levels source target) target.remainingContainers := rfl

theorem levels_le (source target : Cursor) : levels source target ≤ source.containerCount := by
  unfold levels
  split
  next => exact Nat.sub_le _ _
  next => exact Nat.le_refl _

end SizeComparison

/-! ## Anchored segments are levels -/

theorem Shape.isContainer_of_anchor {s : Shape} (h : s.anchor?.isSome = true) :
    s.isContainer = true := by
  cases s with
  | plain => cases h
  | collection index anchor => rfl
  | map side anchor => rfl

namespace Chain

/-- No type hint of the chain has an anchor sign. -/
def UnsignedHints (c : Chain) : Prop :=
  ∀ token ∈ c.tokens, ∀ hint ∈ token.hint, '^' ∉ hint.toList

instance (c : Chain) : Decidable c.UnsignedHints :=
  inferInstanceAs (Decidable (∀ token ∈ c.tokens, ∀ hint ∈ token.hint, '^' ∉ hint.toList))

theorem ReadFrom.isContainer_of_isAnchored {chain : String} {token : Token} {f : Form}
    (h : ReadFrom chain token f) (hhint : ∀ hint ∈ token.hint, '^' ∉ hint.toList)
    (hanchored : token.isAnchored = true) : token.isContainer = true := by
  rcases h.isAnchored_iff.mp hanchored with ⟨hint, hsome, hinside⟩ | hanchor
  · have hmem : '^' ∈ (String.ofList (Text.trim hint)).toList := by
      rw [String.toList_ofList, Text.mem_trim_iff (by decide)]
      exact (List.singleton_infix_iff _ _).mp hinside
    exact absurd hmem (hhint _ (by rw [h.hint, hsome]; rfl))
  · exact Shape.isContainer_of_anchor hanchor

theorem UnsignedHints.isContainer_of_isAnchored {c : Chain} (h : c.UnsignedHints)
    (hparse : parse c.text = .ok c) :
    ∀ token ∈ c.tokens, token.isAnchored = true → token.isContainer = true := by
  obtain ⟨forms, hsome, -, hvalid, htext⟩ := forms_of_parse ⟨c, hparse⟩
  have hread := readFrom_of_parse hparse (List.length_pos_iff.mp hsome) hvalid htext
  have hall := (List.forall₂_and_left _ _).mp
    (hread.imp fun token f hf => ⟨hf.isContainer_of_isAnchored, hf⟩)
  exact fun token hmem => hall.1 token hmem (h token hmem)

end Chain

/-! ## Further down the target -/

namespace Cursor

variable {c next : Cursor}

theorem Sits.tokenIndex_le {n : Node} {token : Token} (h : c.Sits n token)
    (hdescend : c.descend? = some next) : c.tokenIndex ≤ next.tokenIndex := by
  obtain ⟨-, -, -, hlower, n', token', hnext⟩ := h.descend hdescend
  rw [h.height_eq, hnext.height_eq] at hlower
  rw [h.tokenIndex_eq, hnext.tokenIndex_eq]
  split at hlower <;> split at hlower <;> omega

theorem head?_walkFrom {steps : Nat} {d : Cursor} (h : d ∈ (c.walkFrom steps).head?) : d = c := by
  cases steps with
  | zero => cases h
  | succ steps => exact (Option.some.inj h).symm

/-- A walk never comes back to an earlier segment. -/
theorem Sits.pairwise_walkFrom {n : Node} {token : Token} (h : c.Sits n token) (steps : Nat) :
    ((c.walkFrom steps).map tokenIndex).Pairwise (· ≤ ·) := by
  refine List.isChain_iff_pairwise.mp ?_
  rw [List.isChain_map]
  induction steps generalizing c n token with
  | zero => exact .nil
  | succ steps ih =>
    rw [walkFrom_succ]
    cases hdescend : c.descend? with
    | none => exact .singleton c
    | some next =>
      obtain ⟨-, -, -, -, n', token', hnext⟩ := h.descend hdescend
      refine List.isChain_cons.mpr ⟨fun d hd => ?_, ih hnext⟩
      rw [head?_walkFrom hd]
      exact h.tokenIndex_le hdescend

theorem remainingContainers_le {later : Cursor} (hchain : later.chain = c.chain)
    (hle : c.tokenIndex ≤ later.tokenIndex) :
    later.remainingContainers ≤ c.remainingContainers := by
  rw [remainingContainers, remainingContainers, hchain]
  exact (List.drop_sublist_drop_left _ hle).countP_le

/-- Past a segment that is a level, one level less is left. -/
theorem remainingContainers_lt {later : Cursor} {token : Token} (hchain : later.chain = c.chain)
    (htoken : c.token? = some token) (hcontainer : token.isContainer = true)
    (hlt : c.tokenIndex < later.tokenIndex) :
    later.remainingContainers < c.remainingContainers := by
  obtain ⟨hbound, hget⟩ := List.getElem?_eq_some_iff.mp htoken
  have hdrop : c.chain.tokens.drop c.tokenIndex
      = token :: c.chain.tokens.drop (c.tokenIndex + 1) := by
    rw [List.drop_eq_getElem_cons hbound, hget]
  have hrest : later.remainingContainers
      ≤ (c.chain.tokens.drop (c.tokenIndex + 1)).countP Token.isContainer := by
    rw [remainingContainers, hchain]
    exact (List.drop_sublist_drop_left _ hlt).countP_le
  have hhere : c.remainingContainers
      = (c.chain.tokens.drop (c.tokenIndex + 1)).countP Token.isContainer + 1 := by
    rw [remainingContainers, hdrop, List.countP_cons_of_pos hcontainer]
  omega

end Cursor

namespace SizeComparison

variable {target later : Cursor} {token : Token}

/-- The target loses no less than the source on the way from a segment to a later one. -/
theorem levels_add_remaining_le (source : Cursor) (hchain : later.chain = target.chain)
    (htoken : target.token? = some token) (hle : target.tokenIndex ≤ later.tokenIndex)
    (hlevel : token.isAnchored = true → token.isContainer = true) :
    levels source target + later.remainingContainers
      ≤ levels source later + target.remainingContainers := by
  have hremaining := Cursor.remainingContainers_le hchain hle
  have htarget := levels_le source target
  have hanchored : target.isAnchored = token.isAnchored := by rw [Cursor.isAnchored, htoken]; rfl
  cases hloses : later.chain.hasAnchor && !later.isAnchored with
  | false =>
    have hlater : levels source later = source.containerCount := by
      rw [levels, hloses, if_neg Bool.false_ne_true]
    omega
  | true =>
    have hlater : levels source later = source.containerCount - 1 := by
      rw [levels, hloses, if_pos rfl]
    rw [Bool.and_eq_true, Bool.not_eq_true'] at hloses
    cases hhere : token.isAnchored with
    | false =>
      have hsame : levels source target = source.containerCount - 1 := by
        rw [levels, ← hchain, hloses.1, hanchored, hhere]
        rfl
      omega
    | true =>
      -- The anchor is passed on the way: the source loses a level, and so does the target.
      have hlt : target.tokenIndex < later.tokenIndex := by
        refine lt_of_le_of_ne hle fun heq => ?_
        have hsame : later.isAnchored = target.isAnchored := by
          rw [Cursor.isAnchored, Cursor.isAnchored, Cursor.token?, Cursor.token?, hchain, heq]
        rw [hsame, hanchored, hhere] at hloses
        cases hloses.2
      have hless := Cursor.remainingContainers_lt hchain htoken (hlevel hhere) hlt
      omega

theorem current_le (source : Cursor) (hchain : later.chain = target.chain)
    (htoken : target.token? = some token) (hle : target.tokenIndex ≤ later.tokenIndex)
    (hlevel : token.isAnchored = true → token.isContainer = true) :
    current source target ≤ current source later :=
  compare_mono (levels_add_remaining_le source hchain htoken hle hlevel)

theorem currentInclusive_le (source : Cursor) (hchain : later.chain = target.chain)
    (hle : target.tokenIndex ≤ later.tokenIndex) :
    currentInclusive source target ≤ currentInclusive source later :=
  compare_mono (Nat.add_le_add_left (Cursor.remainingContainers_le hchain hle) _)

theorem current_le_inclusive (source target : Cursor) :
    current source target ≤ currentInclusive source target :=
  compare_mono (Nat.add_le_add_right (levels_le source target) _)

theorem current_of_unanchored (source : Cursor) (h : target.chain.hasAnchor = false) :
    current source target = currentInclusive source target := by
  rw [current_eq, levels, h]
  rfl

theorem initial_swapped (source target : Cursor) :
    initial target source = (initial source target).swapped :=
  compare_swapped _ _

end SizeComparison

namespace Tree

/-- How a source compares with a target, from the first node of the target to its leaf. -/
structure SizesAlong (t : Tree) (target : Chain) (leaf : Nat) (source : Cursor) : Prop where
  starts : ∃ first, (t.walk target).head? = some first ∧ Cursor.atFirst? t target = some first
    ∧ SizeComparison.currentInclusive source first = SizeComparison.initial source first
  ends : (t.walk target).getLast? = some ⟨t, target, leaf⟩
  current : ((t.walk target).map (SizeComparison.current source)).Pairwise (· ≤ ·)
  inclusive : ((t.walk target).map (SizeComparison.currentInclusive source)).Pairwise (· ≤ ·)
  unanchored : target.hasAnchor = false → ∀ c ∈ t.walk target,
    SizeComparison.current source c = SizeComparison.currentInclusive source c
  /-- with an anchor too the source is never ahead of what it is without -/
  behind : ∀ c ∈ t.walk target,
    SizeComparison.current source c ≤ SizeComparison.currentInclusive source c
  swapped : ∀ c ∈ t.walk target,
    SizeComparison.initial c source = (SizeComparison.initial source c).swapped

variable {t : Tree} {chain : Chain}

theorem WellFormed.pairwise_walk (h : t.WellFormed) (chain : Chain) :
    (t.walk chain).Pairwise fun c later => c.tokenIndex ≤ later.tokenIndex := by
  unfold walk
  split
  next first hfirst =>
    obtain ⟨-, -, n, token, hsits⟩ := Cursor.sits_first h hfirst
    exact List.pairwise_map.mp (hsits.pairwise_walkFrom _)
  next => exact .nil

/-- What does not go back from one segment to a later one does not go back on a walk. -/
theorem WellFormed.pairwise_compared (h : t.WellFormed) {compared : Cursor → SizeComparison}
    (hle : ∀ {c later : Cursor} {token : Token}, later.chain = c.chain → c.chain = chain →
      c.token? = some token → c.tokenIndex ≤ later.tokenIndex → compared c ≤ compared later) :
    ((t.walk chain).map compared).Pairwise (· ≤ ·) := by
  refine List.pairwise_map.mpr ((h.pairwise_walk chain).imp_of_mem ?_)
  intro c later hc hlater hindex
  obtain ⟨-, hchain, n, token, hsits⟩ := h.sits_of_mem_walk hc
  exact hle ((h.sits_of_mem_walk hlater).2.1.trans hchain.symm) hchain hsits.token?_eq hindex

theorem WellFormed.sizesAlong (h : t.WellFormed) (hproper : chain.Proper) {leaf : Nat}
    (hleads : t.follow? none chain.tokens = some (some leaf))
    (hlevels : ∀ token ∈ chain.tokens, token.isAnchored = true → token.isContainer = true)
    (source : Cursor) : t.SizesAlong chain leaf source where
  starts := by
    obtain ⟨id, n, token, after, hfirst, -, hgoes, -⟩ := Cursor.goes_first h hproper hleads
    refine ⟨⟨t, chain, id⟩, ?_, hfirst, ?_⟩
    · rw [List.head?_eq_getElem?, h.getElem?_walk, hfirst]
      rfl
    · rw [SizeComparison.currentInclusive, Cursor.remainingContainers, hgoes.tokenIndex_eq]
      rfl
  ends := (h.walkTells hproper hleads).ends
  current := h.pairwise_compared fun hlater hchain htoken hindex =>
    SizeComparison.current_le source hlater htoken hindex
      (hlevels _ (hchain ▸ List.mem_of_getElem? htoken))
  inclusive := h.pairwise_compared fun hlater _ _ hindex =>
    SizeComparison.currentInclusive_le source hlater hindex
  unanchored hnone c hc := by
    obtain ⟨-, rfl, -⟩ := h.sits_of_mem_walk hc
    exact SizeComparison.current_of_unanchored source hnone
  behind c _ := SizeComparison.current_le_inclusive source c
  swapped c _ := SizeComparison.initial_swapped source c

/-- Along a chain that was resolved, comparisons with whatever source only turn from larger targets
to larger sources, as long as anchor signs are not found in type hints. -/
theorem sizesAlong_after (side : Side) (rootType : TypeRef) (overrides : List (String × String))
    (calls : List Call) :
    ∀ found ∈ (fresh side rootType overrides).resolved calls, found.1.UnsignedHints →
      ∀ source,
        ((fresh side rootType overrides).after calls).SizesAlong found.1 found.2 source := by
  intro found hfound hhints source
  have hfresh := wellFormed_fresh side rootType overrides
  obtain ⟨hproper, hleads⟩ := hfresh.follow?_resolved hfound
  exact (hfresh.after calls).sizesAlong hproper hleads
    (hhints.isContainer_of_isAnchored (parse_resolved hfound)) source

/-- `orders[^].items[*].sku` as it is read. -/
def anchoredSku : Chain where
  text := "orders[^].items[*].sku"
  tokens :=
    [⟨"orders[^]", "orders", 0, ⟨0, 9⟩, .collection none (some .plain), none⟩,
     ⟨"items[*]", "items", 1, ⟨10, 18⟩, .collection none none, none⟩,
     ⟨"sku", "sku", 2, ⟨19, 22⟩, .plain, none⟩]

def anchoredCalls : List Call := [.resolve depot.introspector "orders[^].items[*].sku"]

/-- The first node of `orders[*].items[*].sku`, two levels above its leaf. -/
def skuSource : Cursor :=
  ⟨(fresh .source ⟨"Depot", .object, []⟩ []).after depotCalls, itemSku, 0⟩

/-- At the items the source has lost the anchored level, so that the sides are still even. -/
theorem sizesAlong_after_anchoredSku :
    (anchoredSku, 4) ∈ (fresh .target ⟨"Depot", .object, []⟩ []).resolved anchoredCalls
      ∧ anchoredSku.UnsignedHints
      ∧ ((fresh .target ⟨"Depot", .object, []⟩ []).after anchoredCalls).SizesAlong anchoredSku 4
        skuSource
      ∧ (((fresh .target ⟨"Depot", .object, []⟩ []).after anchoredCalls).walk anchoredSku).map
          (SizeComparison.current skuSource)
        = [.equalSize, .equalSize, .equalSize, .equalSize, .largeSource]
      ∧ (((fresh .target ⟨"Depot", .object, []⟩ []).after anchoredCalls).walk anchoredSku).map
          (SizeComparison.currentInclusive skuSource)
        = [.equalSize, .equalSize, .largeSource, .largeSource, .largeSource] := by
  have hfound : (anchoredSku, 4)
      ∈ (fresh .target ⟨"Depot", .object, []⟩ []).resolved anchoredCalls := by decide +kernel
  have hhints : anchoredSku.UnsignedHints := by decide +kernel
  refine ⟨hfound, hhints, ?_, by decide +kernel, by decide +kernel⟩
  exact sizesAlong_after .target ⟨"Depot", .object, []⟩ [] anchoredCalls _ hfound hhints skuSource

/-- Stops at places, of which some have a type with an anchor sign in its name. -/
def tour : Schema where
  types :=
    [("Tour", ⟨.object, [("stops", ⟨"List", .list, [⟨"Stop", .object, []⟩]⟩)]⟩),
     ("Stop", ⟨.object, [("place", ⟨"Place", .abstract, []⟩)]⟩),
     ("Place", ⟨.abstract, []⟩),
     ("Hall^", ⟨.object, [("doors", ⟨"List", .list, [⟨"Door", .object, []⟩]⟩)]⟩),
     ("Door", ⟨.object, [("code", ⟨"String", .scalar, []⟩)]⟩)]

def tourCalls : List Call := [.resolve tour.introspector "stops[^].place(Hall^).doors[*].code"]

-- A hint with an anchor sign passes for an anchor where nothing is a level.  Compared with itself,
-- the chain goes back after it.
example : ((fresh .target ⟨"Tour", .object, []⟩ []).resolved tourCalls).map (fun found =>
      (((fresh .target ⟨"Tour", .object, []⟩ []).after tourCalls).walk found.1).map
        (SizeComparison.current ⟨fresh .source ⟨"Tour", .object, []⟩ [], found.1, 0⟩))
    = [[.equalSize, .equalSize, .largeSource, .equalSize, .equalSize, .largeSource]] := by
  decide +kernel

end Tree
end ChainMapping
