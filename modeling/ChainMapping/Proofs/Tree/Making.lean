import Mathlib.Data.List.Perm.Subperm
import ChainMapping.Proofs.Tree.Draft

/-!
# Segments are made as drafted

Every operation that only asks is shown to answer as the plain function of the same purpose.  So the
node of a segment is made as its draft says: its portraits are added to the tree, or its error comes
back.  Only a tree at its limits can come between.
-/

namespace ChainMapping

namespace Resolving

/-- A computation that leaves the tree alone and answers as a plain computation does. -/
def Answers {α : Type} (m : Resolving α) (t : Tree) (answer : Except ChainError α) : Prop :=
  ∀ w : Work, w.tree = t →
    Ends m w (fun a w' => answer = .ok a ∧ w'.tree = t)
      (fun e w' => answer = .error e ∧ w'.tree = t)

variable {α β : Type} {t : Tree}

theorem answers_pure (a : α) : Answers (pure a) t (.ok a) := fun _ hw => ⟨rfl, hw⟩

theorem answers_throw (e : ChainError) : Answers (throw e : Resolving α) t (.error e) :=
  fun _ hw => ⟨rfl, hw⟩

theorem answers_ask (a : α) : Answers (ask a) t (.ok a) := fun _ hw => ⟨rfl, hw⟩

theorem answers_liftTypes (chain : String) (answer : Except TypeError α) :
    Answers (liftTypes chain answer) t (answer.mapError (.types chain)) := by
  cases answer with
  | ok a => exact answers_pure a
  | error e => exact answers_throw _

theorem Answers.bind {m : Resolving α} {f : α → Resolving β} {answer : Except ChainError α}
    {answer' : α → Except ChainError β} (h : Answers m t answer)
    (hf : ∀ a, answer = .ok a → Answers (f a) t (answer' a)) :
    Answers (m >>= f) t (answer >>= answer') := by
  intro w hw
  refine Ends.bind ((h w hw).mono (fun _ _ hok => hok) ?_) ?_
  · intro e w' hcase
    exact ⟨by rw [hcase.1]; rfl, hcase.2⟩
  · intro a w' hcase
    obtain ⟨hok, htree⟩ := hcase
    refine (hf a hok w' htree).mono ?_ ?_
    · intro b w'' hlast
      exact ⟨by rw [hok]; exact hlast.1, hlast.2⟩
    · intro e w'' hlast
      exact ⟨by rw [hok]; exact hlast.1, hlast.2⟩

theorem Answers.map {m : Resolving α} {f : α → β} {answer : Except ChainError α}
    (h : Answers m t answer) : Answers (m >>= fun a => pure (f a)) t (answer.map f) := by
  have hbind : Answers (m >>= fun a => pure (f a)) t (answer >>= fun a => .ok (f a)) :=
    h.bind fun a _ => answers_pure (f a)
  cases answer with
  | ok a => exact hbind
  | error e => exact hbind

/-- A question first, and then something that starts from the same tree. -/
theorem Answers.ends_bind {m : Resolving α} {f : α → Resolving β} {answer : Except ChainError α}
    {w : Work} {post : β → Work → Prop} {fail : ChainError → Work → Prop}
    (h : Answers m w.tree answer)
    (hf : ∀ a w', answer = .ok a → w'.tree = w.tree → Ends (f a) w' post fail)
    (hfail : ∀ e w', answer = .error e → fail e w') : Ends (m >>= f) w post fail := by
  refine Ends.bind ((h w rfl).mono (fun _ _ hok => hok) ?_) ?_
  · intro e w' hcase
    exact hfail e w' hcase.1
  · intro a w' hcase
    exact hf a w' hcase.1 hcase.2

theorem answers_tree_bind {f : Tree → Resolving α} {answer : Except ChainError α}
    (h : Answers (f t) t answer) : Answers (tree >>= f) t answer := by
  intro w hw
  refine ends_tree_bind ?_
  rw [hw]
  exact h w hw

theorem answers_ask_bind {f : α → Resolving β} {a : α} {answer : Except ChainError β}
    (h : Answers (f a) t answer) : Answers (ask a >>= f) t answer := by
  intro w hw
  exact h { w with calls := w.calls + 1 } hw

theorem ends_ask_bind {f : α → Resolving β} {a : α} {w : Work} {post : β → Work → Prop}
    {fail : ChainError → Work → Prop} (h : ∀ w', w'.tree = w.tree → Ends (f a) w' post fail) :
    Ends (ask a >>= f) w post fail := h { w with calls := w.calls + 1 } rfl

end Resolving

namespace Resolve

open Resolving (Answers)

variable {i : Introspector} {t : Tree} {chain : String} {token : Token}

/-! ## Questions -/

theorem answers_checkNotation (d : Descriptor) :
    Answers (checkNotation d chain token) t (Basis.checkNotation chain token d) := by
  unfold checkNotation Basis.checkNotation
  cases notationError? d chain token with
  | some error => exact Resolving.answers_throw _
  | none => exact Resolving.answers_pure ()

theorem answers_ownerType (parent : Option Node) :
    Answers (ownerType i chain token parent) t
      ((t.basis i).owner chain token (parent.map t.portraitOf)) := by
  have htype : (parent.map t.portraitOf).map Portrait.effectiveType
      = parent.map Node.effectiveType := by cases parent <;> rfl
  have hpath : (parent.map t.portraitOf).map (·.path) = parent.map (·.path) := by
    cases parent <;> rfl
  have hname : (parent.map t.portraitOf).map (·.field.name) = parent.map (·.field.name) := by
    cases parent <;> rfl
  have hroot : (t.basis i).root = t.rootType := rfl
  unfold ownerType Basis.owner
  refine Resolving.answers_tree_bind ?_
  simp only [htype, hpath, hname, hroot]
  generalize (parent.map Node.effectiveType).getD t.rootType = owner
  cases owner.kind with
  | object => exact Resolving.answers_pure _
  | abstract =>
    have hsource : (t.basis i).source.concreteType owner = i.concreteType owner := rfl
    refine Resolving.answers_ask_bind ?_
    simp only [hsource]
    cases (i.concreteType owner).filter (·.kind == .object) with
    | some concrete => exact Resolving.answers_pure _
    | none => exact Resolving.answers_throw _
  | scalar => exact Resolving.answers_throw _
  | list => exact Resolving.answers_throw _
  | set => exact Resolving.answers_throw _
  | queue => exact Resolving.answers_throw _
  | array => exact Resolving.answers_throw _
  | map => exact Resolving.answers_throw _

theorem answers_typeNamed (name : String) :
    Answers (do Resolving.liftTypes chain (← Resolving.ask (i.typeRef name))) t
      ((t.basis i).typeNamed chain name) :=
  (Resolving.answers_ask _).bind fun answer _ => Resolving.answers_liftTypes chain answer

theorem answers_concreteFor (path : String) (hint : Option String) (declared : TypeRef) :
    Answers (concreteFor i chain path hint declared) t
      ((t.basis i).concrete chain path hint declared) := by
  unfold concreteFor Basis.concrete
  refine Resolving.answers_tree_bind ?_
  have hnamed : (t.basis i).named path hint = hint.orElse fun _ => t.overrides.lookup path := rfl
  simp only [hnamed]
  cases hint.orElse fun _ => t.overrides.lookup path with
  | none => exact Resolving.answers_ask _
  | some name => exact (answers_typeNamed name).map

theorem answers_memberTypes (path : String) (hint : Option String) (element : Option TypeRef)
    (field : FieldType) :
    Answers (memberTypes i chain path hint element field) t
      ((t.basis i).memberTypes chain path hint element field) := by
  unfold memberTypes Basis.memberTypes
  cases element with
  | some element => exact (answers_concreteFor path hint element).map
  | none =>
    refine Resolving.answers_tree_bind ?_
    have hnamed : (t.basis i).named path hint = hint.orElse fun _ => t.overrides.lookup path := rfl
    simp only [hnamed]
    cases hint.orElse fun _ => t.overrides.lookup path with
    | none => exact Resolving.answers_throw _
    | some name => exact (answers_typeNamed name).map

end Resolve

/-! ## Making nodes -/

variable {t : Tree}

theorem Tree.Sound.length_table_le (h : t.Sound) (parent : Option Nat) :
    (t.childTable parent).length ≤ t.size := by
  have hnodup : (t.childTable parent).Nodup := List.Nodup.of_map Prod.fst (h.keys_nodup parent)
  -- An id is named once, by the token of its node.
  have hids : ((t.childTable parent).map Prod.snd).Nodup := by
    refine hnodup.map_on ?_
    rintro ⟨key, id⟩ hentry ⟨key', id'⟩ hentry' (rfl : id = id')
    obtain ⟨n, hn, -, hkey⟩ := h.mem_table.mp hentry
    obtain ⟨n', hn', -, hkey'⟩ := h.mem_table.mp hentry'
    rw [hn, Option.some.injEq] at hn'
    rw [← hkey, ← hkey', hn']
  have hsubset : (t.childTable parent).map Prod.snd ⊆ List.range t.size := by
    intro id hid
    obtain ⟨⟨key, id'⟩, hentry, rfl⟩ := List.mem_map.mp hid
    exact List.mem_range.mpr (h.lt_of_mem_table hentry)
  have hlength := (hids.subperm hsubset).length_le
  rwa [List.length_map, List.length_range] at hlength

/-- The error of a tree at its limits, which has at least as many nodes as a table may have
entries. -/
def Full (chain : String) (size : Nat) (e : ChainError) : Prop :=
  Limits.childrenPerNode ≤ size ∧ ∃ limit, e = .types chain (.treeTooLarge limit)

theorem Full.mono {chain : String} {size size' : Nat} {e : ChainError} (h : Full chain size e)
    (hle : size ≤ size') : Full chain size' e := ⟨Nat.le_trans h.1 hle, h.2⟩

theorem Tree.Sound.full_of_insert (h : t.Sound) {parent : Option Nat} {key : String} {node : Node}
    {e : TypeError} (he : t.insert parent key node = .error e) (chain : String) :
    Full chain t.size (.types chain e) := by
  have hlimits : Limits.childrenPerNode ≤ Limits.treeNodes := by decide
  unfold Tree.insert at he
  simp only at he
  split at he
  next hsize =>
    have hsize' : Limits.treeNodes ≤ t.size := hsize
    exact ⟨Nat.le_trans hlimits hsize', _, by rw [← Except.error.inj he]⟩
  next =>
    have hlength := h.length_table_le parent
    cases parent with
    | some p =>
      simp only [childCount_eq_length_table] at he
      split at he
      next hfull => exact ⟨Nat.le_trans hfull hlength, _, by rw [← Except.error.inj he]⟩
      next => simp at he
    | none =>
      simp only at he
      split at he
      next hfull => exact ⟨Nat.le_trans hfull hlength, _, by rw [← Except.error.inj he]⟩
      next => simp at he

namespace Resolve

variable {w : Work} {i : Introspector} {chain : String} {token : Token}

theorem drafts_insert {parent : Option Nat} {key : String} {node : Node} (h : w.tree.Sound)
    (hfresh : w.tree.childOf? parent key = none) (hparent : ∀ p, parent = some p → p < w.tree.size)
    {p : Portrait}
    (hp : p = { w.tree.portraitOf node with token := key, parent := parent.bind w.tree.pathOf? }) :
    Ends (Resolving.insert chain parent key node) w
      (fun id w' => w'.tree.portraits = w.tree.portraits ++ [p] ∧ w'.tree.portrait? id = some p)
      (fun e _ => Full chain w.tree.size e) := by
  unfold Resolving.insert
  refine Resolving.ends_tree_bind ?_
  cases hi : w.tree.insert parent key node with
  | error e => exact h.full_of_insert hi chain
  | ok made =>
    have hinserted := Tree.inserted_of_insert hi
    have hportraits := hinserted.portraits_eq h hfresh hparent
    rw [← hp] at hportraits
    refine ⟨hportraits, ?_⟩
    show made.2.portrait? made.1 = some p
    rw [← Tree.getElem?_portraits, hportraits, hinserted.id_eq, ← Tree.length_portraits,
      List.getElem?_concat_length]

theorem drafts_createMember {id : Nat} {n : Node} {entries : List (String × Nat)}
    (h : w.tree.Open id n entries) {key : String} (hkey : key ∉ Ordered.keys entries)
    {path : String} (d : Descriptor) {hint : Option String} {element : Option TypeRef}
    (hpath : path = n.path ++ d.pathSuffix) :
    Ends (createMember i chain token id n.field key path d hint element) w
      (fun _ w' => ∃ p, (w.tree.basis i).member chain token (w.tree.portraitOf n) key d hint element
          = .ok p ∧ w'.tree.portraits = w.tree.portraits ++ [p])
      (fun e _ => (w.tree.basis i).member chain token (w.tree.portraitOf n) key d hint element
          = .error e ∨ Full chain w.tree.size e) := by
  have hfresh : w.tree.childOf? (some id) key = none := by
    rw [Tree.childOf?_eq_lookup, h.table_eq, Ordered.lookup_eq_none_iff]
    exact hkey
  have hparent : ∀ p, some id = some p → p < w.tree.size := by
    intro p hp
    cases hp
    exact Tree.node?_lt h.node
  have hup : w.tree.pathOf? id = some n.path := by rw [Tree.pathOf?_of_node h.node]
  subst hpath
  unfold createMember
  refine (answers_memberTypes (n.path ++ d.pathSuffix) hint element n.field).ends_bind ?_ ?_
  · rintro ⟨declared, concrete⟩ w₁ htypes h₁
    have hmember : (w.tree.basis i).member chain token (w.tree.portraitOf n) key d hint element
        = .ok _ := congrArg (Except.map _) htypes
    refine Resolving.ends_tree_bind ?_
    rw [← h₁] at h hfresh hparent hup hmember ⊢
    refine (drafts_insert h.sound hfresh hparent rfl).mono ?_ ?_
    · intro new w₂ hcase
      refine ⟨_, hmember, ?_⟩
      rw [hcase.1, Option.bind_some, hup]
      rfl
    · intro e w₂ hfull
      exact .inr hfull
  · intro e w₁ herror
    exact .inl (congrArg (Except.map _) herror)

theorem drafts_createCollectionMember {id : Nat} {n : Node} (h : w.tree.Open id n [])
    (hcollection : n.descriptor.isCollection = true) :
    Ends (createCollectionMember i chain token id n.path n.field) w
      (fun _ w' => ∃ ms, (w.tree.basis i).members chain token (w.tree.portraitOf n) = .ok ms
          ∧ w'.tree.portraits = w.tree.portraits ++ ms)
      (fun e _ => (w.tree.basis i).members chain token (w.tree.portraitOf n) = .error e
          ∨ Full chain (w.tree.size + 1) e) := by
  have hmembers : (w.tree.basis i).members chain token (w.tree.portraitOf n)
      = ((w.tree.basis i).member chain token (w.tree.portraitOf n) n.field.name .collectionMember
          token.hint (i.genericArguments n.field)[0]?).map ([·]) := if_pos hcollection
  rw [hmembers]
  unfold createCollectionMember
  refine Resolving.ends_ask_bind ?_
  intro w₁ h₁
  rw [← h₁] at h ⊢
  refine Ends.bind ((drafts_createMember h List.not_mem_nil .collectionMember rfl).mono
    (fun _ _ hok => hok) ?_) ?_
  · intro e w₂ hcase
    rcases hcase with herror | hfull
    · exact .inl (by rw [herror]; rfl)
    · exact .inr (hfull.mono (Nat.le_succ _))
  · intro new w₂ hcase
    obtain ⟨p, hp, hportraits⟩ := hcase
    exact ⟨[p], by rw [hp]; rfl, hportraits⟩

theorem drafts_createMapMembers {id : Nat} {n : Node} (h : w.tree.Open id n [])
    (hmap : n.descriptor.isMap = true) (hindex : token.index = n.tokenIndex) :
    Ends (createMapMembers i chain token id n.path n.field) w
      (fun _ w' => ∃ ms, (w.tree.basis i).members chain token (w.tree.portraitOf n) = .ok ms
          ∧ w'.tree.portraits = w.tree.portraits ++ ms)
      (fun e _ => (w.tree.basis i).members chain token (w.tree.portraitOf n) = .error e
          ∨ Full chain (w.tree.size + 1) e) := by
  have hcollection : n.descriptor.isCollection = false := by
    cases hd : n.descriptor <;> simp [hd, Descriptor.isMap, Descriptor.isCollection] at hmap ⊢
  have hmembers : (w.tree.basis i).members chain token (w.tree.portraitOf n) = (do
      let key ← (w.tree.basis i).member chain token (w.tree.portraitOf n)
        (MapSide.key.memberKey n.field.name) .mapKey (Basis.hintFor token .key)
        (i.genericArguments n.field)[0]?
      let value ← (w.tree.basis i).member chain token (w.tree.portraitOf n)
        (MapSide.value.memberKey n.field.name) .mapValue (Basis.hintFor token .value)
        (i.genericArguments n.field)[1]?
      return [key, value]) :=
    (if_neg (by rw [Bool.not_eq_true]; exact hcollection)).trans (if_pos hmap)
  rw [hmembers]
  unfold createMapMembers Basis.hintFor
  dsimp only
  refine Resolving.ends_ask_bind ?_
  intro w₁ h₁
  rw [← h₁] at h ⊢
  refine Ends.bind (Ends.mono (Ends.and
    (ends_createMember h.sound h (.refl _) List.not_mem_nil rfl hindex rfl)
    (drafts_createMember h List.not_mem_nil .mapKey rfl)) (fun _ _ hok => hok) ?_) ?_
  · rintro e w₂ ⟨-, herror | hfull⟩
    · exact .inl (by rw [herror]; rfl)
    · exact .inr (hfull.mono (Nat.le_succ _))
  rintro new w₂ ⟨⟨hopen, -, hextends, -⟩, key, hkey, hportraits⟩
  have hsize : w₂.tree.size = w₁.tree.size + 1 := by
    rw [← Tree.length_portraits, hportraits, List.length_append, Tree.length_portraits,
      List.length_singleton]
  have hbasis : w₂.tree.basis i = w₁.tree.basis i := hextends.basis_eq i
  have hup : w₂.tree.portraitOf n = w₁.tree.portraitOf n :=
    h.sound.portraitOf_extends hextends h.node n.children
  have hother : MapSide.value.memberKey n.field.name
      ∉ Ordered.keys ([] ++ [(MapSide.key.memberKey n.field.name, new)]) := by
    simpa [Ordered.keys] using valueKey_ne_keyKey n.field.name
  refine Ends.bind (Ends.mono (drafts_createMember hopen hother .mapValue rfl)
    (fun _ _ hok => hok) ?_) ?_
  · rintro e w₃ (herror | hfull)
    · rw [hbasis, hup] at herror
      exact .inl (by rw [hkey, herror]; rfl)
    · exact .inr (hsize ▸ hfull)
  · rintro new' w₃ ⟨value, hvalue, hportraits'⟩
    rw [hbasis, hup] at hvalue
    refine ⟨[key, value], by rw [hkey, hvalue]; rfl, ?_⟩
    rw [hportraits', hportraits, List.append_assoc]
    rfl

theorem drafts_createMembers {id : Nat} {n : Node} (h : w.tree.Open id n [])
    (hindex : token.index = n.tokenIndex) :
    Ends (createMembers i chain token n.descriptor id n.path n.field) w
      (fun _ w' => ∃ ms, (w.tree.basis i).members chain token (w.tree.portraitOf n) = .ok ms
          ∧ w'.tree.portraits = w.tree.portraits ++ ms)
      (fun e _ => (w.tree.basis i).members chain token (w.tree.portraitOf n) = .error e
          ∨ Full chain (w.tree.size + 1) e) := by
  unfold createMembers
  split
  next hcollection => exact drafts_createCollectionMember h hcollection
  next hcollection =>
    have hmap : n.descriptor.isMap = true := by
      have hcontainer := h.container
      simp only [Node.isContainer, Descriptor.isContainer, Bool.or_eq_true] at hcontainer
      exact hcontainer.resolve_left hcollection
    rw [if_pos hmap]
    exact drafts_createMapMembers h hmap hindex

theorem portrait?_append {t t' : Tree} {ms : List Portrait}
    (h : t'.portraits = t.portraits ++ ms) {id : Nat} {p : Portrait}
    (hp : t.portrait? id = some p) : t'.portrait? id = some p := by
  rw [← Tree.getElem?_portraits] at hp ⊢
  rw [h]
  exact List.getElem?_append_left (List.getElem?_eq_some_iff.mp hp).1 ▸ hp

theorem drafts_addNode {current : Option Nat} (h : w.tree.WellFormed)
    (hat : w.tree.At current token.index) (hname : Chain.IsName token.name)
    (hfresh : w.tree.childOf? current token.name = none) {field : FieldType}
    {concrete : Option TypeRef} {p : Portrait}
    (hp : p = (w.tree.basis i).portrait token ((current.bind w.tree.node?).map w.tree.portraitOf)
      field concrete) :
    Ends (addNode i chain token (current.bind w.tree.node?) field concrete) w
      (fun id w' => ∃ ms, (w.tree.basis i).members chain token p = .ok ms
          ∧ w'.tree.portraits = w.tree.portraits ++ p :: ms ∧ w'.tree.portrait? id = some p)
      (fun e _ => (w.tree.basis i).members chain token p = .error e
          ∨ Full chain (w.tree.size + 2) e) := by
  have hparent : ∀ q, current = some q → q < w.tree.size := by
    rintro q rfl
    obtain ⟨n, hn, -, -⟩ := hat
    exact Tree.node?_lt hn
  unfold addNode
  refine Resolving.ends_tree_bind ?_
  simp only
  rw [parent_of_at h.toSound hat]
  refine Ends.bind (Ends.mono (Ends.and
    (ends_insertSegment h.toSound h (.refl _) hat hname hfresh (isMember_ofKind _) rfl rfl rfl rfl)
    (drafts_insert h.toSound hfresh hparent (p := p) ?_)) (fun _ _ hok => hok) ?_) ?_
  · rw [hp]
    cases current with
    | none => rfl
    | some q =>
      obtain ⟨up, hup, -, -⟩ := hat
      simp only [Option.bind_some, hup, Tree.pathOf?_of_node hup]
      rfl
  · rintro e w₁ ⟨-, hfull⟩
    exact .inr (hfull.mono (by omega))
  rintro id w₁ ⟨⟨he, -, hchild, hnode, hopen, hplain⟩, hportraits, hid⟩
  have hsize : w₁.tree.size = w.tree.size + 1 := by
    rw [← Tree.length_portraits, hportraits, List.length_append, Tree.length_portraits,
      List.length_singleton]
  have hbasis : w₁.tree.basis i = w.tree.basis i := he.basis_eq i
  have hportrait := hid
  rw [Tree.portrait?_of_node hnode, Option.some.injEq] at hportrait
  cases hcontainer : (Descriptor.ofKind field.declared.kind).isContainer with
  | true =>
    refine Ends.bind (Ends.mono (drafts_createMembers (hopen hcontainer) rfl)
      (fun _ _ hok => hok) ?_) ?_
    · rintro e w₂ (herror | hfull)
      · rw [hbasis, hportrait] at herror
        exact .inl herror
      · exact .inr (hfull.mono (by omega))
    · rintro ⟨⟩ w₂ ⟨ms, hms, hportraits'⟩
      rw [hbasis, hportrait] at hms
      have hgrown : w₂.tree.portraits = w.tree.portraits ++ p :: ms := by
        rw [hportraits', hportraits, List.append_assoc, List.singleton_append]
      exact ⟨ms, hms, hgrown, portrait?_append hportraits' hid⟩
  | false =>
    have hnone : (w.tree.basis i).members chain token p = .ok [] := by
      have hrole : p.descriptor = Descriptor.ofKind field.declared.kind := by rw [hp]; rfl
      simp only [Descriptor.isContainer, Bool.or_eq_false_iff] at hcontainer
      simp only [Basis.members, hrole, hcontainer.1, hcontainer.2, Bool.false_eq_true, if_false]
      rfl
    rw [createMembers_plain hcontainer]
    exact ⟨[], hnone, hportraits, hid⟩

theorem drafts_typed {current : Option Nat} (h : w.tree.WellFormed)
    (hat : w.tree.At current token.index) (hname : Chain.IsName token.name)
    (hfresh : w.tree.childOf? current token.name = none) {field : FieldType}
    {concrete : Option TypeRef}
    (hconcrete : (w.tree.basis i).concreteOf chain token
      ((current.bind w.tree.node?).map w.tree.portraitOf) field = .ok concrete) :
    Ends (addNode i chain token (current.bind w.tree.node?) field concrete) w
      (fun id w' => ∃ d, (w.tree.basis i).draftOf chain token
            ((current.bind w.tree.node?).map w.tree.portraitOf) field = .ok d
          ∧ w'.tree.portraits = w.tree.portraits ++ d.all ∧ w'.tree.portrait? id = some d.field)
      (fun e _ => (w.tree.basis i).draftOf chain token
            ((current.bind w.tree.node?).map w.tree.portraitOf) field = .error e
          ∨ Full chain (w.tree.size + 2) e) := by
  unfold Basis.draftOf
  rw [hconcrete]
  refine (drafts_addNode h hat hname hfresh rfl).mono ?_ ?_
  · rintro id w₁ ⟨ms, hms, hportraits, hid⟩
    exact ⟨⟨_, ms⟩, by simp only [bind, Except.bind, hms]; rfl, hportraits, hid⟩
  · rintro e w₁ (herror | hfull)
    · exact .inl (by simp only [bind, Except.bind, herror])
    · exact .inr hfull

/-- The node of a segment is made as its draft says, unless the tree is full. -/
theorem drafts_createNode {current : Option Nat} (h : w.tree.WellFormed)
    (hat : w.tree.At current token.index) (hname : Chain.IsName token.name)
    (hfresh : w.tree.childOf? current token.name = none) :
    Ends (createNode i chain token (current.bind w.tree.node?)) w
      (fun id w' => ∃ d, w.tree.draft i chain current token = .ok d
          ∧ w'.tree.portraits = w.tree.portraits ++ d.all ∧ w'.tree.portrait? id = some d.field)
      (fun e _ => w.tree.draft i chain current token = .error e
          ∨ Full chain (w.tree.size + 2) e) := by
  unfold Tree.draft
  unfold createNode
  refine (answers_ownerType _).ends_bind ?_
    (fun e _ herror => .inl (by rw [Basis.draft, Basis.fieldOf, herror]; rfl))
  intro owner w₁ howner h₁
  refine Resolving.ends_ask_bind ?_
  intro w₂ h₂
  have hlookup : (w.tree.basis i).fieldOf chain token
      ((current.bind w.tree.node?).map w.tree.portraitOf)
      = (i.fieldType owner.name token.name).mapError (.types chain) := by
    rw [Basis.fieldOf, howner]
    rfl
  refine (Resolving.answers_liftTypes chain _).ends_bind ?_
    (fun e _ herror => .inl (by rw [Basis.draft, hlookup, herror]; rfl))
  intro field w₃ hfield h₃
  rw [← hlookup] at hfield
  refine (answers_checkNotation _).ends_bind ?_
    (fun e _ herror => .inl (by rw [Basis.draft_of_field hfield, herror]; rfl))
  rintro ⟨⟩ w₄ hfits h₄
  have htree : w₄.tree = w.tree := h₄.trans (h₃.trans (h₂.trans h₁))
  have hdraft : (w.tree.basis i).draft chain token
      ((current.bind w.tree.node?).map w.tree.portraitOf)
      = (w.tree.basis i).draftOf chain token
        ((current.bind w.tree.node?).map w.tree.portraitOf) field := by
    rw [Basis.draft_of_field hfield, hfits]
    rfl
  rw [hdraft]
  rw [← htree] at h hat hfresh ⊢
  simp only
  split
  next hcontainer =>
    exact drafts_typed h hat hname hfresh (by rw [Basis.concreteOf, if_pos hcontainer])
  next hplain =>
    have hconcrete : (w₄.tree.basis i).concreteOf chain token
        ((current.bind w₄.tree.node?).map w₄.tree.portraitOf) field
        = (w₄.tree.basis i).concrete chain (pathBelow (current.bind w₄.tree.node?) token.name)
          token.hint field.declared := by
      rw [Basis.concreteOf, if_neg hplain, Basis.pathBelow_portraitOf]
    refine (answers_concreteFor _ _ _).ends_bind ?_ ?_
    · intro concrete w₅ hanswer h₅
      rw [← hconcrete] at hanswer
      rw [← h₅] at h hat hfresh hanswer ⊢
      exact drafts_typed h hat hname hfresh hanswer
    · intro e w₅ herror
      exact .inl (by rw [Basis.draftOf, hconcrete, herror]; rfl)

/-! ## Going along -/

/-- A hint that names a type, in the same words or in others. -/
def Heeds (i : Introspector) (token : Token) (type : TypeRef) : Prop :=
  ∀ hint, token.hint = some hint →
    hint = type.name ∨ ∃ named, i.typeRef hint = .ok named ∧ named.name = type.name

theorem ends_checkHint (node : Node) :
    Ends (checkHint i chain token node) w
      (fun _ w' => w'.tree = w.tree ∧ Heeds i token node.effectiveType)
      (fun _ _ => token.hint ≠ none) := by
  unfold checkHint
  cases hhint : token.hint with
  | none => exact ⟨rfl, fun hint hsome => by rw [hhint] at hsome; cases hsome⟩
  | some hint =>
    have hheeds (hcase : hint = node.effectiveType.name
        ∨ ∃ named, i.typeRef hint = .ok named ∧ named.name = node.effectiveType.name) :
        Heeds i token node.effectiveType := by
      intro other hother
      rw [hhint, Option.some.injEq] at hother
      exact hother ▸ hcase
    simp only
    split
    next =>
      refine Resolving.ends_ask_bind ?_
      intro w₁ h₁
      refine (Resolving.answers_liftTypes chain (i.typeRef hint)).ends_bind ?_ (by simp)
      intro named w₂ hnamed h₂
      split
      next => exact Option.some_ne_none hint
      next hsame =>
        exact ⟨h₂.trans h₁, hheeds (.inr ⟨named, mapError_eq_ok hnamed, not_not.mp hsame⟩)⟩
    next hsame => exact ⟨rfl, hheeds (.inl (not_not.mp hsame))⟩

/-- One segment: it is there and its hint is heeded, or it is made as drafted. -/
theorem drafts_step {current : Option Nat} (h : w.tree.WellFormed)
    (hat : w.tree.At current token.index) (hname : Chain.IsName token.name) :
    Ends (step i chain current token) w
      (fun next w' =>
        (w'.tree = w.tree ∧ ∃ n, w.tree.node? next = some n ∧ Heeds i token n.effectiveType)
        ∨ (w.tree.childOf? current token.name = none
          ∧ ∃ d, w.tree.draft i chain current token = .ok d
            ∧ w'.tree.portraits = w.tree.portraits ++ d.all))
      (fun e _ =>
        (∃ id n, w.tree.childOf? current token.name = some id ∧ w.tree.node? id = some n
          ∧ (Basis.checkNotation chain token n.descriptor = .error e ∨ token.hint ≠ none))
        ∨ (w.tree.childOf? current token.name = none
          ∧ (w.tree.draft i chain current token = .error e ∨ Full chain (w.tree.size + 2) e))) := by
  unfold step
  refine Resolving.ends_tree_bind ?_
  cases hc : w.tree.childOf? current token.name with
  | some id =>
    obtain ⟨n, hn, -, -⟩ := h.childOf?_eq_some_iff.mp hc
    simp only [hn]
    refine (answers_checkNotation n.descriptor).ends_bind ?_ ?_
    · rintro ⟨⟩ w₁ hfits h₁
      have hstop := Tree.stop?_eq hc hn (fits_any (Basis.notationError?_of_check hfits))
      obtain ⟨m, hm, -⟩ := h.at_of_stop? hat hstop
      simp only [hm]
      refine Ends.bind (Ends.mono (ends_checkHint m) (fun _ _ hok => hok) ?_) ?_
      · intro e w₂ hhint
        exact .inl ⟨id, n, rfl, hn, .inr hhint⟩
      · rintro ⟨⟩ w₂ ⟨h₂, hheeds⟩
        exact Ends.pure (.inl ⟨h₂.trans h₁, m, hm, hheeds⟩)
    · intro e w₁ herror
      exact .inl ⟨id, n, rfl, hn, .inl herror⟩
  | none =>
    refine Ends.bind (Ends.mono (drafts_createNode h hat hname hc) (fun _ _ hok => hok) ?_) ?_
    · intro e w₁ herror
      exact .inr ⟨rfl, herror⟩
    · rintro id w₁ ⟨d, hd, hportraits, -⟩
      exact Resolving.ends_tree_bind (Ends.pure (.inr ⟨rfl, d, hd, hportraits⟩))

end Resolve

namespace Tree

variable {t t' : Tree} {i : Introspector} {chain : String} {token : Token}
  {current : Option Nat} {next : Nat}

theorem Extends.at (he : t.Extends t') {index : Nat} (hat : t.At current index) :
    t'.At current index := by
  cases current with
  | none => exact hat
  | some id =>
    obtain ⟨n, hn, hplain, hindex⟩ := hat
    obtain ⟨children, hn'⟩ := he.node hn
    exact ⟨_, hn', hplain, hindex⟩

theorem Extends.pathBelow (he : t.Extends t') {index : Nat} (hat : t.At current index)
    (name : String) :
    Resolve.pathBelow (current.bind t'.node?) name
      = Resolve.pathBelow (current.bind t.node?) name := by
  cases current with
  | none => rfl
  | some id =>
    obtain ⟨n, hn, -, -⟩ := hat
    obtain ⟨children, hn'⟩ := he.node hn
    rw [Option.bind_some, Option.bind_some, hn, hn']
    rfl

/-- A segment leads to the node that its draft says, in a tree that has the nodes of the draft. -/
theorem WellFormed.portrait?_stop (h : t'.WellFormed) (he : t.Extends t')
    (hat : t.At current token.index) (hs : t'.stop? current token = some next) {d : Draft}
    (hd : t.draft i chain current token = .ok d) (hmem : ∀ p ∈ d.all, p ∈ t'.portraits) :
    t'.portrait? next = some (d.stop token) := by
  obtain ⟨field, concrete, hdrafted⟩ := Basis.drafted_of_ok hd
  have hpath := h.path_of_stop? (he.at hat) hs
  obtain ⟨n, hn, hnpath⟩ := Option.map_eq_some_iff.mp hpath
  have hsame : t'.portraitOf n = d.stop token := by
    refine h.portrait_of_path (portraitOf_mem hn) (hmem _ (d.stop_mem token)) ?_
    rw [hdrafted.path_stop, hdrafted.path_eq, Basis.pathBelow_portraitOf, ← he.pathBelow hat]
    exact hnpath
  rw [portrait?_of_node hn, hsame]

theorem WellFormed.effectiveType_made (h : t'.WellFormed) (he : t.Extends t')
    (hat : t.At current token.index) (hs : t'.stop? current token = some next) {d : Draft}
    (hd : t.draft i chain current token = .ok d)
    (hportraits : t'.portraits = t.portraits ++ d.all) {n : Node} (hn : t'.node? next = some n) :
    n.effectiveType = (d.stop token).effectiveType := by
  have hmem : ∀ p ∈ d.all, p ∈ t'.portraits := by
    intro p hp
    rw [hportraits]
    exact List.mem_append_right _ hp
  have hportrait := h.portrait?_stop he hat hs hd hmem
  rw [portrait?_of_node hn, Option.some.injEq] at hportrait
  exact congrArg Portrait.effectiveType hportrait

/-- The hint of a segment that has been made is heeded by the node that it leads to. -/
theorem heeds_stop {d : Draft} (hd : t.draft i chain current token = .ok d) :
    Resolve.Heeds i token (d.stop token).effectiveType := by
  intro hint hhint
  obtain ⟨field, concrete, hdrafted⟩ := Basis.drafted_of_ok hd
  exact .inr ⟨_, hdrafted.typeRef_hint hhint, rfl⟩

/-! ## Whole chains -/

/-- A chain that has been resolved was read, and its segments were gone along. -/
theorem resolveText_ok {text : String} {c : Chain} {leaf : Nat}
    (h : (t.resolveText i text).outcome = .ok (c, leaf)) :
    Chain.parse text = .ok c ∧ c.anchorCount ≤ 1
      ∧ ∃ w, Resolve.steps i c.text none c.tokens { tree := t } = .ok (some leaf) w
        ∧ (t.resolveText i text).tree = w.tree := by
  unfold Tree.resolveText at h ⊢
  cases hparse : Chain.parse text with
  | error e => simp [hparse] at h
  | ok chain =>
    simp only [hparse] at h ⊢
    unfold Tree.resolve at h ⊢
    split at h
    next => cases h
    next hanchors =>
      simp only [EStateM.run] at h ⊢
      cases hrun : Resolve.steps i chain.text none chain.tokens { tree := t } with
      | error e w => simp [hrun] at h
      | ok last w =>
        cases last with
        | none => simp [hrun] at h
        | some id =>
          simp only [hrun, Except.ok.injEq, Prod.mk.injEq] at h
          obtain ⟨rfl, rfl⟩ := h
          rw [if_neg hanchors]
          exact ⟨rfl, Nat.le_of_not_lt hanchors, w, hrun, rfl⟩

theorem resolveText_of_steps {text : String} {c : Chain} (hparse : Chain.parse text = .ok c)
    (hanchors : c.anchorCount ≤ 1) {leaf : Nat} {w : Work}
    (hrun : Resolve.steps i c.text none c.tokens { tree := t } = .ok (some leaf) w) :
    t.resolveText i text
      = ⟨.ok (c, leaf), w.tree, w.tree.size - t.size, w.calls, w.created.reverse⟩ := by
  unfold Tree.resolveText
  simp only [hparse]
  unfold Tree.resolve
  rw [if_neg (Nat.not_lt.mpr hanchors)]
  simp only [EStateM.run, hrun]

end Tree
end ChainMapping
