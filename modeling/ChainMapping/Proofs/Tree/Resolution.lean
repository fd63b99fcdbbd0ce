import ChainMapping.Tree.Resolve
import ChainMapping.Proofs.Ending
import ChainMapping.Proofs.Tree.Rollback

/-!
# What resolution does to a tree

Every step of resolution is described from the tree it starts in: if it succeeds, the tree is well
formed again and grew by the nodes of the segment; if it fails, the tree before the chain can be
restored.  The second part needs no account of what was made, because it is kept by each insertion.

`Tree.stop?` and `Tree.follow?` say where a chain leads in a tree as it stands, without making
anything.  A chain that has been resolved leads to its leaf, and goes on doing so as the tree grows.
-/

namespace ChainMapping

namespace Tree

/-- The node that a segment leads to from another one: the member if the segment names a container.
None if there is no such node or the notation of the segment does not fit it. -/
def stop? (t : Tree) (current : Option Nat) (token : Token) : Option Nat := do
  let id ← t.childOf? current token.name
  let n ← t.node? id
  if (Resolve.notationError? n.descriptor "" token).isSome then none
  else return (t.memberOf? id token.shape.side?).getD id

/-- Where segments lead from a node, all of them in a row. -/
def follow? (t : Tree) (current : Option Nat) : List Token → Option (Option Nat)
  | [] => some current
  | token :: rest => (t.stop? current token).bind fun next => t.follow? (some next) rest

/-- A chain that reading has given and that leads somewhere in a tree. -/
structure Resolves (t : Tree) (chain : Chain) : Prop where
  proper : chain.Proper
  leads : ∃ last, t.follow? none chain.tokens = some last

/-- The place where a segment with a given index is looked up: the root for the first one, and for
the others a node of the segment before that is no container. -/
def At (t : Tree) (current : Option Nat) (index : Nat) : Prop :=
  match current with
  | none => index = 0
  | some id => ∃ n, t.node? id = some n ∧ n.isContainer = false ∧ index = n.tokenIndex + 1

end Tree

namespace Resolving

/-- A computation that only asks leaves the tree as it is. -/
def Reads {α : Type} (m : Resolving α) : Prop :=
  ∀ w, Ends m w (fun _ w' => w'.tree = w.tree) (fun _ w' => w'.tree = w.tree)

theorem reads_pure {α : Type} (a : α) : Reads (pure a : Resolving α) := fun _ => rfl

theorem reads_throw {α : Type} (e : ChainError) : Reads (throw e : Resolving α) := fun _ => rfl

theorem reads_tree : Reads tree := fun _ => rfl

theorem reads_ask {α : Type} (answer : α) : Reads (ask answer) := fun _ => rfl

theorem reads_liftTypes {α : Type} (chain : String) (answer : Except TypeError α) :
    Reads (liftTypes chain answer) := by
  cases answer with
  | ok a => exact reads_pure a
  | error e => exact reads_throw _

theorem Reads.bind {α β : Type} {m : Resolving α} {f : α → Resolving β} (hm : Reads m)
    (hf : ∀ a, Reads (f a)) : Reads (m >>= f) := by
  intro w
  refine Ends.bind (hm w) fun a w' heq => ?_
  rw [← heq]
  exact hf a w'

/-- A question first, and then something that starts from the same tree. -/
theorem Reads.ends_bind {α β : Type} {m : Resolving α} {f : α → Resolving β} (h : Reads m)
    {w : Work} {post : β → Work → Prop} {fail : ChainError → Work → Prop}
    (hf : ∀ a w', w'.tree = w.tree → Ends (f a) w' post fail)
    (hfail : ∀ e w', w'.tree = w.tree → fail e w') : Ends (m >>= f) w post fail :=
  Ends.bind ((h w).mono (fun _ _ heq => heq) hfail) hf

theorem ends_tree_bind {α : Type} {f : Tree → Resolving α} {w : Work} {post : α → Work → Prop}
    {fail : ChainError → Work → Prop} (h : Ends (f w.tree) w post fail) :
    Ends (tree >>= f) w post fail := h

end Resolving

namespace Resolve

open Resolving (Reads)

/-! ## Questions -/

theorem reads_checkHint (i : Introspector) (chain : String) (token : Token) (node : Node) :
    Reads (checkHint i chain token node) := by
  unfold checkHint
  split
  · exact Resolving.reads_pure ()
  · simp only
    split
    · refine (Resolving.reads_ask _).bind fun answer => ?_
      refine (Resolving.reads_liftTypes chain answer).bind fun hinted => ?_
      split
      · exact Resolving.reads_throw _
      · exact Resolving.reads_pure ()
    · exact Resolving.reads_pure ()

theorem reads_ownerType (i : Introspector) (chain : String) (token : Token)
    (parent : Option Node) : Reads (ownerType i chain token parent) := by
  unfold ownerType
  refine Resolving.reads_tree.bind fun t => ?_
  simp only
  split
  · exact Resolving.reads_pure _
  · refine (Resolving.reads_ask _).bind fun answer => ?_
    split
    · exact Resolving.reads_pure _
    · exact Resolving.reads_throw _
  · exact Resolving.reads_throw _
  · exact Resolving.reads_throw _

theorem reads_concreteFor (i : Introspector) (chain path : String) (hint : Option String)
    (declared : TypeRef) : Reads (concreteFor i chain path hint declared) := by
  unfold concreteFor
  refine Resolving.reads_tree.bind fun t => ?_
  simp only
  split
  · refine (Resolving.reads_ask _).bind fun answer => ?_
    exact (Resolving.reads_liftTypes chain answer).bind fun _ => Resolving.reads_pure _
  · exact Resolving.reads_ask _

theorem reads_memberTypes (i : Introspector) (chain path : String) (hint : Option String)
    (element : Option TypeRef) (field : FieldType) :
    Reads (memberTypes i chain path hint element field) := by
  unfold memberTypes
  split
  · exact (reads_concreteFor i chain path hint _).bind fun _ => Resolving.reads_pure _
  · refine Resolving.reads_tree.bind fun t => ?_
    simp only
    split
    · refine (Resolving.reads_ask _).bind fun answer => ?_
      exact (Resolving.reads_liftTypes chain answer).bind fun _ => Resolving.reads_pure _
    · exact Resolving.reads_throw _

theorem ends_checkNotation {d : Descriptor} {chain : String} {token : Token} {w : Work} :
    Ends (checkNotation d chain token) w
      (fun _ w' => w' = w ∧ notationError? d chain token = none) (fun _ w' => w' = w) := by
  unfold checkNotation
  cases h : notationError? d chain token with
  | none => exact ⟨rfl, rfl⟩
  | some error => exact rfl

/-- Whether a notation fits does not depend on the text of the chain. -/
theorem notationError?_isSome (d : Descriptor) (chain other : String) (token : Token) :
    (notationError? d chain token).isSome = (notationError? d other token).isSome := by
  unfold notationError?
  repeat' split
  all_goals rfl

theorem fits_any {d : Descriptor} {chain other : String} {token : Token}
    (h : notationError? d chain token = none) : notationError? d other token = none := by
  have hsame := notationError?_isSome d chain other token
  rw [h] at hsame
  simpa using hsame.symm

/-! ## Making nodes -/

theorem ends_insert {t₀ : Tree} {w : Work} {chain : String} {parent : Option Nat} {key : String}
    {node : Node} (h₀ : t₀.Sound) (h : w.tree.Sound) (hr : t₀.Restores w.tree)
    (hfresh : w.tree.childOf? parent key = none) :
    Ends (Resolving.insert chain parent key node) w
      (fun id w' => w.tree.Inserted parent key node id w'.tree ∧ t₀.Restores w'.tree)
      (fun _ w' => t₀.Restores w'.tree) := by
  unfold Resolving.insert
  refine Resolving.ends_tree_bind ?_
  cases hi : w.tree.insert parent key node with
  | error e => exact hr
  | ok made =>
    have hinserted := Tree.inserted_of_insert hi
    exact ⟨hinserted, hr.insert h₀ h hinserted hfresh⟩

end Resolve

namespace Tree

/-- A container whose members are being made: `entries` are there, and every other container is
complete. -/
structure Open (t : Tree) (id : Nat) (n : Node) (entries : List (String × Nat)) : Prop where
  sound : t.Sound
  node : t.node? id = some { n with children := some entries }
  container : n.isContainer = true
  others : ∀ {other : Nat} {m : Node}, t.node? other = some m → other ≠ id → t.HasMembers m

namespace Open

variable {t t' : Tree} {id : Nat} {n : Node} {entries : List (String × Nat)}

theorem table_eq (h : t.Open id n entries) : t.childTable (some id) = entries :=
  table_of_node h.node

theorem insert (h : t.Open id n entries) {key : String} {node : Node} {new : Nat}
    (hi : t.Inserted (some id) key node new t') (hkey : key ∉ Ordered.keys entries)
    (hrole : node.descriptor.isMember = true) (hfirst : node.isFirst = false)
    (hindex : node.tokenIndex = n.tokenIndex)
    (hpath : node.path = n.path ++ node.descriptor.pathSuffix) (hchildren : node.children = none) :
    t'.Open id n (entries ++ [(key, new)]) := by
  have hlt : id < t.size := node?_lt h.node
  have hfresh : t.childOf? (some id) key = none := by
    rw [childOf?_eq_lookup, h.table_eq, Ordered.lookup_eq_none_iff]
    exact hkey
  have hparent : ∀ p, some id = some p → p < t.size := by
    intro p hp
    cases hp
    exact hlt
  have hplain : node.isContainer = false := by
    cases hd : node.descriptor <;> simp [hd, Descriptor.isMember] at hrole <;>
      simp [Node.isContainer, hd, Descriptor.isContainer, Descriptor.isCollection, Descriptor.isMap]
  have hnode : t'.node? id = some { n with children := some (entries ++ [(key, new)]) } := by
    rw [hi.node_kept h.node, relinked, if_pos rfl, linkChild, hi.id_eq]
    rw [childOf?_eq_lookup, h.table_eq] at hfresh
    simp [Ordered.put_of_lookup_eq_none hfresh]
  refine ⟨h.sound.insert hi hfresh hparent ?_ (by simp [hplain, hchildren]), hnode, h.container, ?_⟩
  · exact .member rfl hnode h.container hfirst hrole hindex hpath
  · intro other m hm hother
    rcases hi.node_cases hm with ⟨old, hold, rfl⟩ | ⟨-, rfl⟩
    · exact Sound.hasMembers_insert hi hfresh hparent (h.others hold hother)
        (.inr fun he => hother (Option.some.inj he).symm)
    · exact .of_plain hplain

/-- With its members there, the container is complete and the tree well formed. -/
theorem wellFormed (h : t.Open id n entries)
    (hm : t.HasMembers { n with children := some entries }) : t.WellFormed where
  toSound := h.sound
  members {other m} hn := by
    by_cases hother : other = id
    · subst hother
      rw [h.node] at hn
      exact Option.some.inj hn ▸ hm
    · exact h.others hn hother

end Open
end Tree

namespace Resolve

variable {t₀ : Tree} {w : Work} {i : Introspector} {chain : String} {token : Token}

theorem ends_createMember {id : Nat} {n : Node} {entries : List (String × Nat)} (h₀ : t₀.Sound)
    (h : w.tree.Open id n entries) (hr : t₀.Restores w.tree) {field : FieldType}
    {key path : String} {d : Descriptor} {hint : Option String} {element : Option TypeRef}
    (hkey : key ∉ Ordered.keys entries) (hrole : d.isMember = true)
    (hindex : token.index = n.tokenIndex) (hpath : path = n.path ++ d.pathSuffix) :
    Ends (createMember i chain token id field key path d hint element) w
      (fun new w' => w'.tree.Open id n (entries ++ [(key, new)]) ∧ w'.tree.role? new = some d
        ∧ w.tree.Extends w'.tree ∧ t₀.Restores w'.tree)
      (fun _ w' => t₀.Restores w'.tree) := by
  unfold createMember
  refine (reads_memberTypes i chain path hint element field).ends_bind ?_ fun _ _ he => he ▸ hr
  rintro ⟨declared, concrete⟩ w₁ h₁
  refine Resolving.ends_tree_bind ?_
  have hopen : w₁.tree.Open id n entries := h₁ ▸ h
  have hfresh : w₁.tree.childOf? (some id) key = none := by
    rw [Tree.childOf?_eq_lookup, hopen.table_eq, Ordered.lookup_eq_none_iff]
    exact hkey
  have hparent : ∀ p, some id = some p → p < w₁.tree.size := by
    intro p hp
    cases hp
    exact Tree.node?_lt hopen.node
  refine (ends_insert h₀ hopen.sound (h₁ ▸ hr) hfresh).mono ?_ fun _ _ hrestores => hrestores
  intro new w₂ hcase
  obtain ⟨hi, hrestores⟩ := hcase
  refine ⟨hopen.insert hi hkey hrole rfl hindex hpath rfl, ?_, ?_, hrestores⟩
  · rw [Tree.role?, hi.node_new_id]
    rfl
  · rw [← h₁]
    exact hi.extends hfresh hparent

/-- The member of a collection completes it. -/
theorem ends_createCollectionMember {id : Nat} {n : Node} (h₀ : t₀.Sound)
    (h : w.tree.Open id n []) (hr : t₀.Restores w.tree)
    (hcollection : n.descriptor.isCollection = true) (hindex : token.index = n.tokenIndex) :
    Ends (createCollectionMember i chain token id n.path n.field) w
      (fun _ w' => w'.tree.WellFormed ∧ w.tree.Extends w'.tree ∧ t₀.Restores w'.tree)
      (fun _ w' => t₀.Restores w'.tree) := by
  unfold createCollectionMember
  refine (Resolving.reads_ask _).ends_bind (fun args w₁ h₁ => ?_) fun _ _ he => he ▸ hr
  have hopen : w₁.tree.Open id n [] := h₁ ▸ h
  refine Ends.bind (ends_createMember h₀ hopen (h₁ ▸ hr) List.not_mem_nil rfl hindex rfl) ?_
  intro new w₂ hcase
  obtain ⟨hopen', hrole, hextends, hrestores⟩ := hcase
  refine Ends.pure ⟨hopen'.wellFormed ⟨fun _ => ⟨new, rfl, hrole⟩, fun hmap => ?_⟩,
    h₁ ▸ hextends, hrestores⟩
  -- A collection is no map.
  have hmap' : n.descriptor.isMap = true := hmap
  cases hd : n.descriptor <;>
    simp [hd, Descriptor.isCollection, Descriptor.isMap] at hcollection hmap'

theorem valueKey_ne_keyKey (field : String) :
    MapSide.value.memberKey field ≠ MapSide.key.memberKey field := by
  intro h
  have hlist := congrArg String.toList h
  simp [MapSide.memberKey, MapSide.marker, String.toList_append] at hlist

/-- The key and value members of a map complete it. -/
theorem ends_createMapMembers {id : Nat} {n : Node} (h₀ : t₀.Sound) (h : w.tree.Open id n [])
    (hr : t₀.Restores w.tree) (hmap : n.descriptor.isMap = true)
    (hindex : token.index = n.tokenIndex) :
    Ends (createMapMembers i chain token id n.path n.field) w
      (fun _ w' => w'.tree.WellFormed ∧ w.tree.Extends w'.tree ∧ t₀.Restores w'.tree)
      (fun _ w' => t₀.Restores w'.tree) := by
  unfold createMapMembers
  refine (Resolving.reads_ask _).ends_bind (fun args w₁ h₁ => ?_) fun _ _ he => he ▸ hr
  have hopen : w₁.tree.Open id n [] := h₁ ▸ h
  refine Ends.bind (ends_createMember h₀ hopen (h₁ ▸ hr) List.not_mem_nil rfl hindex rfl) ?_
  intro key w₂ hcase
  obtain ⟨hopen₂, hkey, hextends₂, hr₂⟩ := hcase
  have hother : MapSide.value.memberKey n.field.name
      ∉ Ordered.keys [(MapSide.key.memberKey n.field.name, key)] := by
    simpa [Ordered.keys] using valueKey_ne_keyKey n.field.name
  refine Ends.bind (ends_createMember h₀ hopen₂ hr₂ hother rfl hindex rfl) ?_
  intro value w₃ hcase
  obtain ⟨hopen₃, hvalue, hextends₃, hr₃⟩ := hcase
  refine Ends.pure ⟨hopen₃.wellFormed ⟨fun hcollection => ?_, fun _ => ?_⟩,
    h₁ ▸ hextends₂.trans hextends₃, hr₃⟩
  · have hcollection' : n.descriptor.isCollection = true := hcollection
    cases hd : n.descriptor <;>
      simp [hd, Descriptor.isCollection, Descriptor.isMap] at hcollection' hmap
  · exact ⟨key, value, rfl, Tree.role?_mono hextends₃ hkey, hvalue⟩

/-- A segment that has been made: the tree is well formed and grew, and the segment has its node. -/
structure Made (t₀ t : Tree) (current : Option Nat) (token : Token) (id : Nat) (t' : Tree) : Prop
    where
  wellFormed : t'.WellFormed
  extends_ : t.Extends t'
  restores : t₀.Restores t'
  child : t'.childOf? current token.name = some id
  node : ∃ n, t'.node? id = some n ∧ notationError? n.descriptor "" token = none
    ∧ n.tokenIndex = token.index

theorem parent_of_at {t : Tree} (h : t.Sound) {current : Option Nat} {index : Nat}
    (hat : t.At current index) : (current.bind t.node?).map (·.id) = current := by
  cases current with
  | none => rfl
  | some id =>
    obtain ⟨n, hn, -, -⟩ := hat
    simp [hn, h.id_eq hn]

/-- The node of a segment without its members is in its place. -/
theorem placed_new {t t' : Tree} {current : Option Nat} (hat : t.At current token.index)
    (hname : Chain.IsName token.name) {node : Node} (he : t.Extends t')
    (hrole : node.descriptor.isMember = false)
    (hfirst : node.isFirst = (current.bind t.node?).isNone)
    (hindex : node.tokenIndex = token.index)
    (hpath : node.path = pathBelow (current.bind t.node?) token.name) :
    t'.Placed (t.stored current token.name node) := by
  cases current with
  | none => exact .first rfl hfirst hrole (hindex.trans hat) hpath hname
  | some p =>
    obtain ⟨up, hup, hplain, hup_index⟩ := hat
    obtain ⟨cs, hup'⟩ := he.node hup
    simp only [Option.bind_some, hup] at hpath hfirst
    exact .below rfl hup' hplain hfirst hrole (hindex.trans hup_index) hpath hname

theorem isMember_ofKind (k : Kind) : (Descriptor.ofKind k).isMember = false := by
  cases k <;> rfl

/-- Inserting the node of a segment opens it if it is a container, and is all there is to do if it
is not. -/
theorem ends_insertSegment {current : Option Nat} (h₀ : t₀.Sound) (h : w.tree.WellFormed)
    (hr : t₀.Restores w.tree) (hat : w.tree.At current token.index)
    (hname : Chain.IsName token.name) (hfresh : w.tree.childOf? current token.name = none)
    {node : Node} (hrole : node.descriptor.isMember = false)
    (hfirst : node.isFirst = (current.bind w.tree.node?).isNone)
    (hindex : node.tokenIndex = token.index)
    (hpath : node.path = pathBelow (current.bind w.tree.node?) token.name)
    (hchildren : node.children = if node.isContainer then some [] else none) :
    Ends (Resolving.insert chain current token.name node) w
      (fun id w' => w.tree.Extends w'.tree ∧ t₀.Restores w'.tree
        ∧ w'.tree.childOf? current token.name = some id
        ∧ w'.tree.node? id = some (w.tree.stored current token.name node)
        ∧ (node.isContainer = true →
            w'.tree.Open id (w.tree.stored current token.name node) [])
        ∧ (node.isContainer = false → w'.tree.WellFormed))
      (fun _ w' => t₀.Restores w'.tree) := by
  have hparent : ∀ p, current = some p → p < w.tree.size := by
    rintro p rfl
    obtain ⟨n, hn, -, -⟩ := hat
    exact Tree.node?_lt hn
  refine (ends_insert h₀ h.toSound hr hfresh).mono ?_ fun _ _ hrestores => hrestores
  intro id w' hcase
  obtain ⟨hi, hrestores⟩ := hcase
  have he := hi.extends hfresh hparent
  have hsound : w'.tree.Sound :=
    h.toSound.insert hi hfresh hparent (placed_new hat hname he hrole hfirst hindex hpath) hchildren
  have hothers : ∀ {other : Nat} {m : Node}, w'.tree.node? other = some m → other ≠ id →
      w'.tree.HasMembers m := by
    intro other m hm hother
    rcases hi.node_cases hm with ⟨old, hold, rfl⟩ | ⟨heq, -⟩
    · refine Tree.Sound.hasMembers_insert hi hfresh hparent (h.members hold) ?_
      -- The parent of a segment is no container.
      by_cases hp : current = some other
      · subst hp
        obtain ⟨n, hn, hplain, -⟩ := hat
        rw [hold] at hn
        exact .inl (Option.some.inj hn ▸ hplain)
      · exact .inr hp
    · exact absurd (heq.trans hi.id_eq.symm) hother
  have hchild : w'.tree.childOf? current token.name = some id := by
    rw [hsound.childOf?_eq_some_iff]
    exact ⟨_, hi.node_new_id, rfl, rfl⟩
  refine ⟨he, hrestores, hchild, hi.node_new_id, fun hcontainer => ?_, fun hplain => ?_⟩
  · refine ⟨hsound, ?_, hcontainer, hothers⟩
    rw [hi.node_new_id]
    simp [Tree.stored, hchildren, hcontainer]
  · refine ⟨hsound, fun {other m} hm => ?_⟩
    by_cases hother : other = id
    · subst hother
      rw [hi.node_new_id] at hm
      exact .of_plain (Option.some.inj hm ▸ hplain)
    · exact hothers hm hother

theorem ends_createMembers {id : Nat} {n : Node} (h₀ : t₀.Sound) (h : w.tree.Open id n [])
    (hr : t₀.Restores w.tree) (hindex : token.index = n.tokenIndex) :
    Ends (createMembers i chain token n.descriptor id n.path n.field) w
      (fun _ w' => w'.tree.WellFormed ∧ w.tree.Extends w'.tree ∧ t₀.Restores w'.tree)
      (fun _ w' => t₀.Restores w'.tree) := by
  unfold createMembers
  split
  next hcollection => exact ends_createCollectionMember h₀ h hr hcollection hindex
  next hcollection =>
    have hmap : n.descriptor.isMap = true := by
      have hcontainer := h.container
      simp only [Node.isContainer, Descriptor.isContainer, Bool.or_eq_true] at hcontainer
      exact hcontainer.resolve_left hcollection
    rw [if_pos hmap]
    exact ends_createMapMembers h₀ h hr hmap hindex

theorem createMembers_plain {d : Descriptor} (h : d.isContainer = false) {id : Nat} {path : String}
    {field : FieldType} : createMembers i chain token d id path field = pure () := by
  simp only [Descriptor.isContainer, Bool.or_eq_false_iff] at h
  simp [createMembers, h.1, h.2]

theorem ends_addNode {current : Option Nat} (h₀ : t₀.Sound) (h : w.tree.WellFormed)
    (hr : t₀.Restores w.tree) (hat : w.tree.At current token.index)
    (hname : Chain.IsName token.name) (hfresh : w.tree.childOf? current token.name = none)
    {field : FieldType} {concrete : Option TypeRef}
    (hfits : notationError? (Descriptor.ofKind field.declared.kind) "" token = none) :
    Ends (addNode i chain token (current.bind w.tree.node?) field concrete) w
      (fun id w' => Made t₀ w.tree current token id w'.tree)
      (fun _ w' => t₀.Restores w'.tree) := by
  unfold addNode
  refine Resolving.ends_tree_bind ?_
  simp only
  rw [parent_of_at h.toSound hat]
  refine Ends.bind (ends_insertSegment h₀ h hr hat hname hfresh
    (isMember_ofKind _) rfl rfl rfl rfl) ?_
  intro id w₁ hcase
  obtain ⟨he, hr₁, hchild, hnode, hopen, hplain⟩ := hcase
  cases hcontainer : (Descriptor.ofKind field.declared.kind).isContainer with
  | true =>
    refine Ends.bind (ends_createMembers h₀ (hopen hcontainer) hr₁ rfl) ?_
    rintro ⟨⟩ w₂ ⟨hwf, he₂, hr₂⟩
    obtain ⟨cs, hnode₂⟩ := he₂.node hnode
    exact ⟨hwf, he.trans he₂, hr₂, he₂.childOf? hchild, _, hnode₂, hfits, rfl⟩
  | false =>
    rw [createMembers_plain hcontainer]
    exact ⟨hplain hcontainer, he, hr₁, hchild, _, hnode, hfits, rfl⟩

theorem ends_createNode {current : Option Nat} (h₀ : t₀.Sound) (h : w.tree.WellFormed)
    (hr : t₀.Restores w.tree) (hat : w.tree.At current token.index)
    (hname : Chain.IsName token.name) (hfresh : w.tree.childOf? current token.name = none) :
    Ends (createNode i chain token (current.bind w.tree.node?)) w
      (fun id w' => Made t₀ w.tree current token id w'.tree)
      (fun _ w' => t₀.Restores w'.tree) := by
  unfold createNode
  refine (reads_ownerType i chain token _).ends_bind (fun owner w₁ h₁ => ?_) fun _ _ he => he ▸ hr
  refine (Resolving.reads_ask _).ends_bind (fun answer w₂ h₂ => ?_)
    fun _ _ he => (he.trans h₁) ▸ hr
  refine (Resolving.reads_liftTypes chain answer).ends_bind (fun field w₃ h₃ => ?_)
    fun _ _ he => (he.trans (h₂.trans h₁)) ▸ hr
  have htree : w₃.tree = w.tree := h₃.trans (h₂.trans h₁)
  refine Ends.bind (ends_checkNotation.mono (fun _ _ hn => hn) fun _ _ he => ?_) ?_
  · rw [he, htree]
    exact hr
  rintro ⟨⟩ w₄ ⟨rfl, hfits⟩
  have hfits' : notationError? (Descriptor.ofKind field.declared.kind) "" token = none :=
    fits_any hfits
  have hadd : ∀ (concrete : Option TypeRef) (w₅ : Work), w₅.tree = w.tree →
      Ends (addNode i chain token (current.bind w.tree.node?) field concrete) w₅
        (fun id w' => Made t₀ w.tree current token id w'.tree)
        (fun _ w' => t₀.Restores w'.tree) := by
    intro concrete w₅ h₅
    rw [← h₅] at h hr hat hfresh ⊢
    exact ends_addNode h₀ h hr hat hname hfresh hfits'
  simp only
  split
  · exact hadd none _ htree
  · refine (reads_concreteFor i chain _ token.hint field.declared).ends_bind
      (fun concrete w₅ h₅ => ?_) fun _ _ he => (he.trans htree) ▸ hr
    exact hadd concrete w₅ (h₅.trans htree)

end Resolve
/-! ## Where segments lead -/

theorem Resolve.side_of_fits {d : Descriptor} {chain : String} {token : Token}
    (hmap : d.isMap = true) (hfits : notationError? d chain token = none) :
    ∃ side, token.shape.side? = some side := by
  have hcollection : d.isCollection = false := by
    cases d <;> simp [Descriptor.isMap, Descriptor.isCollection] at hmap ⊢
  cases hside : token.shape.side? with
  | some side => exact ⟨side, rfl⟩
  | none => simp [notationError?, hcollection, hmap, hside] at hfits

/-- A segment that fits a node names a container exactly if the node is one. -/
theorem Resolve.isContainer_of_fits {d : Descriptor} {chain : String} {token : Token}
    (h : notationError? d chain token = none) : token.isContainer = d.isContainer := by
  unfold notationError? at h
  split at h
  next hcollection =>
    split at h
    next hshape => simp [Token.isContainer, Shape.isContainer, Descriptor.isContainer, *]
    next => split at h <;> simp at h
  next hcollection =>
    split at h
    next hmap =>
      split at h
      next => simp at h
      next hside =>
        cases hshape : token.shape <;> simp [hshape, Shape.side?] at hside
        simp [Token.isContainer, Shape.isContainer, Shape.isMap, Descriptor.isContainer, *]
    next hmap =>
      have hplain : token.isContainer = false := by
        cases htoken : token.isContainer with
        | false => rfl
        | true =>
          rw [htoken] at h
          split at h
          · simp at h
          · split at h <;> simp at h
      simp [hplain, Descriptor.isContainer, hcollection, hmap]

namespace Tree

variable {t t' : Tree}

theorem memberOf?_of_plain {id : Nat} {n : Node} (hn : t.node? id = some n)
    (hplain : n.isContainer = false) (side : Option MapSide) : t.memberOf? id side = none := by
  simp only [Node.isContainer, Descriptor.isContainer, Bool.or_eq_false_iff] at hplain
  simp [memberOf?, hn, hplain.1, hplain.2]

theorem memberOf?_eq_some_iff {id m : Nat} {n : Node} (hn : t.node? id = some n)
    {side : Option MapSide} :
    t.memberOf? id side = some m ↔
      (n.descriptor.isMap = true ∧ ∃ s, side = some s
        ∧ t.childOf? (some id) (s.memberKey n.field.name) = some m)
      ∨ (n.descriptor.isMap = false ∧ n.descriptor.isCollection = true
        ∧ t.childOf? (some id) n.field.name = some m) := by
  simp only [memberOf?, hn, childOf?, Option.bind_some]
  cases hmap : n.descriptor.isMap with
  | true => cases side <;> simp [hmap]
  | false => cases hcollection : n.descriptor.isCollection <;> simp [hmap, hcollection]

theorem Extends.memberOf? (he : t.Extends t') {id m : Nat} {side : Option MapSide}
    (hm : t.memberOf? id side = some m) : t'.memberOf? id side = some m := by
  cases hn : t.node? id with
  | none => simp [Tree.memberOf?, hn] at hm
  | some n =>
    obtain ⟨cs, hn'⟩ := he.node hn
    rw [memberOf?_eq_some_iff hn] at hm
    rw [memberOf?_eq_some_iff hn']
    rcases hm with ⟨hmap, s, hside, hc⟩ | ⟨hmap, hcollection, hc⟩
    · exact .inl ⟨hmap, s, hside, he.childOf? hc⟩
    · exact .inr ⟨hmap, hcollection, he.childOf? hc⟩

/-- A segment that fits a container leads to one of its members. -/
theorem WellFormed.member_of_fits (h : t.WellFormed) {id : Nat} {n : Node}
    (hn : t.node? id = some n) (hcontainer : n.isContainer = true) {token : Token}
    (hfits : Resolve.notationError? n.descriptor "" token = none) :
    ∃ m member, t.memberOf? id token.shape.side? = some m ∧ t.node? m = some member
      ∧ member.parent = some id ∧ member.descriptor.isMember = true
      ∧ member.tokenIndex = n.tokenIndex := by
  have hmember : ∃ m, t.memberOf? id token.shape.side? = some m := by
    simp only [memberOf?_eq_some_iff hn, childOf?_eq_lookup, table_of_node hn]
    cases hmap : n.descriptor.isMap with
    | true =>
      obtain ⟨side, hside⟩ := Resolve.side_of_fits hmap hfits
      obtain ⟨key, value, hchildren, -, -⟩ := (h.members hn).map hmap
      rw [hchildren]
      cases side with
      | key => exact ⟨key, .inl ⟨rfl, .key, hside, by simp⟩⟩
      | value =>
        have hne := beq_eq_false_iff_ne.mpr (Resolve.valueKey_ne_keyKey n.field.name)
        exact ⟨value, .inl ⟨rfl, .value, hside, by simp [List.lookup_cons, hne]⟩⟩
    | false =>
      have hcollection : n.descriptor.isCollection = true := by
        simpa [Node.isContainer, Descriptor.isContainer, hmap] using hcontainer
      obtain ⟨m, hchildren, -⟩ := (h.members hn).collection hcollection
      exact ⟨m, .inr ⟨rfl, hcollection, by simp [hchildren]⟩⟩
  obtain ⟨m, hm⟩ := hmember
  have hchild : ∃ key, t.childOf? (some id) key = some m := by
    rcases (memberOf?_eq_some_iff hn).mp hm with ⟨-, s, -, hc⟩ | ⟨-, -, hc⟩
    · exact ⟨_, hc⟩
    · exact ⟨_, hc⟩
  obtain ⟨key, hkey⟩ := hchild
  obtain ⟨member, hnode, hparent, -⟩ := h.childOf?_eq_some_iff.mp hkey
  refine ⟨m, member, hm, hnode, hparent, ?_⟩
  cases h.placed hnode with
  | first parent => simp [hparent] at parent
  | below parent node plain =>
    rw [hparent, Option.some.injEq] at parent
    rw [← parent, hn, Option.some.injEq] at node
    rw [← node, hcontainer] at plain
    exact absurd plain (by simp)
  | member parent node _ _ role index =>
    rw [hparent, Option.some.injEq] at parent
    rw [← parent, hn, Option.some.injEq] at node
    exact ⟨role, node ▸ index⟩

/-- The segment of a node that is not a member is the one it was looked up for. -/
theorem Sound.tokenIndex_of_childOf? (h : t.Sound) {current : Option Nat} {index : Nat}
    (hat : t.At current index) {key : String} {id : Nat} {n : Node}
    (hc : t.childOf? current key = some id) (hn : t.node? id = some n) :
    n.tokenIndex = index ∧ n.descriptor.isMember = false := by
  obtain ⟨n', hn', hparent, -⟩ := h.childOf?_eq_some_iff.mp hc
  rw [hn, Option.some.injEq] at hn'
  subst hn'
  cases current with
  | none =>
    have hzero : index = 0 := hat
    cases h.placed hn with
    | first _ _ role htoken => exact ⟨htoken.trans hzero.symm, role⟩
    | below parent => simp [hparent] at parent
    | member parent => simp [hparent] at parent
  | some p =>
    obtain ⟨up, hup, hplain, hindex⟩ := hat
    cases h.placed hn with
    | first parent => simp [hparent] at parent
    | below parent node _ _ role htoken =>
      rw [hparent, Option.some.injEq] at parent
      rw [← parent, hup, Option.some.injEq] at node
      exact ⟨by rw [htoken, ← node, hindex], role⟩
    | member parent node container =>
      rw [hparent, Option.some.injEq] at parent
      rw [← parent, hup, Option.some.injEq] at node
      rw [← node, hplain] at container
      exact absurd container (by simp)

/-- A segment leads to a node with the index of the segment that is no container. -/
theorem WellFormed.at_next (h : t.WellFormed) {id : Nat} {n : Node} (hn : t.node? id = some n)
    {token : Token} (hfits : Resolve.notationError? n.descriptor "" token = none)
    (hindex : n.tokenIndex = token.index) :
    t.At (some ((t.memberOf? id token.shape.side?).getD id)) (token.index + 1) := by
  cases hcontainer : n.isContainer with
  | false =>
    rw [memberOf?_of_plain hn hcontainer]
    exact ⟨n, hn, hcontainer, by rw [hindex]⟩
  | true =>
    obtain ⟨m, member, hm, hnode, -, hrole, htoken⟩ := h.member_of_fits hn hcontainer hfits
    rw [hm]
    refine ⟨member, hnode, ?_, by rw [htoken, hindex]⟩
    cases hd : member.descriptor <;> simp [hd, Descriptor.isMember] at hrole <;>
      simp [Node.isContainer, hd, Descriptor.isContainer, Descriptor.isCollection,
        Descriptor.isMap]

theorem stop?_eq {current : Option Nat} {token : Token} {id : Nat} {n : Node}
    (hc : t.childOf? current token.name = some id) (hn : t.node? id = some n)
    (hfits : Resolve.notationError? n.descriptor "" token = none) :
    t.stop? current token = some ((t.memberOf? id token.shape.side?).getD id) := by
  simp [stop?, hc, hn, hfits]

theorem stop?_eq_some {current : Option Nat} {token : Token} {next : Nat}
    (h : t.stop? current token = some next) :
    ∃ id n, t.childOf? current token.name = some id ∧ t.node? id = some n
      ∧ Resolve.notationError? n.descriptor "" token = none
      ∧ next = (t.memberOf? id token.shape.side?).getD id := by
  unfold stop? at h
  cases hc : t.childOf? current token.name with
  | none => simp [hc] at h
  | some id =>
    cases hn : t.node? id with
    | none => simp [hc, hn] at h
    | some n =>
      cases hfits : Resolve.notationError? n.descriptor "" token with
      | some error => simp [hc, hn, hfits] at h
      | none =>
        simp only [hc, hn, hfits, Option.bind_eq_bind, Option.bind_some, Option.isSome_none,
          Bool.false_eq_true, if_false, Option.pure_def, Option.some.injEq] at h
        exact ⟨id, n, rfl, hn, hfits, h.symm⟩

/-- A segment goes on leading where it led as the tree grows. -/
theorem WellFormed.stop?_mono (h : t.WellFormed) (he : t.Extends t') {current : Option Nat}
    {token : Token} {next : Nat} (hs : t.stop? current token = some next) :
    t'.stop? current token = some next := by
  obtain ⟨id, n, hc, hn, hfits, rfl⟩ := stop?_eq_some hs
  obtain ⟨cs, hn'⟩ := he.node hn
  rw [stop?_eq (he.childOf? hc) hn' hfits]
  cases hcontainer : n.isContainer with
  | false => rw [memberOf?_of_plain hn hcontainer, memberOf?_of_plain hn' hcontainer]
  | true =>
    obtain ⟨m, member, hm, -⟩ := h.member_of_fits hn hcontainer hfits
    rw [hm, he.memberOf? hm]

theorem WellFormed.follow?_mono (h : t.WellFormed) (he : t.Extends t') {current last : Option Nat}
    {tokens : List Token} (hf : t.follow? current tokens = some last) :
    t'.follow? current tokens = some last := by
  induction tokens generalizing current with
  | nil => exact hf
  | cons token rest ih =>
    obtain ⟨next, hnext, hrest⟩ := Option.bind_eq_some_iff.mp hf
    rw [follow?, h.stop?_mono he hnext, Option.bind_some]
    exact ih hrest

theorem WellFormed.resolves_mono (h : t.WellFormed) (he : t.Extends t') {chain : Chain}
    (hc : t.Resolves chain) : t'.Resolves chain := by
  obtain ⟨last, hleads⟩ := hc.leads
  exact ⟨hc.proper, last, h.follow?_mono he hleads⟩

end Tree

/-! ## Whole chains -/

namespace Resolve

variable {t₀ : Tree} {w : Work} {i : Introspector} {chain : String} {token : Token}

/-- One segment: the node is there or is made, and the segment leads to it from then on. -/
theorem ends_step {current : Option Nat} (h₀ : t₀.Sound) (h : w.tree.WellFormed)
    (hr : t₀.Restores w.tree) (hat : w.tree.At current token.index)
    (hname : Chain.IsName token.name) :
    Ends (step i chain current token) w
      (fun next w' => w'.tree.WellFormed ∧ w.tree.Extends w'.tree ∧ t₀.Restores w'.tree
        ∧ w'.tree.stop? current token = some next
        ∧ w'.tree.At (some next) (token.index + 1))
      (fun _ w' => t₀.Restores w'.tree) := by
  unfold step
  refine Resolving.ends_tree_bind ?_
  cases hc : w.tree.childOf? current token.name with
  | some id =>
    obtain ⟨n, hn, -, -⟩ := h.childOf?_eq_some_iff.mp hc
    obtain ⟨hindex, -⟩ := h.tokenIndex_of_childOf? hat hc hn
    simp only [hn]
    refine Ends.bind (ends_checkNotation.mono (fun _ _ hfits => hfits) fun _ _ he => he ▸ hr) ?_
    rintro ⟨⟩ w₁ ⟨rfl, hfits⟩
    have hfits' : notationError? n.descriptor "" token = none := fits_any hfits
    have hstop := Tree.stop?_eq hc hn hfits'
    have hnext := h.at_next hn hfits' hindex
    split
    · refine (reads_checkHint i chain token _).ends_bind (fun _ w₂ h₂ => ?_) fun _ _ he => he ▸ hr
      refine Ends.pure ?_
      rw [h₂]
      exact ⟨h, .refl _, hr, hstop, hnext⟩
    · exact Ends.pure ⟨h, .refl _, hr, hstop, hnext⟩
  | none =>
    refine Ends.bind (ends_createNode h₀ h hr hat hname hc) fun id w₁ hmade => ?_
    refine Resolving.ends_tree_bind (Ends.pure ?_)
    obtain ⟨n, hn, hfits, hindex⟩ := hmade.node
    exact ⟨hmade.wellFormed, hmade.extends_, hmade.restores,
      Tree.stop?_eq hmade.child hn hfits, hmade.wellFormed.at_next hn hfits hindex⟩

/-- All segments of a chain: they lead to where the chain ends, now that they have been resolved. -/
theorem ends_steps {current : Option Nat} {index : Nat} {tokens : List Token} (h₀ : t₀.Sound)
    (h : w.tree.WellFormed) (hr : t₀.Restores w.tree) (hat : w.tree.At current index)
    (hnumbered : Chain.NumberedFrom index tokens)
    (hnames : ∀ token ∈ tokens, Chain.IsName token.name) :
    Ends (steps i chain current tokens) w
      (fun last w' => w'.tree.WellFormed ∧ w.tree.Extends w'.tree ∧ t₀.Restores w'.tree
        ∧ w'.tree.follow? current tokens = some last)
      (fun _ w' => t₀.Restores w'.tree) := by
  induction tokens generalizing current index w with
  | nil => exact Ends.pure ⟨h, .refl _, hr, rfl⟩
  | cons token rest ih =>
    obtain ⟨rfl, hrest⟩ := hnumbered
    have hname := hnames token List.mem_cons_self
    refine Ends.bind (ends_step h₀ h hr hat hname) ?_
    intro next w₁ hcase
    obtain ⟨hwf, he, hr₁, hstop, hnext⟩ := hcase
    have hnames' : ∀ token ∈ rest, Chain.IsName token.name :=
      fun token hmem => hnames token (List.mem_cons_of_mem _ hmem)
    refine (ih hwf hr₁ hnext hrest hnames').mono ?_ fun _ _ hrestores => hrestores
    intro last w₂ hcase
    obtain ⟨hwf₂, he₂, hr₂, hfollow⟩ := hcase
    refine ⟨hwf₂, he.trans he₂, hr₂, ?_⟩
    rw [Tree.follow?, hwf.stop?_mono he₂ hstop, Option.bind_some]
    exact hfollow

end Resolve

namespace Tree

variable {t : Tree} {i : Introspector} {chain : Chain}

/-- Resolving a chain in a well-formed tree either fails and leaves the tree as it was, or makes the
tree grow so that the chain leads to its leaf. -/
theorem WellFormed.resolve (h : t.WellFormed) (hproper : chain.Proper) :
    (∃ e, (t.resolve i chain).outcome = .error e ∧ (t.resolve i chain).tree = t)
      ∨ (∃ leaf, (t.resolve i chain).outcome = .ok (chain, leaf)
        ∧ (t.resolve i chain).tree.WellFormed ∧ t.Extends (t.resolve i chain).tree
        ∧ (t.resolve i chain).tree.follow? none chain.tokens = some (some leaf)) := by
  have hat : t.At none 0 := rfl
  have hends : Ends (Resolve.steps i chain.text none chain.tokens) { tree := t }
      (fun last w => w.tree.WellFormed ∧ t.Extends w.tree ∧ t.Restores w.tree
        ∧ w.tree.follow? none chain.tokens = some last)
      (fun _ w => t.Restores w.tree) :=
    Resolve.ends_steps h.toSound h (.refl t) hat hproper.numbered hproper.names
  unfold Tree.resolve
  split
  · exact .inl ⟨_, rfl, rfl⟩
  · unfold Ends at hends
    simp only [EStateM.run]
    cases hrun : Resolve.steps i chain.text none chain.tokens { tree := t } with
    | ok last w =>
      rw [hrun] at hends
      obtain ⟨hwf, he, hr, hfollow⟩ := hends
      cases last with
      | some leaf => exact .inr ⟨leaf, rfl, hwf, he, hfollow⟩
      | none => exact .inl ⟨_, rfl, hr⟩
    | error e w =>
      rw [hrun] at hends
      exact .inl ⟨e, rfl, hends⟩

theorem WellFormed.resolveText (h : t.WellFormed) (text : String) :
    (∃ e, (t.resolveText i text).outcome = .error e ∧ (t.resolveText i text).tree = t)
      ∨ (∃ chain leaf, (t.resolveText i text).outcome = .ok (chain, leaf)
        ∧ Chain.parse text = .ok chain ∧ (t.resolveText i text).tree.WellFormed
        ∧ t.Extends (t.resolveText i text).tree
        ∧ (t.resolveText i text).tree.follow? none chain.tokens = some (some leaf)) := by
  unfold Tree.resolveText
  cases hparse : Chain.parse text with
  | error e => exact .inl ⟨_, rfl, rfl⟩
  | ok chain =>
    rcases h.resolve (i := i) (Chain.proper_of_parse hparse).2 with herror | ⟨leaf, hok⟩
    · exact .inl herror
    · exact .inr ⟨chain, leaf, hok.1, rfl, hok.2⟩

end Tree
end ChainMapping
