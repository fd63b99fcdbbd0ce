import ChainMapping.Index.Chain
import ChainMapping.Proofs.Chain.Prefix
import ChainMapping.Proofs.Tree.Resolution

/-!
# The levels of a chain

A chain meets one container after the other.  `Tree.levels` says what each of them is, as the tree
describes it: which fields are read on the way to it, under which id it is indexed, and which side
of its entries the chain goes on from.  Nothing of a live value is in it.

A cursor that goes along the chain answers from the tree and the chain what the levels hold.
`Cursor.Follows` states this once, for the four questions that indexing asks, so that no proof about
indexing has to look at segments again.
-/

namespace ChainMapping

/-- A container that a chain meets. -/
structure ChainLevel where
  /-- the fields read one after the other, that of the container last -/
  fields : List FieldType
  names : List String
  path : String
  descriptor : Descriptor
  side : Option MapSide
  deriving DecidableEq

namespace ChainLevel

/-- The id under which the container is indexed. -/
def key (l : ChainLevel) : String :=
  Text.join "." l.names ++ (if l.descriptor.isMap then "[*,*]" else "[*]")

/-- The level from one field further up. -/
def afterField (name : String) (field : FieldType) (l : ChainLevel) : ChainLevel :=
  { l with fields := field :: l.fields, names := name :: l.names }

/-- Whether a value is a container of the kind that the level says. -/
def check (l : ChainLevel) (container : Value) : Except IndexingError Unit :=
  match container, l.descriptor.isMap with
  | .sequence _, false => .ok ()
  | .map _, true => .ok ()
  | other, _ => .error (.treeMismatch (.wrongValue l.path l.descriptor other.kind))

end ChainLevel

/-- Reads fields one after the other, none if one is not set. -/
def Store.readAlong (s : Store) : List FieldType → Value → Except IndexingError (Option Value)
  | [], v => .ok (some v)
  | field :: rest, v =>
    match s.readField field v with
    | .error e => .error e
    | .ok none => .ok none
    | .ok (some value) => s.readAlong rest value

namespace Tree

/-- The node from which the segment after `token` is looked up, if `token` names node `id`. -/
def onward (t : Tree) (id : Nat) (token : Token) : Nat :=
  (t.memberOf? id token.shape.side?).getD id

/-- The containers that segments meet from a node on. -/
def levels (t : Tree) (current : Option Nat) : List Token → List ChainLevel
  | [] => []
  | token :: rest =>
    match t.childOf? current token.name with
    | none => []
    | some id =>
      match t.node? id with
      | none => []
      | some n =>
        let further := t.levels (some (t.onward id token)) rest
        if n.isContainer then
          ⟨[n.field], [token.name], n.path, n.descriptor, token.shape.side?⟩ :: further
        else further.modifyHead (ChainLevel.afterField token.name n.field)

theorem levels_cons {t : Tree} {current : Option Nat} {token : Token} {id : Nat} {n : Node}
    (hc : t.childOf? current token.name = some id) (hn : t.node? id = some n)
    (rest : List Token) :
    t.levels current (token :: rest)
      = if n.isContainer then
          ⟨[n.field], [token.name], n.path, n.descriptor, token.shape.side?⟩
            :: t.levels (some (t.onward id token)) rest
        else (t.levels (some (t.onward id token)) rest).modifyHead
          (ChainLevel.afterField token.name n.field) := by
  rw [levels, hc]
  simp only [hn]

theorem length_levels_le (t : Tree) (current : Option Nat) (tokens : List Token) :
    (t.levels current tokens).length ≤ tokens.length := by
  induction tokens generalizing current with
  | nil => exact Nat.le_refl _
  | cons token rest ih =>
    rw [levels]
    split
    · exact Nat.zero_le _
    · split
      · exact Nat.zero_le _
      · split
        · exact Nat.succ_le_succ (ih _)
        · rw [List.length_modifyHead]
          exact Nat.le_succ_of_le (ih _)

variable {t : Tree}

theorem follow?_cons {current last : Option Nat} {token : Token} {rest : List Token}
    (h : t.follow? current (token :: rest) = some last) :
    ∃ id n, t.childOf? current token.name = some id ∧ t.node? id = some n
      ∧ Resolve.notationError? n.descriptor "" token = none
      ∧ t.follow? (some (t.onward id token)) rest = some last := by
  obtain ⟨next, hstop, hrest⟩ := Option.bind_eq_some_iff.mp h
  obtain ⟨id, n, hc, hn, hfits, rfl⟩ := stop?_eq_some hstop
  exact ⟨id, n, hc, hn, hfits, hrest⟩

/-- Segments meet a container exactly if one of them is written as one. -/
theorem levels_eq_nil_iff {current last : Option Nat} {tokens : List Token}
    (h : t.follow? current tokens = some last) :
    t.levels current tokens = [] ↔ tokens.any Token.isContainer = false := by
  induction tokens generalizing current with
  | nil => simp [levels]
  | cons token rest ih =>
    obtain ⟨id, n, hc, hn, hfits, hrest⟩ := follow?_cons h
    have hcontainer : token.isContainer = n.isContainer := Resolve.isContainer_of_fits hfits
    rw [levels_cons hc hn, List.any_cons, hcontainer]
    cases n.isContainer with
    | true => simp
    | false => simp [ih hrest]

theorem levels_append {current last : Option Nat} {tokens more : List Token}
    (h : t.follow? current (tokens ++ more) = some last)
    (hmore : more.any Token.isContainer = false) :
    t.levels current (tokens ++ more) = t.levels current tokens := by
  induction tokens generalizing current with
  | nil => exact (levels_eq_nil_iff h).mpr hmore
  | cons token rest ih =>
    obtain ⟨id, n, hc, hn, -, hrest⟩ := follow?_cons h
    rw [List.cons_append, levels_cons hc hn, levels_cons hc hn, ih hrest]

theorem levels_congr (t : Tree) {current : Option Nat} {tokens tokens' : List Token}
    (h : tokens.map Token.address = tokens'.map Token.address) :
    t.levels current tokens = t.levels current tokens' := by
  induction tokens generalizing current tokens' with
  | nil =>
    have hnil : tokens' = [] := List.map_eq_nil_iff.mp h.symm
    rw [hnil]
  | cons token rest ih =>
    cases tokens' with
    | nil => simp at h
    | cons token' rest' =>
      simp only [List.map_cons, List.cons.injEq, Token.address, Prod.mk.injEq] at h
      obtain ⟨⟨hname, hside⟩, hrest⟩ := h
      have honward (id : Nat) : t.onward id token = t.onward id token' := by
        rw [onward, onward, hside]
      simp only [levels, hname, hside, honward, ih hrest]

/-- Chains that agree up to their last container have the same levels. -/
theorem levels_of_normalPrefix {c c' : Chain} (h : t.Resolves c) (h' : t.Resolves c')
    {last last' : Nat} (hlast : c.lastContainerIndex? = some last)
    (hlast' : c'.lastContainerIndex? = some last')
    (heq : c.normalPrefix last = c'.normalPrefix last') :
    t.levels none c.tokens = t.levels none c'.tokens := by
  have hcut {c : Chain} (h : t.Resolves c) {last : Nat}
      (hlast : c.lastContainerIndex? = some last) :
      t.levels none c.tokens = t.levels none (c.tokens.take (last + 1)) := by
    obtain ⟨_, hleads⟩ := h.leads
    have hafter := (Chain.lastContainerIndex?_eq_some hlast).2.1
    rw [← List.take_append_drop (last + 1) c.tokens] at hleads
    have hsame := levels_append hleads hafter
    rwa [List.take_append_drop] at hsame
  rw [hcut h hlast, hcut h' hlast',
    t.levels_congr (Chain.address_of_normalPrefix h.proper h'.proper heq)]

end Tree

/-! ## Cursors along the levels -/

namespace Cursor

/-- The names of the segments since the last container. -/
def pending (done : List Token) : List String :=
  ((done.reverse.takeWhile fun k => !k.isContainer).reverse).map (·.name)

theorem pending_concat_plain {done : List Token} {token : Token} (h : token.isContainer = false) :
    pending (done ++ [token]) = pending done ++ [token.name] := by
  simp [pending, h]

theorem pending_concat_container {done : List Token} {token : Token}
    (h : token.isContainer = true) : pending (done ++ [token]) = [] := by
  simp [pending, h]

/-- A cursor at the node of `token`, with the segments before and after it in its chain, in a tree
where the segments after it lead on. -/
structure Stands (c : Cursor) (done : List Token) (token : Token) (after : List Token) (n : Node) :
    Prop where
  wellFormed : c.tree.WellFormed
  tokens : c.chain.tokens = done ++ token :: after
  numbered : Chain.NumberedFrom done.length (token :: after)
  node : c.tree.node? c.nodeId = some n
  index : n.tokenIndex = done.length
  role : n.descriptor.isMember = false
  fits : Resolve.notationError? n.descriptor "" token = none
  leads : ∃ last, c.tree.follow? (some (c.tree.onward c.nodeId token)) after = some last

/-- The levels that a cursor has before it. -/
def levelsFrom (c : Cursor) (n : Node) (token : Token) (after : List Token) : List ChainLevel :=
  if n.isContainer then
    ⟨[n.field], [token.name], n.path, n.descriptor, token.shape.side?⟩
      :: c.tree.levels (some (c.tree.onward c.nodeId token)) after
  else (c.tree.levels (some (c.tree.onward c.nodeId token)) after).modifyHead
    (ChainLevel.afterField token.name n.field)

/-- Reading goes down to the container of a level, and the cursor then stands there with the levels
after it ahead. -/
def Arrives (c : Cursor) (done after : List Token) (level : ChainLevel)
    (rest : List ChainLevel) : Prop :=
  ∃ c' done' token' after' n', Stands c' done' token' after' n' ∧ n'.isContainer = true
    ∧ after'.length ≤ after.length
    ∧ pending done' ++ [token'.name] = pending done ++ level.names
    ∧ c'.levelsFrom n' token' after'
      = { level with fields := [n'.field], names := [token'.name] } :: rest
    ∧ ∀ (store : Store) (steps : Nat) (v : Value), after.length < steps →
      c.readToContainer store steps v
        = (store.readAlong level.fields v).map (·.map fun x => (c', x))

theorem descend?_eq {c : Cursor} {n : Node} {following : Token} {id : Nat} (hn : c.node? = some n)
    (hplain : n.isContainer = false)
    (hnext : c.chain.tokens[c.tokenIndex + 1]? = some following)
    (hchild : n.child? following.name = some id) : c.descend? = some (c.withNode id) := by
  simp [descend?, isContainer, hn, hplain, hnext, hchild]

namespace Stands

variable {c : Cursor} {done after : List Token} {token : Token} {n : Node}

theorem node?_eq (h : c.Stands done token after n) : c.node? = some n := h.node

theorem tokenIndex_eq (h : c.Stands done token after n) : c.tokenIndex = done.length := by
  rw [tokenIndex, h.node?_eq, Option.map_some, Option.getD_some, h.index]

theorem token?_eq (h : c.Stands done token after n) : c.token? = some token := by
  rw [token?, h.tokenIndex_eq, h.tokens]
  simp

theorem isContainer_eq (h : c.Stands done token after n) : token.isContainer = n.isContainer :=
  Resolve.isContainer_of_fits h.fits

theorem positionKey_eq (h : c.Stands done token after n) :
    c.positionKey = Text.join "." (pending done ++ [token.name])
      ++ (if n.descriptor.isMap then "[*,*]" else "[*]") := by
  have htake : c.chain.tokens.take (done.length + 1) = done ++ [token] := by
    rw [h.tokens]
    simp [List.take_append, List.take_of_length_le]
  rw [positionKey, h.tokenIndex_eq, h.node?_eq, htake]
  simp [pending]

theorem next {following : Token} {rest : List Token}
    (h : c.Stands done token (following :: rest) n) :
    ∃ id n', c.tree.childOf? (some (c.tree.onward c.nodeId token)) following.name = some id
      ∧ (c.withNode id).Stands (done ++ [token]) following rest n' := by
  obtain ⟨last, hfollow⟩ := h.leads
  obtain ⟨id, n', hc, hn, hfits, hrest⟩ := Tree.follow?_cons hfollow
  obtain ⟨hindex, hnumbered⟩ := h.numbered
  have hat : c.tree.At (some (c.tree.onward c.nodeId token)) (token.index + 1) :=
    h.wellFormed.at_next h.node h.fits (h.index.trans hindex.symm)
  obtain ⟨htoken, hrole⟩ := h.wellFormed.tokenIndex_of_childOf? hat hc hn
  refine ⟨id, n', hc, h.wellFormed, ?_, ?_, hn, ?_, hrole, hfits, last, hrest⟩
  · rw [List.append_assoc]
    exact h.tokens
  · rw [List.length_append]
    exact hnumbered
  · rw [htoken, hindex, List.length_append]
    rfl

theorem descend?_plain {following : Token} {rest : List Token}
    (h : c.Stands done token (following :: rest) n) (hplain : n.isContainer = false) {id : Nat}
    (hc : c.tree.childOf? (some (c.tree.onward c.nodeId token)) following.name = some id) :
    c.descend? = some (c.withNode id) := by
  have hnext : c.chain.tokens[c.tokenIndex + 1]? = some following := by
    rw [h.tokenIndex_eq, h.tokens]
    simp
  rw [Tree.onward, Tree.memberOf?_of_plain h.node hplain, Option.getD_none, Tree.childOf?, h.node,
    Option.bind_some] at hc
  exact descend?_eq h.node?_eq hplain hnext hc

/-- The cursor at the member of a container asks the segments after the container. -/
theorem nextLevel_member (h : c.Stands done token after n) (hcontainer : n.isContainer = true) :
    (after.any Token.isContainer = false
        → nextLevel (some (c.withNode (c.tree.onward c.nodeId token))) = .ok none)
      ∧ (after.any Token.isContainer = true → ∃ following rest id n',
          after = following :: rest
          ∧ c.tree.childOf? (some (c.tree.onward c.nodeId token)) following.name = some id
          ∧ (c.withNode id).Stands (done ++ [token]) following rest n'
          ∧ nextLevel (some (c.withNode (c.tree.onward c.nodeId token)))
            = .ok (some (c.withNode id))) := by
  obtain ⟨m, member, hm, hnode, -, hrole, hindex⟩ :=
    h.wellFormed.member_of_fits h.node hcontainer h.fits
  have honward : c.tree.onward c.nodeId token = m := by rw [Tree.onward, hm, Option.getD_some]
  have hplain : member.isContainer = false := by
    cases hd : member.descriptor <;> simp [hd, Descriptor.isMember] at hrole <;>
      simp [Node.isContainer, hd, Descriptor.isContainer, Descriptor.isCollection, Descriptor.isMap]
  have hnode' : (c.withNode m).node? = some member := hnode
  have htoken : (c.withNode m).tokenIndex = done.length := by
    rw [tokenIndex, hnode', Option.map_some, Option.getD_some, hindex, h.index]
  have hhas : (c.withNode m).hasDescendantContainer = after.any Token.isContainer := by
    have hdrop : (c.withNode m).chain.tokens.drop (done.length + 1) = after := by
      show c.chain.tokens.drop (done.length + 1) = after
      rw [h.tokens]
      simp [List.drop_append]
    rw [hasDescendantContainer, htoken, hdrop]
  rw [honward]
  constructor
  · intro hnone
    rw [nextLevel]
    simp only [hhas, hnone, Bool.not_false, if_true]
  · intro hsome
    cases after with
    | nil => simp at hsome
    | cons following rest =>
      obtain ⟨id, n', hc, hstands⟩ := h.next
      rw [honward] at hc
      refine ⟨following, rest, id, n', rfl, hc, hstands, ?_⟩
      have hnext :
          (c.withNode m).chain.tokens[(c.withNode m).tokenIndex + 1]? = some following := by
        show c.chain.tokens[(c.withNode m).tokenIndex + 1]? = some following
        rw [htoken, h.tokens]
        simp
      have hchild : member.child? following.name = some id := by
        rw [Tree.childOf?, hnode, Option.bind_some] at hc
        exact hc
      have hdescend : (c.withNode m).descend? = some (c.withNode id) :=
        descend?_eq hnode' hplain hnext hchild
      rw [nextLevel]
      simp only [hhas, hsome, Bool.not_true, Bool.false_eq_true, if_false, hdescend]

/-- What a container and its node say, in terms of the level. -/
theorem visit_eq (h : c.Stands done token after n) (hcontainer : n.isContainer = true)
    {l : ChainLevel} (hpath : l.path = n.path) (hrole : l.descriptor = n.descriptor)
    {next : Option Cursor}
    (hnext : nextLevel (some (c.withNode (c.tree.onward c.nodeId token))) = .ok next)
    (container : Value) :
    Index.visit c container
      = (l.check container).map fun _ => ⟨token.shape.side?, next⟩ := by
  obtain ⟨m, -, hm, -⟩ := h.wellFormed.member_of_fits h.node hcontainer h.fits
  have honward : c.tree.onward c.nodeId token = m := by rw [Tree.onward, hm, Option.getD_some]
  rw [honward] at hnext
  unfold Index.visit ChainLevel.check
  rw [h.node?_eq, h.token?_eq, Option.bind_some, hpath, hrole]
  cases hmap : n.descriptor.isMap with
  | true =>
    obtain ⟨side, hside⟩ := Resolve.side_of_fits hmap h.fits
    have hmember : c.mapMember? side = some (c.withNode m) := by
      rw [mapMember?, ← hside, hm, Option.map_some]
    cases container <;> simp only [hmap, hside, hmember, hnext] <;> rfl
  | false =>
    have hside : token.shape.side? = none := by
      have hcollection : n.descriptor.isCollection = true := by
        simpa [Node.isContainer, Descriptor.isContainer, hmap] using hcontainer
      have hfits := h.fits
      simp only [Resolve.notationError?, hcollection, if_true] at hfits
      split at hfits
      next hshape =>
        cases hs : token.shape <;> simp [hs, Shape.isCollection, Shape.side?] at hshape ⊢
      next => split at hfits <;> simp at hfits
    have hmember : c.member? = some (c.withNode m) := by
      rw [member?, h.token?_eq, Option.bind_some, hm, Option.map_some]
    cases container <;> simp only [hmap, hside, hmember, hnext] <;> rfl

theorem levelsFrom_next {following : Token} {rest : List Token} {id : Nat} {n' : Node}
    (hc : c.tree.childOf? (some (c.tree.onward c.nodeId token)) following.name = some id)
    (h : (c.withNode id).Stands (done ++ [token]) following rest n') :
    c.tree.levels (some (c.tree.onward c.nodeId token)) (following :: rest)
      = (c.withNode id).levelsFrom n' following rest :=
  Tree.levels_cons hc h.node rest

theorem readToContainer_container (h : c.Stands done token after n)
    (hcontainer : n.isContainer = true) (store : Store) (steps : Nat) (v : Value) :
    c.readToContainer store (steps + 1) v
      = (store.readAlong [n.field] v).map (·.map fun x => (c, x)) := by
  rw [readToContainer, h.node?_eq]
  simp only [h.role, Bool.false_eq_true, if_false, hcontainer, if_true, Store.readAlong]
  cases store.readField n.field v with
  | error e => rfl
  | ok value => cases value <;> rfl

theorem readToContainer_plain {following : Token} {rest : List Token}
    (h : c.Stands done token (following :: rest) n) (hplain : n.isContainer = false) {id : Nat}
    (hc : c.tree.childOf? (some (c.tree.onward c.nodeId token)) following.name = some id)
    {fields : List FieldType} {c' : Cursor} {store : Store} {steps : Nat}
    (hread : ∀ v, (c.withNode id).readToContainer store steps v
      = (store.readAlong fields v).map (·.map fun x => (c', x))) (v : Value) :
    c.readToContainer store (steps + 1) v
      = (store.readAlong (n.field :: fields) v).map (·.map fun x => (c', x)) := by
  rw [readToContainer, h.node?_eq]
  simp only [h.role, Bool.false_eq_true, if_false, hplain, Store.readAlong,
    h.descend?_plain hplain hc]
  cases store.readField n.field v with
  | error e => rfl
  | ok value =>
    cases value with
    | none => rfl
    | some x => exact hread x

theorem arrives (h : c.Stands done token after n) (hcontainer : n.isContainer = true)
    {level : ChainLevel} {rest : List ChainLevel}
    (hlevels : c.levelsFrom n token after = level :: rest) : c.Arrives done after level rest := by
  have hlevels' := hlevels
  rw [levelsFrom, hcontainer, if_pos rfl, List.cons.injEq] at hlevels'
  obtain ⟨rfl, -⟩ := hlevels'
  refine ⟨c, done, token, after, n, h, hcontainer, Nat.le_refl _, rfl, hlevels, ?_⟩
  intro store steps v hsteps
  obtain ⟨steps, rfl⟩ : ∃ k, steps = k + 1 := ⟨steps - 1, by omega⟩
  exact h.readToContainer_container hcontainer store steps v

/-- Reading goes from field to field down to the container of the next level. -/
theorem readToContainer_eq (h : c.Stands done token after n) {level : ChainLevel}
    {rest : List ChainLevel} (hlevels : c.levelsFrom n token after = level :: rest) :
    c.Arrives done after level rest := by
  induction after generalizing c done token n level with
  | nil =>
    cases hcontainer : n.isContainer with
    | false => simp [levelsFrom, hcontainer, Tree.levels] at hlevels
    | true => exact h.arrives hcontainer hlevels
  | cons following more ih =>
    cases hcontainer : n.isContainer with
    | true => exact h.arrives hcontainer hlevels
    | false =>
      obtain ⟨id, n₁, hc, hstands⟩ := h.next
      rw [levelsFrom, hcontainer, if_neg (by simp), levelsFrom_next hc hstands] at hlevels
      cases hfurther : (c.withNode id).levelsFrom n₁ following more with
      | nil => simp [hfurther] at hlevels
      | cons level₁ rest₁ =>
        simp only [hfurther, List.modifyHead_cons, List.cons.injEq] at hlevels
        obtain ⟨rfl, rfl⟩ := hlevels
        obtain ⟨c', done', token', after', n', hs, hn', hle, hnames, hl, hread⟩ :=
          ih hstands hfurther
        refine ⟨c', done', token', after', n', hs, hn', Nat.le_succ_of_le hle, ?_, hl, ?_⟩
        · have hplain : token.isContainer = false := h.isContainer_eq.trans hcontainer
          rw [hnames, pending_concat_plain hplain, List.append_assoc]
          rfl
        · intro store steps v hsteps
          obtain ⟨steps, rfl⟩ : ∃ k, steps = k + 1 := ⟨steps - 1, by omega⟩
          refine h.readToContainer_plain hcontainer hc (fun x => hread store steps x ?_) v
          simpa using hsteps

end Stands

/-- A cursor answers as the levels say: where reading arrives, under which id, what the container
has to be, and where the elements go on. -/
def Follows (c : Cursor) : List ChainLevel → Prop
  | [] => False
  | level :: rest => ∃ (c' : Cursor) (next : Option Cursor),
    c'.positionKey = level.key
    ∧ (∀ (store : Store) (v : Value), c.readToContainer store (c.chain.length + 1) v
        = (store.readAlong level.fields v).map (·.map fun x => (c', x)))
    ∧ (∀ container, Index.visit c' container
        = (level.check container).map fun _ => ⟨level.side, next⟩)
    ∧ match next with
      | none => rest = []
      | some c'' => Follows c'' rest

theorem Stands.follows {c : Cursor} {done after : List Token} {token : Token} {n : Node}
    (h : c.Stands done token after n) (hpending : pending done = []) {level : ChainLevel}
    {rest : List ChainLevel} (hlevels : c.levelsFrom n token after = level :: rest) :
    c.Follows (level :: rest) := by
  -- Every container uses up a segment.
  induction hlength : after.length using Nat.strongRecOn
    generalizing c done token after n level rest with
  | ind k ih =>
    obtain ⟨c', done', token', after', n', hs, hcontainer, hle, hnames, hl, hread⟩ :=
      h.readToContainer_eq hlevels
    rw [hpending, List.nil_append] at hnames
    rw [levelsFrom, if_pos hcontainer, List.cons.injEq] at hl
    obtain ⟨hlevel, hrest⟩ := hl
    have hpath : level.path = n'.path := (congrArg ChainLevel.path hlevel).symm
    have hrole : level.descriptor = n'.descriptor := (congrArg ChainLevel.descriptor hlevel).symm
    have hside : level.side = token'.shape.side? := (congrArg ChainLevel.side hlevel).symm
    have hkey : c'.positionKey = level.key := by
      rw [hs.positionKey_eq, hnames, ChainLevel.key, hrole]
    have hread' (store : Store) (v : Value) : c.readToContainer store (c.chain.length + 1) v
        = (store.readAlong level.fields v).map (·.map fun x => (c', x)) := by
      refine hread store _ v ?_
      rw [Chain.length, h.tokens, List.length_append, List.length_cons]
      omega
    obtain ⟨last, hleads⟩ := hs.leads
    obtain ⟨hnone, hsome⟩ := hs.nextLevel_member hcontainer
    cases hany : after'.any Token.isContainer with
    | false =>
      refine ⟨c', none, hkey, hread', ?_, ?_⟩
      · rw [hside]
        exact hs.visit_eq hcontainer hpath hrole (hnone hany)
      · rw [← hrest]
        exact (Tree.levels_eq_nil_iff hleads).mpr hany
    | true =>
      obtain ⟨following, more, id, n₁, rfl, hc, hs₁, hnext⟩ := hsome hany
      refine ⟨c', some (c'.withNode id), hkey, hread', ?_, ?_⟩
      · rw [hside]
        exact hs.visit_eq hcontainer hpath hrole hnext
      · have hfurther := Stands.levelsFrom_next hc hs₁
        have hpending₁ : pending (done' ++ [token']) = [] :=
          pending_concat_container (hs.isContainer_eq.trans hcontainer)
        rw [List.length_cons] at hle
        cases rest with
        | nil =>
          rw [(Tree.levels_eq_nil_iff hleads).mp hrest] at hany
          exact absurd hany (by simp)
        | cons level₁ rest₁ => exact ih _ (by omega) hs₁ hpending₁ (hfurther.symm.trans hrest) rfl

end Cursor

/-- A chain with a container that has been resolved: the cursor at its first node follows the levels
of the chain. -/
theorem Tree.WellFormed.follows_levels {t : Tree} (h : t.WellFormed) {chain : Chain}
    (hproper : chain.Proper) {last : Option Nat} (hleads : t.follow? none chain.tokens = some last)
    (hany : chain.tokens.any Token.isContainer = true) :
    ∃ first, Cursor.atFirst? t chain = some first ∧ first.Follows (t.levels none chain.tokens) := by
  cases htokens : chain.tokens with
  | nil => simp [htokens] at hany
  | cons token after =>
    rw [htokens] at hleads hany
    obtain ⟨id, n, hc, hn, hfits, hrest⟩ := follow?_cons hleads
    have hat : t.At none 0 := rfl
    obtain ⟨hindex, hrole⟩ := h.tokenIndex_of_childOf? hat hc hn
    have hfirst : Cursor.atFirst? t chain = some ⟨t, chain, id⟩ := by
      have hid : t.firstNode? token.name = some id := hc
      simp [Cursor.atFirst?, htokens, hid]
    have hstands : Cursor.Stands ⟨t, chain, id⟩ [] token after n :=
      ⟨h, htokens, htokens ▸ hproper.numbered, hn, hindex, hrole, hfits, last, hrest⟩
    have hlevels : t.levels none (token :: after)
        = Cursor.levelsFrom ⟨t, chain, id⟩ n token after := levels_cons hc hn after
    refine ⟨_, hfirst, ?_⟩
    cases hl : t.levels none (token :: after) with
    | nil =>
      rw [(levels_eq_nil_iff hleads).mp hl] at hany
      exact absurd hany (by simp)
    | cons level rest => exact hstands.follows rfl (hlevels.symm.trans hl)

end ChainMapping
