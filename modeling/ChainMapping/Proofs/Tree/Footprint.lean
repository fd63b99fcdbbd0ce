import ChainMapping.Proofs.Tree.Making

/-!
# The paths of a tree

The paths in a tree can be computed from the chains that have been resolved in it, as texts: each
segment accounts for the path of its field and for those of the members that its notation says.
What a failed chain made has been taken back, so nothing else is there.
-/

namespace ChainMapping

/-- The paths that a segment accounts for, given the path of its field. -/
def Token.paths (token : Token) (path : String) : List String :=
  path ::
    if token.shape.isCollection then [path ++ "[*]"]
    else if token.shape.isMap then [path ++ "<K>", path ++ "<V>"]
    else []

namespace Chain

/-- The paths that segments account for after others. -/
def pathsFrom (done : List Token) : List Token → List String
  | [] => []
  | token :: rest => token.paths (fieldPath done token.name) ++ pathsFrom (done ++ [token]) rest

def paths (c : Chain) : List String := pathsFrom [] c.tokens

end Chain

/-- A notation that fits a node says which members the node has. -/
theorem Resolve.paths_of_fits {d : Descriptor} {chain : String} {token : Token}
    (hfits : notationError? d chain token = none) (path : String) :
    path :: Basis.memberPaths path d = token.paths path := by
  unfold Basis.memberPaths Token.paths
  cases hcollection : d.isCollection with
  | true =>
    have hshape := shape_of_collection hfits hcollection
    rw [if_pos rfl, if_pos hshape]
  | false =>
    cases hmap : d.isMap with
    | true =>
      obtain ⟨side, hside⟩ := side_of_fits hmap hfits
      cases hshape : token.shape with
      | plain => simp [hshape, Shape.side?] at hside
      | collection index anchor => simp [hshape, Shape.side?] at hside
      | map side' anchor => rfl
    | false =>
      have hplain : token.isContainer = false := by
        rw [isContainer_of_fits hfits, Descriptor.isContainer, hcollection, hmap]
        rfl
      rw [Token.isContainer, Shape.isContainer, Bool.or_eq_false_iff] at hplain
      simp [hplain.1, hplain.2]

namespace Tree

variable {t t' : Tree}

def paths (t : Tree) : List String := t.nodes.toList.map (·.path)

theorem paths_eq (t : Tree) : t.paths = t.portraits.map (·.path) := by
  rw [paths, portraits, List.map_map]
  rfl

theorem path_mem_paths {id : Nat} {n : Node} (hn : t.node? id = some n) : n.path ∈ t.paths := by
  rw [paths_eq]
  exact List.mem_map.mpr ⟨t.portraitOf n, portraitOf_mem hn, rfl⟩

theorem Extends.path_mem_paths (he : t.Extends t') {id : Nat} {n : Node}
    (hn : t.node? id = some n) : n.path ∈ t'.paths := by
  obtain ⟨children, hn'⟩ := he.node hn
  rw [paths_eq]
  exact List.mem_map.mpr ⟨_, portraitOf_mem hn', rfl⟩

theorem mem_paths {path : String} :
    path ∈ t.paths ↔ ∃ id n, t.node? id = some n ∧ n.path = path := by
  rw [paths_eq, List.mem_map]
  constructor
  · intro hcase
    obtain ⟨p, hp, rfl⟩ := hcase
    obtain ⟨id, n, hn, rfl⟩ := mem_portraits.mp hp
    exact ⟨id, n, hn, rfl⟩
  · intro hcase
    obtain ⟨id, n, hn, rfl⟩ := hcase
    exact ⟨t.portraitOf n, portraitOf_mem hn, rfl⟩

/-! ## What is there -/

/-- The paths of the members of a node are in the tree. -/
theorem WellFormed.memberPaths_subset (h : t.WellFormed) {id : Nat} {n : Node}
    (hn : t.node? id = some n) : Basis.memberPaths n.path n.descriptor ⊆ t.paths := by
  -- A member is found in the table of its container, with the role that decides its path.
  have hmember {entries : List (String × Nat)} (hchildren : n.children = some entries)
      (hcontainer : n.isContainer = true) {key : String} {m : Nat} (hentry : (key, m) ∈ entries)
      {d : Descriptor} (hrole : t.role? m = some d) : n.path ++ d.pathSuffix ∈ t.paths := by
    have htable : (key, m) ∈ t.childTable (some id) := by
      rw [table_of_node hn, hchildren]
      exact hentry
    obtain ⟨member, hm, hparent, -⟩ := h.mem_table.mp htable
    have hd : member.descriptor = d := by simpa [role?, hm] using hrole
    rw [← hd, ← h.path_of_member hn hcontainer hm hparent]
    exact path_mem_paths hm
  intro path hpath
  unfold Basis.memberPaths at hpath
  split at hpath
  next hcollection =>
    obtain ⟨m, hchildren, hrole⟩ := (h.members hn).collection hcollection
    have hcontainer : n.isContainer = true := by
      rw [Node.isContainer, Descriptor.isContainer, hcollection, Bool.true_or]
    rw [List.mem_singleton.mp hpath]
    exact hmember hchildren hcontainer List.mem_cons_self hrole
  next =>
    split at hpath
    next hmap =>
      obtain ⟨key, value, hchildren, hkey, hvalue⟩ := (h.members hn).map hmap
      have hcontainer : n.isContainer = true := by
        rw [Node.isContainer, Descriptor.isContainer, hmap, Bool.or_true]
      simp only [List.mem_cons, List.not_mem_nil, or_false] at hpath
      rcases hpath with rfl | rfl
      · exact hmember hchildren hcontainer List.mem_cons_self hkey
      · exact hmember hchildren hcontainer (List.mem_cons_of_mem _ List.mem_cons_self) hvalue
    next => cases hpath

/-- Where segments lead, all paths that they account for are in the tree. -/
theorem WellFormed.pathsFrom_subset (h : t.WellFormed) {done tokens : List Token}
    {current last : Option Nat} {index : Nat} (hreached : t.Reached done current)
    (hat : t.At current index) (hnumbered : Chain.NumberedFrom index tokens)
    (hf : t.follow? current tokens = some last) : Chain.pathsFrom done tokens ⊆ t.paths := by
  induction tokens generalizing done current index with
  | nil => exact List.nil_subset _
  | cons token rest ih =>
    obtain ⟨rfl, hrest⟩ := hnumbered
    obtain ⟨next, hstop, hfollow⟩ := Option.bind_eq_some_iff.mp hf
    obtain ⟨id, n, hc, hn, hfits, -⟩ := stop?_eq_some hstop
    have hpath : n.path = Chain.fieldPath done token.name := by
      rw [h.path_of_childOf? hat hc hn, hreached.pathBelow]
    have hhere : token.paths (Chain.fieldPath done token.name) ⊆ t.paths := by
      rw [← hpath, ← Resolve.paths_of_fits hfits]
      exact List.cons_subset.mpr ⟨path_mem_paths hn, h.memberPaths_subset hn⟩
    have hthere := ih (h.reached_stop? hreached hat hstop) (h.at_of_stop? hat hstop) hrest hfollow
    exact List.append_subset.mpr ⟨hhere, hthere⟩

/-! ## What is made -/

theorem Reached.mono {done : List Token} {current : Option Nat} (hreached : t.Reached done current)
    (he : t.Extends t') : t'.Reached done current := by
  cases current with
  | none => exact hreached
  | some id =>
    obtain ⟨hne, hpath⟩ := hreached
    obtain ⟨n, hn, -⟩ := Option.map_eq_some_iff.mp hpath
    exact ⟨hne, (he.pathOf? hn).trans hpath⟩

theorem paths_of_draft {i : Introspector} {chain : String} {current : Option Nat} {token : Token}
    {d : Draft} (hd : t.draft i chain current token = .ok d) {done : List Token}
    (hreached : t.Reached done current) :
    d.all.map (·.path) = token.paths (Chain.fieldPath done token.name) := by
  obtain ⟨field, concrete, hdrafted⟩ := Basis.drafted_of_ok hd
  rw [hdrafted.paths_eq, Resolve.paths_of_fits hdrafted.fits, Basis.pathBelow_portraitOf,
    hreached.pathBelow]

end Tree

namespace Resolve

variable {i : Introspector} {chain : String}

/-- Going along segments makes no other paths than the ones that they account for. -/
theorem ends_steps_paths {w : Work} {done tokens : List Token} {current : Option Nat} {index : Nat}
    (h : w.tree.WellFormed) (hreached : w.tree.Reached done current)
    (hat : w.tree.At current index) (hnumbered : Chain.NumberedFrom index tokens)
    (hnames : ∀ token ∈ tokens, Chain.IsName token.name) :
    Ends (steps i chain current tokens) w
      (fun _ w' => w'.tree.paths ⊆ w.tree.paths ++ Chain.pathsFrom done tokens)
      (fun _ _ => True) := by
  induction tokens generalizing w done current index with
  | nil => exact Ends.pure (List.subset_append_left _ _)
  | cons token rest ih =>
    obtain ⟨rfl, hrest⟩ := hnumbered
    have hname := hnames token List.mem_cons_self
    have hnames' : ∀ token ∈ rest, Chain.IsName token.name :=
      fun token hmem => hnames token (List.mem_cons_of_mem _ hmem)
    refine Ends.bind (Ends.mono (Ends.and (ends_step h.toSound h (.refl _) hat hname)
      (drafts_step h hat hname)) (fun _ _ hok => hok) (fun _ _ _ => trivial)) ?_
    rintro next w₁ ⟨⟨hwf, he, -, hstop, hnext⟩, hhow⟩
    have hreached' := hwf.reached_stop? (hreached.mono he) (he.at hat) hstop
    have hstep : w₁.tree.paths
        ⊆ w.tree.paths ++ token.paths (Chain.fieldPath done token.name) := by
      rcases hhow with ⟨hsame, -⟩ | ⟨-, d, hd, hportraits⟩
      · rw [hsame]
        exact List.subset_append_left _ _
      · rw [Tree.paths_eq, hportraits, List.map_append, Tree.paths_of_draft hd hreached,
          ← Tree.paths_eq]
        exact List.Subset.refl _
    refine (ih hwf hreached' hnext hrest hnames').mono ?_ (fun _ _ _ => trivial)
    intro last w₂ hpaths path hpath
    rw [Chain.pathsFrom, ← List.append_assoc]
    rcases List.mem_append.mp (hpaths hpath) with hearlier | hlater
    · exact List.mem_append_left _ (hstep hearlier)
    · exact List.mem_append_right _ hlater

theorem steps_append (current : Option Nat) (before after : List Token) :
    steps i chain current (before ++ after)
      = steps i chain current before >>= fun mid => steps i chain mid after := by
  induction before generalizing current with
  | nil => rfl
  | cons token rest ih =>
    rw [List.cons_append, steps, steps]
    funext w
    show EStateM.bind _ _ w = EStateM.bind (EStateM.bind _ _) _ w
    unfold EStateM.bind
    cases step i chain current token w with
    | error e w₁ => rfl
    | ok next w₁ => exact congrFun (ih (some next)) w₁

end Resolve

namespace Tree

variable {t : Tree} {i : Introspector} {text : String} {c : Chain} {leaf : Nat}

/-- A chain that is resolved adds the paths that it accounts for. -/
theorem WellFormed.mem_paths_resolveText (h : t.WellFormed)
    (hok : (t.resolveText i text).outcome = .ok (c, leaf)) (path : String) :
    path ∈ (t.resolveText i text).tree.paths ↔ path ∈ t.paths ∨ path ∈ c.paths := by
  obtain ⟨hparse, -, w, hrun, htree⟩ := resolveText_ok hok
  have hproper := (Chain.proper_of_parse hparse).2
  have hat : t.At none 0 := rfl
  have hpaths := (Resolve.ends_steps_paths h t.reached_root hat hproper.numbered
    hproper.names).of_ok hrun
  obtain ⟨hwf, he, -, hfollow⟩ := (Resolve.ends_steps h.toSound h (.refl t) hat hproper.numbered
    hproper.names).of_ok hrun
  rw [htree]
  constructor
  · intro hpath
    exact List.mem_append.mp (hpaths hpath)
  · intro hcase
    rcases hcase with hold | hnew
    · obtain ⟨id, n, hn, rfl⟩ := mem_paths.mp hold
      exact he.path_mem_paths hn
    · exact hwf.pathsFrom_subset w.tree.reached_root rfl hproper.numbered hfollow hnew

/-- Some segments have been gone along, and the next one has its place. -/
theorem WellFormed.steps_before (h : t.WellFormed) (hproper : c.Proper) {k : Nat}
    (hk : k ≤ c.length) {mid : Option Nat} {w : Work}
    (hrun : Resolve.steps i c.text none (c.tokens.take k) { tree := t } = .ok mid w) :
    w.tree.WellFormed ∧ w.tree.At mid k ∧ w.tree.Reached (c.tokens.take k) mid := by
  have hat : t.At none 0 := rfl
  have hstart : w.tree.At none 0 := rfl
  have hlength : (c.tokens.take k).length = k := List.length_take_of_le hk
  have hnames : ∀ token ∈ c.tokens.take k, Chain.IsName token.name :=
    fun token hmem => hproper.names token (List.mem_of_mem_take hmem)
  have hnumbered := hproper.numbered.take k
  obtain ⟨hwf, -, -, hfollow⟩ := (Resolve.ends_steps h.toSound h (.refl t) hat hnumbered
    hnames).of_ok hrun
  have hmid := hwf.at_follow? hstart hnumbered hfollow
  have hreached := hwf.reached_follow? w.tree.reached_root hstart hnumbered hfollow
  rw [hlength, Nat.zero_add] at hmid
  exact ⟨hwf, hmid, hreached⟩

theorem WellFormed.steps_after {w w' : Work} (h : w.tree.WellFormed) (hproper : c.Proper) {k : Nat}
    (hk : k ≤ c.length) {mid last : Option Nat} (hat : w.tree.At mid k)
    (hrun : Resolve.steps i c.text mid (c.tokens.drop k) w = .ok last w') :
    w'.tree.WellFormed ∧ w.tree.Extends w'.tree := by
  have hnumbered := hproper.numbered.drop hk
  rw [Nat.zero_add] at hnumbered
  have hnames : ∀ token ∈ c.tokens.drop k, Chain.IsName token.name :=
    fun token hmem => hproper.names token (List.mem_of_mem_drop hmem)
  obtain ⟨hwf, he, -, -⟩ := (Resolve.ends_steps h.toSound h (.refl _) hat hnumbered hnames).of_ok
    hrun
  exact ⟨hwf, he⟩

/-- After each segment, the node that has been reached has the path of the normal form up to
there. -/
theorem WellFormed.steps_take (h : t.WellFormed)
    (hok : (t.resolveText i text).outcome = .ok (c, leaf)) {k : Nat} (hk : k < c.length) :
    ∃ id w, Resolve.steps i c.text none (c.tokens.take (k + 1)) { tree := t } = .ok (some id) w
      ∧ (t.resolveText i text).tree.pathOf? id = some (c.normalPrefix k) := by
  obtain ⟨hparse, -, w, hrun, htree⟩ := resolveText_ok hok
  have hproper := (Chain.proper_of_parse hparse).2
  rw [← List.take_append_drop (k + 1) c.tokens, Resolve.steps_append] at hrun
  obtain ⟨mid, w₁, hbefore, hafter⟩ := run_bind_eq_ok hrun
  obtain ⟨hwf, hmid, hreached⟩ := h.steps_before hproper hk hbefore
  obtain ⟨-, he⟩ := hwf.steps_after hproper hk hmid hafter
  cases mid with
  | none => cases hmid
  | some id =>
    obtain ⟨-, hpath⟩ := hreached
    obtain ⟨n, hn, -⟩ := Option.map_eq_some_iff.mp hpath
    exact ⟨id, w₁, hbefore, by rw [htree, he.pathOf? hn]; exact hpath⟩

/-! ## Histories -/

/-- The chain that a call resolves, with its leaf. -/
def resolvedBy (t : Tree) : Call → Option (Chain × Nat)
  | .override _ _ => none
  | .resolve source text => (t.resolveText source text).outcome.toOption

/-- The chains that calls resolve, with their leaves, in order. -/
def resolved (t : Tree) : List Call → List (Chain × Nat)
  | [] => []
  | call :: rest => (t.resolvedBy call).toList ++ (t.apply call).resolved rest

theorem WellFormed.mem_paths_apply (h : t.WellFormed) (call : Call) (path : String) :
    path ∈ (t.apply call).paths
      ↔ path ∈ t.paths ∨ ∃ a ∈ (t.resolvedBy call).toList, path ∈ a.1.paths := by
  cases call with
  | override key concrete =>
    have hsame : (t.apply (.override key concrete)).paths = t.paths := rfl
    simp [hsame, resolvedBy]
  | resolve source text =>
    have hresolved : t.resolvedBy (.resolve source text)
        = (t.resolveText source text).outcome.toOption := rfl
    rw [hresolved]
    show path ∈ (t.resolveText source text).tree.paths ↔ _
    cases hout : (t.resolveText source text).outcome with
    | error e =>
      rw [h.tree_eq_of_error hout]
      simp [Except.toOption]
    | ok a =>
      rw [h.mem_paths_resolveText hout]
      simp [Except.toOption]

theorem WellFormed.mem_paths_after (h : t.WellFormed) (calls : List Call) (path : String) :
    path ∈ (t.after calls).paths
      ↔ path ∈ t.paths ∨ ∃ a ∈ t.resolved calls, path ∈ a.1.paths := by
  induction calls generalizing t with
  | nil => simp [Tree.after, resolved]
  | cons call rest ih =>
    have hafter : t.after (call :: rest) = (t.apply call).after rest := rfl
    rw [hafter, ih (h.apply call), h.mem_paths_apply call, resolved]
    simp only [List.mem_append, or_and_right, exists_or, or_assoc]

theorem follow?_addOverride (t : Tree) (path concrete : String) (current : Option Nat)
    (tokens : List Token) :
    (t.addOverride path concrete).follow? current tokens = t.follow? current tokens := by
  induction tokens generalizing current with
  | nil => rfl
  | cons token rest ih =>
    have hstop : (t.addOverride path concrete).stop? current token = t.stop? current token := by
      cases current <;> rfl
    rw [follow?, follow?, hstop]
    simp only [ih]

/-- A chain goes on leading where it led, whatever is done to the tree. -/
theorem WellFormed.follow?_after (h : t.WellFormed) (calls : List Call) {current last : Option Nat}
    {tokens : List Token} (hf : t.follow? current tokens = some last) :
    (t.after calls).follow? current tokens = some last := by
  induction calls generalizing t with
  | nil => exact hf
  | cons call rest ih =>
    refine ih (h.apply call) ?_
    cases call with
    | override path concrete =>
      show (t.addOverride path concrete).follow? current tokens = some last
      rw [follow?_addOverride, hf]
    | resolve source text =>
      rcases h.resolveText (i := source) text with ⟨e, -, htree⟩ | ⟨c, leaf, -, -, -, he, -⟩
      · show (t.resolveText source text).tree.follow? current tokens = some last
        rw [htree, hf]
      · exact h.follow?_mono he hf

/-- What has been resolved was the answer to some call. -/
theorem exists_of_mem_resolved {calls : List Call} {a : Chain × Nat} (ha : a ∈ t.resolved calls) :
    ∃ before source text later, calls = before ++ .resolve source text :: later
      ∧ ((t.after before).resolveText source text).outcome = .ok a := by
  induction calls generalizing t with
  | nil => cases ha
  | cons call rest ih =>
    rcases List.mem_append.mp ha with hnow | hlater
    · cases call with
      | override path concrete => simp [resolvedBy] at hnow
      | resolve source text =>
        refine ⟨[], source, text, rest, rfl, ?_⟩
        show (t.resolveText source text).outcome = .ok a
        rw [resolvedBy, Option.mem_toList] at hnow
        cases hout : (t.resolveText source text).outcome with
        | error e => rw [hout] at hnow; cases hnow
        | ok b => rw [hout] at hnow; cases hnow; rfl
    · obtain ⟨before, source, text, later, rfl, hout⟩ := ih hlater
      exact ⟨call :: before, source, text, later, rfl, hout⟩

/-- The chains that have been resolved are chains. -/
theorem parse_resolved {calls : List Call} {a : Chain × Nat} (ha : a ∈ t.resolved calls) :
    Chain.parse a.1.text = .ok a.1 := by
  obtain ⟨before, source, text, later, -, hout⟩ := exists_of_mem_resolved ha
  obtain ⟨hparse, -⟩ := resolveText_ok hout
  rw [(Chain.proper_of_parse hparse).1, hparse]

/-- The chains that have been resolved lead to their leaves ever after. -/
theorem WellFormed.follow?_resolved (h : t.WellFormed) {calls : List Call} {a : Chain × Nat}
    (ha : a ∈ t.resolved calls) :
    a.1.Proper ∧ (t.after calls).follow? none a.1.tokens = some (some a.2) := by
  refine ⟨(Chain.proper_of_parse (parse_resolved ha)).2, ?_⟩
  obtain ⟨before, source, text, later, rfl, hout⟩ := exists_of_mem_resolved ha
  have hafter : t.after (before ++ .resolve source text :: later)
      = ((t.after before).resolveText source text).tree.after later := List.foldl_append
  rcases (h.after before).resolveText (i := source) text with ⟨e, herror, -⟩
    | ⟨c, leaf, hok, -, hwf, -, hf⟩
  · rw [hout] at herror
    cases herror
  · rw [hout] at hok
    cases hok
    rw [hafter]
    exact hwf.follow?_after later hf

/-- Nodes are what normal forms name: at the end of a chain, after each of its segments, and in the
tree as a whole. -/
structure NamedByNormalForm (start : Tree) (calls : List Call) : Prop where
  leaf_path : ∀ {i : Introspector} {text : String} {c : Chain} {leaf : Nat},
    ((start.after calls).resolveText i text).outcome = .ok (c, leaf) →
    ((start.after calls).resolveText i text).tree.pathOf? leaf = some c.normal
  segment_path : ∀ {i : Introspector} {text : String} {c : Chain} {leaf : Nat},
    ((start.after calls).resolveText i text).outcome = .ok (c, leaf) →
    ∀ k < c.length, ∃ id w,
      Resolve.steps i c.text none (c.tokens.take (k + 1)) { tree := start.after calls }
        = .ok (some id) w
      ∧ ((start.after calls).resolveText i text).tree.pathOf? id = some (c.normalPrefix k)
  same_leaf : ∀ a ∈ start.resolved calls, ∀ b ∈ start.resolved calls,
    a.2 = b.2 ↔ a.1.normal = b.1.normal
  mem_paths : ∀ path, path ∈ (start.after calls).paths
    ↔ ∃ a ∈ start.resolved calls, path ∈ a.1.paths

/-- In every tree, whatever was done to it since it was empty. -/
theorem namedByNormalForm (side : Side) (rootType : TypeRef) (overrides : List (String × String))
    (calls : List Call) : NamedByNormalForm (fresh side rootType overrides) calls := by
  have hfresh := wellFormed_fresh side rootType overrides
  have h := hfresh.after calls
  refine ⟨?_, ?_, ?_, ?_⟩
  · intro i text c leaf hok
    rcases h.resolveText (i := i) text with ⟨e, herror, -⟩ | ⟨c', leaf', hok', hparse, hwf, -, hf⟩
    · rw [hok] at herror
      cases herror
    · rw [hok] at hok'
      cases hok'
      exact hwf.pathOf?_leaf (Chain.proper_of_parse hparse).2 hf
  · intro i text c leaf hok k hk
    exact h.steps_take hok hk
  · intro a ha b hb
    obtain ⟨hproper, hf⟩ := hfresh.follow?_resolved ha
    obtain ⟨hproper', hf'⟩ := hfresh.follow?_resolved hb
    exact h.leaf_eq_iff hproper hproper' hf hf'
  · intro path
    have hempty : (fresh side rootType overrides).paths = [] := rfl
    rw [hfresh.mem_paths_after calls path, hempty]
    simp

end Tree
end ChainMapping
