import ChainMapping.Proofs.Index.Union

/-!
# What can go wrong along a chain

Indexing has names for faults that no mapping leads to: a chain that its tree does not know, a
container without a member, levels beyond the limit.  Along a chain that has been resolved three
things can go wrong, and all of them are in the value: an object is met below itself, a field is
read from something that has no such field, or a container field holds a value of another kind.

A chain has as many levels as it has segments for containers.  There are never more than indexing
may enter, and a chain that uses all of them is followed to its end.
-/

namespace ChainMapping

/-- A value is what a container node is for: a map, or the contents of a collection. -/
def Node.admits (n : Node) : Value → Bool
  | .sequence _ => !n.descriptor.isMap
  | .map _ => n.descriptor.isMap
  | _ => false

/-- There are as many levels as segments written as containers. -/
theorem Tree.length_levels {t : Tree} {current last : Option Nat} {tokens : List Token}
    (h : t.follow? current tokens = some last) :
    (t.levels current tokens).length = tokens.countP Token.isContainer := by
  induction tokens generalizing current with
  | nil => rfl
  | cons token rest ih =>
    obtain ⟨id, n, hc, hn, hfits, hrest⟩ := follow?_cons h
    have hcontainer : token.isContainer = n.isContainer := Resolve.isContainer_of_fits hfits
    rw [levels_cons hc hn, List.countP_cons, hcontainer, ← ih hrest]
    cases n.isContainer with
    | true => rfl
    | false => simp

/-- A level is about a container node of the tree, whose field is read last. -/
theorem Tree.node_of_mem_levels {t : Tree} {current : Option Nat} {tokens : List Token}
    {level : ChainLevel} (h : level ∈ t.levels current tokens) :
    ∃ id n, t.node? id = some n ∧ n.isContainer = true ∧ level.path = n.path
      ∧ level.descriptor = n.descriptor ∧ level.fields.getLast? = some n.field := by
  induction tokens generalizing current level with
  | nil => simp [levels] at h
  | cons token rest ih =>
    cases hc : t.childOf? current token.name with
    | none => simp [levels, hc] at h
    | some id =>
      cases hn : t.node? id with
      | none => simp [levels, hc, hn] at h
      | some n =>
        rw [levels_cons hc hn] at h
        split at h
        next hcontainer =>
          rcases List.mem_cons.mp h with rfl | h
          · exact ⟨id, n, hn, hcontainer, rfl, rfl, rfl⟩
          · exact ih h
        next =>
          cases hfurther : t.levels (some (t.onward id token)) rest with
          | nil => simp [hfurther] at h
          | cons first others =>
            have hall := fun {l : ChainLevel} (hl : l ∈ first :: others) => ih (hfurther ▸ hl)
            rw [hfurther, List.modifyHead_cons] at h
            rcases List.mem_cons.mp h with rfl | h
            · -- A field that is read before the others is not the last one.
              obtain ⟨id', n', hn', hcontainer, hpath, hrole, hlast⟩ := hall List.mem_cons_self
              refine ⟨id', n', hn', hcontainer, hpath, hrole, ?_⟩
              rw [ChainLevel.afterField, List.getLast?_cons, hlast]
              rfl
            · exact hall (List.mem_cons_of_mem _ h)

namespace Store

theorem readAlong_error {s : Store} {fields : List FieldType} {v : Value} {e : IndexingError}
    (h : s.readAlong fields v = .error e) :
    ∃ owner field fault, e = .fieldAccess owner field fault := by
  induction fields generalizing v with
  | nil => simp [readAlong] at h
  | cons field rest ih =>
    rw [readAlong] at h
    cases hread : s.readField field v with
    | error e' =>
      rw [hread] at h
      obtain rfl := Except.error.inj h
      unfold readField at hread
      split at hread
      · exact ⟨_, _, _, (Except.error.inj hread).symm⟩
      · split at hread
        · exact ⟨_, _, _, (Except.error.inj hread).symm⟩
        · simp at hread
    | ok value =>
      rw [hread] at h
      cases value with
      | none => simp at h
      | some u => exact ih h

/-- What is read at the end was read from the last field. -/
theorem readField_of_readAlong {s : Store} {fields : List FieldType} {v u : Value}
    (h : s.readAlong fields v = .ok (some u)) {field : FieldType}
    (hlast : fields.getLast? = some field) :
    ∃ owner, s.readField field owner = .ok (some u) := by
  induction fields generalizing v with
  | nil => simp at hlast
  | cons first rest ih =>
    rw [readAlong] at h
    cases hread : s.readField first v with
    | error e => simp [hread] at h
    | ok value =>
      rw [hread] at h
      cases value with
      | none => simp at h
      | some w =>
        cases rest with
        | nil =>
          simp only [List.getLast?_singleton, Option.some.injEq] at hlast
          simp only [readAlong, Except.ok.injEq, Option.some.injEq] at h
          exact ⟨v, by rw [← hlast, hread, h]⟩
        | cons second more => exact ih h (by rwa [List.getLast?_cons_cons] at hlast)

end Store

namespace Index

variable {source : IndexSource} {store : Store}

/-! ## Errors -/

/-- The errors that come up along levels. -/
inductive Fails (store : Store) (levels : List ChainLevel) : IndexingError → Prop where
  | cycle (typeName : String) : Fails store levels (.cyclicGraph typeName)
  | access (owner field : String) (fault : AccessFault) :
      Fails store levels (.fieldAccess owner field fault)
  /-- what was read at a level is no container of its kind -/
  | check {level : ChainLevel} {v container : Value} {e : IndexingError} (mem : level ∈ levels)
      (read : store.readAlong level.fields v = .ok (some container))
      (failed : level.check container = .error e) : Fails store levels e

theorem Fails.cons {levels : List ChainLevel} {e : IndexingError} (h : Fails store levels e)
    (level : ChainLevel) : Fails store (level :: levels) e := by
  cases h with
  | cycle typeName => exact .cycle typeName
  | access owner field fault => exact .access owner field fault
  | check mem read failed => exact .check (List.mem_cons_of_mem _ mem) read failed

theorem fails_of_enter {path : List Nat} {v : Value} {e : IndexingError}
    (h : enter source path v = .error e) (levels : List ChainLevel) :
    Fails source.store levels e := by
  unfold enter at h
  split at h
  · split at h
    · obtain rfl := Except.error.inj h
      exact .cycle _
    · simp at h
  · simp at h

theorem gather_error {nested : Option (Value → Except IndexingError (List IndexNode))}
    {els : List (String × Value × Bool)} {e : IndexingError} (h : gather nested els = .error e) :
    ∃ find u, nested = some find ∧ find u = .error e := by
  induction els with
  | nil => simp [gather] at h
  | cons el rest ih =>
    obtain ⟨id, u, addressed⟩ := el
    simp only [gather, bind, Except.bind, pure, Except.pure] at h
    cases hown : fromElement nested id u addressed with
    | error e' =>
      rw [hown] at h
      obtain rfl := Except.error.inj h
      unfold fromElement at hown
      split at hown
      next find =>
        refine ⟨find, u, rfl, ?_⟩
        cases hfind : find u with
        | error e => simpa [hfind, Except.map] using hown
        | ok nodes => simp [hfind, Except.map] at hown
      next => simp at hown
    | ok own =>
      cases hothers : gather nested rest with
      | error e' =>
        rw [hown, hothers] at h
        exact ih (hothers.trans h)
      | ok others => simp [hown, hothers] at h

/-- A walk that fails stops at reading, at the container, or at one of its elements. -/
theorem walk_cons_error {level : ChainLevel} {rest : List ChainLevel} {path : List Nat} {v : Value}
    {e : IndexingError} (h : walk source (level :: rest) path v = .error e) :
    source.store.readAlong level.fields v = .error e
      ∨ ∃ container, source.store.readAlong level.fields v = .ok (some container)
        ∧ (level.check container = .error e
          ∨ gather (nestedWalk source rest path) (elements source.store container level.side)
            = .error e) := by
  simp only [walk, bind, Except.bind, pure, Except.pure] at h
  split at h
  next e' hread =>
    obtain rfl := Except.error.inj h
    exact .inl hread
  next found hread =>
    cases found with
    | none => simp at h
    | some container =>
      simp only at h
      refine .inr ⟨container, hread, ?_⟩
      split at h
      next => simp at h
      next =>
        cases hcheck : level.check container with
        | error e' =>
          rw [hcheck] at h
          obtain rfl := Except.error.inj h
          exact .inl rfl
        | ok _ =>
          simp only [hcheck] at h
          split at h
          next e' hgather => exact .inr (hgather.trans h)
          next => simp at h

/-- Whatever the value, a walk fails in one of three ways. -/
theorem fails_of_walk {levels : List ChainLevel} {path : List Nat} {v : Value} {e : IndexingError}
    (h : walk source levels path v = .error e) : Fails source.store levels e := by
  induction levels generalizing path v with
  | nil => simp [walk] at h
  | cons level rest ih =>
    rcases walk_cons_error h with hread | ⟨container, hread, hcheck | hgather⟩
    · obtain ⟨owner, field, fault, rfl⟩ := Store.readAlong_error hread
      exact .access owner field fault
    · exact .check List.mem_cons_self hread hcheck
    · obtain ⟨find, u, hnested, hfind⟩ := gather_error hgather
      unfold nestedWalk at hnested
      split at hnested
      next => simp at hnested
      next =>
        obtain rfl := Option.some.inj hnested
        cases henter : enter source path u with
        | error e' =>
          simp only [henter, bind, Except.bind] at hfind
          obtain rfl := Except.error.inj hfind
          exact fails_of_enter henter _
        | ok path' =>
          simp only [henter, bind, Except.bind] at hfind
          exact (ih hfind).cons level

/-- A container node of a chain holds a value of another kind, and the fault says so. -/
structure Misfit (store : Store) (tree : Tree) (c : Chain) (id : Nat) (n : Node) (v : Value)
    (fault : TreeFault) : Prop where
  node : tree.node? id = some n
  isContainer : n.isContainer = true
  onChain : ∃ level ∈ tree.levels none c.tokens, level.fields.getLast? = some n.field
    ∧ level.path = n.path
  /-- the value was read from the field of the node -/
  read : ∃ owner, store.readField n.field owner = .ok (some v)
  other : n.admits v = false
  reported : fault = .wrongValue n.path n.descriptor v.kind

theorem ChainLevel.check_error {level : ChainLevel} {n : Node} {v : Value} {e : IndexingError}
    (hpath : level.path = n.path) (hrole : level.descriptor = n.descriptor)
    (h : level.check v = .error e) :
    n.admits v = false ∧ e = .treeMismatch (.wrongValue n.path n.descriptor v.kind) := by
  unfold ChainLevel.check at h
  rw [hpath, hrole] at h
  split at h
  · simp at h
  · simp at h
  next hsequence hmap =>
    refine ⟨?_, (Except.error.inj h).symm⟩
    unfold Node.admits
    split
    next id => simpa using hsequence id rfl
    next id => simpa using hmap id rfl
    next => rfl

/-- Of the faults that are named for a tree and a chain, one is met. -/
theorem Fails.cause {tree : Tree} {c : Chain} {e : IndexingError}
    (h : Fails store (tree.levels none c.tokens) e) :
    e ≠ .depthLimitExceeded
      ∧ ∀ fault, e = .treeMismatch fault → ∃ id n v, Misfit store tree c id n v fault := by
  cases h with
  | cycle typeName => simp
  | access owner field fault => simp
  | @check level v container e mem read failed =>
    obtain ⟨id, n, hn, hcontainer, hpath, hrole, hlast⟩ := Tree.node_of_mem_levels mem
    obtain ⟨hother, hfault⟩ := ChainLevel.check_error hpath hrole failed
    rw [hfault]
    refine ⟨by simp, fun fault heq => ?_⟩
    have hread := Store.readField_of_readAlong read hlast
    exact ⟨id, n, container, hn, hcontainer, ⟨level, mem, hlast, hpath⟩, hread, hother,
      (IndexingError.treeMismatch.inj heq).symm⟩

theorem fails_of_found {tree : Tree} {c : Chain} {v : Value} {e : IndexingError}
    (h : found source tree c v = .error e) :
    Fails source.store (tree.levels none c.tokens) e := by
  unfold found at h
  cases henter : enter source [] v with
  | error e' =>
    rw [henter] at h
    obtain rfl := Except.error.inj h
    exact fails_of_enter henter _
  | ok path =>
    rw [henter] at h
    exact fails_of_walk h

/-! ## The last level -/

/-- An element at the end of levels: it stands in the container of the last one, and at each level
before the chain goes on from an element on its side. -/
inductive AtEnd (store : Store) : List ChainLevel → Value → List String → Value → Prop where
  | last {level : ChainLevel} {v container u : Value} {id : String} {side : Option MapSide}
      (read : store.readAlong level.fields v = .ok (some container))
      (place : ElementAt store container id side u) (set : u.isNull = false) :
      AtEnd store [level] v [level.key, id] u
  | further {level : ChainLevel} {rest : List ChainLevel} {v container u w : Value} {id : String}
      {path : List String} (read : store.readAlong level.fields v = .ok (some container))
      (place : ElementAt store container id level.side u) (set : u.isNull = false)
      (nested : AtEnd store rest u path w) :
      AtEnd store (level :: rest) v (level.key :: id :: path) w

namespace AtEnd

variable {levels : List ChainLevel} {v w : Value} {path : List String}

theorem kept (h : AtEnd store levels v path w) : Kept store levels v path w := by
  induction h with
  | last read place set => exact .last read place set
  | further read place set _ ih => exact .within read place set ih

/-- A position and an element for each level. -/
theorem length_eq (h : AtEnd store levels v path w) : path.length = 2 * levels.length := by
  induction h with
  | last read place set => rfl
  | further read place set _ ih =>
    rw [List.length_cons, List.length_cons, List.length_cons, ih]
    omega

theorem ne_nil (h : AtEnd store levels v path w) : levels ≠ [] := by
  cases h <;> simp

end AtEnd

section Object

variable {settings : IndexerSettings} {m : Mapping} {side : Side} {root : Value}

/-- What a mapping finds at the end of a chain is in its index. -/
theorem holds_of_atEnd (h : m.Ready) {found : Option IndexNode}
    (hresult : (object settings store m side root).1 = .ok found) {c : Chain}
    (hc : c ∈ m.chains side) (hcount : 0 < c.containerCount) {path : List String} {w : Value}
    (hend : AtEnd store ((m.tree side).levels none c.tokens) root path w) :
    ∃ n, found = some n ∧ n.Holds path w := by
  rcases @object_cases settings store m side root h with
    ⟨e, herror, -⟩ | ⟨c', cause, -, herror⟩ | ⟨nodes, hnone, halike, hok⟩
  · simp [hresult] at herror
  · simp [hresult] at herror
  · have hvalue : IndexNode.valueIn? nodes path = some w := by
      rw [halike.value, valueIn?_flatMap_share h (forall_foundIn_iff.mp hnone)]
      exact ⟨c, hc, hcount, hend.kept⟩
    have hnodes : nodes ≠ [] := ne_nil_iff_valueIn?.mpr ⟨path, w, hvalue⟩
    rw [hresult, if_neg (by simpa using hnodes), Except.ok.injEq] at hok
    exact ⟨_, hok, holds_graft_blank.mpr hvalue⟩

theorem cause_of_error (h : m.Ready) {e : ExecutionError}
    (herror : (object settings store m side root).1 = .error e) :
    e.cause ≠ .depthLimitExceeded ∧ ∀ fault, e.cause = .treeMismatch fault →
      ∃ c ∈ m.chains side, c.text = e.chain
        ∧ ∃ id n v, Misfit store (m.tree side) c id n v fault := by
  rcases @object_cases settings store m side root h with
    ⟨e', herror', hcause⟩ | ⟨c, cause, hfirst, herror'⟩ | ⟨nodes, -, -, hok⟩
  · rw [herror] at herror'
    obtain rfl := Except.error.inj herror'
    simp [hcause]
  · rw [herror] at herror'
    obtain rfl := Except.error.inj herror'
    obtain ⟨c', hc', hfailure⟩ := List.exists_of_findSome?_eq_some hfirst
    unfold failure? at hfailure
    split at hfailure
    next e' _ hfound =>
      obtain ⟨rfl, rfl⟩ := Prod.mk.inj (Option.some.inj hfailure)
      obtain ⟨hdepth, hmismatch⟩ := (fails_of_found hfound).cause
      exact ⟨hdepth, fun fault hfault => ⟨c', hc', rfl, hmismatch fault hfault⟩⟩
    next => simp at hfailure
  · simp [herror] at hok

/-- Indexing for a compiled mapping ends with no fault of its own, whatever the value: the levels of
a chain are never more than it may enter, and a tree that does not fit is a container field with a
value of another kind.  If nothing goes wrong, every chain is followed to its last level. -/
theorem object_faults_of_compile {compiler : Compiler} {script : Script}
    (hm : (compiler.compile script).1.mapping = some m) :
    (∀ e, (object settings store m side root).1 = .error e →
        e.cause ≠ .depthLimitExceeded ∧ ∀ fault, e.cause = .treeMismatch fault →
          ∃ c ∈ m.chains side, c.text = e.chain
            ∧ ∃ id n v, Misfit store (m.tree side) c id n v fault)
      ∧ ∀ c ∈ m.chains side,
        ((m.tree side).levels none c.tokens).length = c.containerCount
          ∧ c.containerCount ≤ Limits.indexDepth
          ∧ ∀ found, (object settings store m side root).1 = .ok found → ∀ path w,
            AtEnd store ((m.tree side).levels none c.tokens) root path w →
            path.length = 2 * c.containerCount ∧ ∃ n, found = some n ∧ n.Holds path w := by
  have hready := Compiler.ready_of_compile hm
  refine ⟨fun e herror => cause_of_error hready herror, fun c hc => ?_⟩
  have hresolves := hready.resolves hc
  obtain ⟨last, hleads⟩ := hresolves.leads
  have hlength : ((m.tree side).levels none c.tokens).length = c.containerCount :=
    Tree.length_levels hleads
  have hdepth : c.containerCount ≤ Limits.indexDepth :=
    Nat.le_trans List.countP_le_length hresolves.proper.length_le
  refine ⟨hlength, hdepth, fun found hresult path w hend => ⟨hlength ▸ hend.length_eq, ?_⟩⟩
  have hcount : 0 < c.containerCount := hlength ▸ List.length_pos_iff.mpr hend.ne_nil
  exact holds_of_atEnd hready hresult hc hcount hend

end Object

/-- The field of a loop: a list of loops. -/
def loopField : FieldType := ⟨"Loop", "a", ⟨"List", .list, [⟨"Loop", .object, []⟩]⟩⟩

/-- A source in which `a` leads to a list of loops and any other field is a text. -/
def loops : Introspector where
  typeRef name := .ok ⟨name, .object, []⟩
  fieldType owner field :=
    if field = "a" then .ok loopField else .ok ⟨owner, field, ⟨"String", .scalar, []⟩⟩

/-- A script with a chain that is all containers, as many as a chain may have segments. -/
def spiral : Script where
  id := "spiral"
  sourceType := "Loop"
  targetType := "Report"
  commands :=
    [{ id := "turns", target := "turns"
       source := some (Text.join "." (List.replicate Limits.tokensPerChain "a[*]")) }]

/-- A loop that holds itself. -/
def ouroboros : Store where
  objects := #[⟨"Loop", [("a", .sequence 0)]⟩]
  sequences := #[[.object 0]]

/-- Around the loop once for each level. -/
theorem atEnd_ouroboros {levels : List ChainLevel} (hlevels : levels ≠ [])
    (hall : ∀ level ∈ levels, level.fields = [loopField] ∧ level.side = none) :
    ∃ path, AtEnd ouroboros levels (.object 0) path (.object 0) := by
  induction levels with
  | nil => exact absurd rfl hlevels
  | cons level rest ih =>
    obtain ⟨hfields, hside⟩ := hall level List.mem_cons_self
    have hread : ouroboros.readAlong level.fields (.object 0) = .ok (some (.sequence 0)) := by
      rw [hfields]
      rfl
    have hplace : ElementAt ouroboros (.sequence 0) (toString 0) level.side (.object 0) := by
      rw [hside]
      exact .item rfl
    by_cases hrest : rest = []
    · subst hrest
      exact ⟨_, .last hread hplace rfl⟩
    · obtain ⟨path, hend⟩ := ih hrest fun l hl => hall l (List.mem_cons_of_mem _ hl)
      exact ⟨_, .further hread hplace rfl hend⟩

/-- What the spiral compiles to: one chain, 64 levels of the same field, and an index of the loop.
These are one computation, because compiling the chain is what takes long. -/
def turnsInto (m : Mapping) : Bool :=
  decide ((m.chains .source).map Chain.containerCount = [64])
    && (m.chains .source).all (fun c => ((m.tree .source).levels none c.tokens).all fun level =>
      level.fields = [loopField] ∧ level.side = none)
    && (object { detectCycles := false } ouroboros m .source (.object 0)).1.toBool

theorem turnsInto_spiral :
    (({ introspector := loops } : Compiler).compile spiral).1.mapping.any turnsInto = true := by
  decide +kernel

/-- A chain of 64 containers goes around 64 times. -/
theorem object_faults_of_compile_spiral : Limits.indexDepth = 64
    ∧ ∃ m, (({ introspector := loops } : Compiler).compile spiral).1.mapping = some m
      ∧ (m.chains .source).map Chain.containerCount = [64]
      ∧ ∃ n path,
        (object { detectCycles := false } ouroboros m .source (.object 0)).1 = .ok (some n)
        ∧ path.length = 128 ∧ n.Holds path (.object 0) := by
  obtain ⟨m, hm, hturns⟩ := (Option.any_eq_true _ _).mp turnsInto_spiral
  rw [turnsInto, Bool.and_eq_true, Bool.and_eq_true, decide_eq_true_eq] at hturns
  obtain ⟨⟨hcounts, hlevels⟩, hok⟩ := hturns
  refine ⟨rfl, m, hm, hcounts, ?_⟩
  obtain ⟨c, hchains, hcount⟩ := List.map_eq_singleton_iff.mp hcounts
  have hc : c ∈ m.chains .source := hchains ▸ List.mem_singleton_self c
  obtain ⟨-, hreached⟩ := @object_faults_of_compile ouroboros { detectCycles := false } m .source
    (.object 0) _ _ hm
  obtain ⟨hlength, -, hends⟩ := hreached c hc
  have hpos : (m.tree .source).levels none c.tokens ≠ [] := by
    rw [← List.length_pos_iff, hlength, hcount]
    decide
  have hfields : ∀ level ∈ (m.tree .source).levels none c.tokens,
      level.fields = [loopField] ∧ level.side = none := by
    simpa using List.all_eq_true.mp hlevels c hc
  obtain ⟨path, hend⟩ := atEnd_ouroboros hpos hfields
  cases hresult : (object { detectCycles := false } ouroboros m .source (.object 0)).1 with
  | error e => simp [hresult, Except.toBool] at hok
  | ok found =>
    obtain ⟨hpath, n, rfl, hholds⟩ := hends found hresult path _ hend
    exact ⟨n, path, rfl, by rw [hpath, hcount], hholds⟩

end Index
end ChainMapping
