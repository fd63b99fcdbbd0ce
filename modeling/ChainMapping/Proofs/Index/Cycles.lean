import Mathlib.Data.List.Infix
import Mathlib.Logic.Relation
import ChainMapping.Proofs.Index.Depth
import ChainMapping.Proofs.Value.Places

/-!
# Detecting cycles

Indexing remembers the objects on the way down and can refuse to meet one of them again.  What it
remembers at a value are objects that lead to the value, so a refusal is always the fault of an
object that is reachable from itself.  An object that is only shared is met again on another way.

`Indexing.AgreeUnless` compares a step of indexing that detects cycles with the same step without
detection: if there is no cycle to be found, they cannot be told apart.
-/

namespace ChainMapping

open Relation

/-! ## Values that lead to values -/

/-- Some object below a value, or the value itself, is reachable from itself. -/
def Store.LeadsIntoCycle (s : Store) (root : Value) : Prop :=
  ∃ id, ReflTransGen s.Leads root (.object id) ∧ TransGen s.Leads (.object id) (.object id)

section Leads

variable {store : Store}

theorem Store.leads_of_readField {field : FieldType} {v u : Value}
    (h : store.readField field v = .ok (some u)) : store.Leads v u := by
  unfold readField at h
  cases v with
  | object id =>
    cases hfound : store.object? id with
    | none => simp [Value.object?, hfound] at h
    | some o =>
      simp only [Value.object?, Option.bind_some, hfound] at h
      split at h
      · simp at h
      · rw [Except.ok.injEq, Option.filter_eq_some_iff] at h
        exact .field hfound h.1
  | _ => simp [Value.object?] at h

/-- A container that is read along a chain is strictly below the value that reading starts from. -/
theorem Cursor.leads_of_readToContainer {steps : Nat} {c c' : Cursor} {v container : Value}
    (h : c.readToContainer store steps v = .ok (some (c', container))) :
    TransGen store.Leads v container := by
  induction steps generalizing c v with
  | zero => simp [readToContainer] at h
  | succ steps ih =>
    unfold readToContainer at h
    split at h
    next => simp at h
    next n hnode =>
      split at h
      next => simp at h
      next =>
        split at h
        next => simp at h
        next => simp at h
        next u hread =>
          have hfirst := Store.leads_of_readField hread
          split at h
          next =>
            rw [Except.ok.injEq, Option.some.injEq, Prod.mk.injEq] at h
            exact .single (h.2 ▸ hfirst)
          next =>
            split at h
            next next hdescend => exact .head hfirst (ih h)
            next => simp at h

theorem Index.ElementAt.leads {container u : Value} {id : String} {side : Option MapSide}
    (h : ElementAt store container id side u) : store.Leads container u := by
  cases h with
  | item hitem => exact .item (List.mem_of_getElem? hitem)
  | key hentry => exact .key (List.mem_of_getElem? hentry)
  | value hentry => exact .value (List.mem_of_getElem? hentry)

end Leads

/-! ## Steps that agree -/

namespace Indexing

/-- Two steps do the same to every index, unless there is a cycle and the first one reports it. -/
def AgreeUnless (cyclic : Prop) {α : Type} (m m' : Indexing α) : Prop :=
  ∀ w, m w = m' w ∨ cyclic ∧ ∃ name w', m w = .error (.cyclicGraph name) w'

variable {cyclic : Prop} {α β : Type}

theorem AgreeUnless.refl (m : Indexing α) : AgreeUnless cyclic m m := fun _ => .inl rfl

theorem AgreeUnless.bind {m m' : Indexing α} {f f' : α → Indexing β} (h : AgreeUnless cyclic m m')
    (hf : ∀ a, AgreeUnless cyclic (f a) (f' a)) : AgreeUnless cyclic (m >>= f) (m' >>= f') := by
  intro w
  show EStateM.bind m f w = EStateM.bind m' f' w ∨ cyclic ∧ ∃ name w', EStateM.bind m f w = _
  unfold EStateM.bind
  rcases h w with heq | ⟨hcyclic, name, w', herror⟩
  · rw [heq]
    cases m' w with
    | ok a w' => exact hf a w'
    | error e w' => exact .inl rfl
  · exact .inr ⟨hcyclic, name, w', by rw [herror]⟩

theorem AgreeUnless.liftError {answer : Except IndexingError α} {f f' : α → Indexing β}
    (h : ∀ a, answer = .ok a → AgreeUnless cyclic (f a) (f' a)) :
    AgreeUnless cyclic (Indexing.liftError answer >>= f) (Indexing.liftError answer >>= f') := by
  cases answer with
  | ok a => exact h a rfl
  | error e => exact .refl _

/-- A check before a step: it passes without detection, and with detection it passes as well or
reports a cycle. -/
theorem AgreeUnless.after {check check' : Except IndexingError α} {a' : α} {f f' : α → Indexing β}
    (hoff : check' = .ok a') (hon : ∀ a, check = .ok a → AgreeUnless cyclic (f a) (f' a'))
    (hreport : ∀ e, check = .error e → cyclic ∧ ∃ name, e = .cyclicGraph name) :
    AgreeUnless cyclic (Indexing.liftError check >>= f) (Indexing.liftError check' >>= f') := by
  rw [hoff]
  cases hcheck : check with
  | ok a => exact hon a hcheck
  | error e =>
    obtain ⟨hcyclic, name, rfl⟩ := hreport e hcheck
    exact fun w => .inr ⟨hcyclic, name, w, rfl⟩

variable {fill fill' : Indexing Unit}

theorem AgreeUnless.within (h : AgreeUnless cyclic fill fill') (child : IndexNode) :
    AgreeUnless cyclic (within child fill) (within child fill') := by
  intro w
  unfold Indexing.within
  rcases h { w with node := child } with heq | ⟨hcyclic, name, w', herror⟩
  · exact .inl (by rw [heq])
  · exact .inr ⟨hcyclic, name, _, by rw [herror]⟩

theorem AgreeUnless.attachFilled (h : AgreeUnless cyclic fill fill') (child : IndexNode) :
    AgreeUnless cyclic (attachFilled child fill) (attachFilled child fill') := by
  intro w
  unfold Indexing.attachFilled
  rcases h { w with node := child } with heq | ⟨hcyclic, name, w', herror⟩
  · exact .inl (by rw [heq])
  · exact .inr ⟨hcyclic, name, _, by rw [herror]⟩

theorem AgreeUnless.fillChild (h : AgreeUnless cyclic fill fill') (id : String) (value : Value) :
    AgreeUnless cyclic (fillChild id value fill) (fillChild id value fill') := by
  refine (AgreeUnless.refl _).bind fun child => ?_
  cases child with
  | some child => exact h.within child
  | none => exact h.attachFilled _

theorem AgreeUnless.forElements {f f' : String → Value → Bool → Indexing Unit}
    {els : List (String × Value × Bool)}
    (h : ∀ id v addressed, (id, v, addressed) ∈ els →
      AgreeUnless cyclic (f id v addressed) (f' id v addressed)) :
    AgreeUnless cyclic (Index.forElements f els) (Index.forElements f' els) := by
  induction els with
  | nil => exact .refl _
  | cons el rest ih =>
    obtain ⟨id, v, addressed⟩ := el
    exact (h id v addressed List.mem_cons_self).bind fun _ =>
      ih fun id v addressed hmem => h id v addressed (List.mem_cons_of_mem _ hmem)

end Indexing

namespace Index

open Indexing (AgreeUnless)

/-! ## With detection and without -/

section Detection

variable {store : Store} {root : Value}

/-- The objects remembered on the way down to a value: each was reached from the root and leads to
the value. -/
def Remembered (store : Store) (root : Value) (path : List Nat) (v : Value) : Prop :=
  ∀ id ∈ path, ReflTransGen store.Leads root (.object id) ∧ ReflTransGen store.Leads (.object id) v

theorem enter_of_not_detecting (path : List Nat) (v : Value) :
    enter ⟨store, false⟩ path v = .ok path := by
  unfold enter
  split
  next hdetects => simp at hdetects
  next => rfl

theorem enter_ok {source : IndexSource} {path path' : List Nat} {v : Value}
    (h : enter source path v = .ok path') :
    path' = path ∨ ∃ id, v = .object id ∧ id ∉ path ∧ path' = id :: path := by
  unfold enter at h
  split at h
  next id _ =>
    split at h
    next => simp at h
    next hnew =>
      rw [List.contains_iff_mem] at hnew
      exact .inr ⟨id, rfl, hnew, (Except.ok.inj h).symm⟩
  next => exact .inl (Except.ok.inj h).symm

theorem enter_error {source : IndexSource} {path : List Nat} {v : Value} {e : IndexingError}
    (h : enter source path v = .error e) :
    ∃ id, v = .object id ∧ id ∈ path ∧ ∃ name, e = .cyclicGraph name := by
  unfold enter at h
  split at h
  next id _ =>
    split at h
    next hmem =>
      rw [List.contains_iff_mem] at hmem
      exact ⟨id, rfl, hmem, _, (Except.error.inj h).symm⟩
    next => simp at h
  next => simp at h

/-- What is remembered above a value is remembered below it, and so is the value. -/
theorem Remembered.enter {path path' : List Nat} {v u : Value} (h : Remembered store root path v)
    (hroot : ReflTransGen store.Leads root v) (hbelow : TransGen store.Leads v u)
    {source : IndexSource} (henter : enter source path u = .ok path') :
    Remembered store root path' u := by
  have hkept : Remembered store root path u := fun id hid =>
    ⟨(h id hid).1, (h id hid).2.trans hbelow.to_reflTransGen⟩
  rcases enter_ok henter with rfl | ⟨id, rfl, -, rfl⟩
  · exact hkept
  · intro id' hid'
    rcases List.mem_cons.mp hid' with rfl | hid'
    · exact ⟨hroot.trans hbelow.to_reflTransGen, .refl⟩
    · exact hkept id' hid'

/-- If a value below leads back to something remembered, there is a cycle. -/
theorem Remembered.cycle {path : List Nat} {v : Value} {id : Nat} (h : Remembered store root path v)
    (hbelow : TransGen store.Leads v (.object id)) (hid : id ∈ path) : store.LeadsIntoCycle root :=
  ⟨id, (h id hid).1, TransGen.trans_right (h id hid).2 hbelow⟩

/-- Descending with detection differs from descending without it only if it comes to a cycle. -/
theorem agree_descend {levels : Nat} {path path' : List Nat} {c : Cursor} {v : Value}
    (hroot : ReflTransGen store.Leads root v) (hpath : Remembered store root path v) :
    AgreeUnless (store.LeadsIntoCycle root) (descend ⟨store, true⟩ levels path c v)
      (descend ⟨store, false⟩ levels path' c v) := by
  induction levels generalizing path path' c v with
  | zero => exact .refl _
  | succ levels ih =>
    unfold descend
    refine AgreeUnless.liftError fun found hread => ?_
    cases found with
    | none => exact .refl _
    | some found =>
      obtain ⟨c, container⟩ := found
      simp only
      split
      · exact .refl _
      · refine AgreeUnless.liftError fun visited _ => ?_
        refine AgreeUnless.fillChild (AgreeUnless.forElements fun id u addressed hmem => ?_) _ _
        -- An element is strictly below the value that the level starts from.
        obtain ⟨side, hplace, -⟩ := mem_elements.mp hmem
        have hbelow : TransGen store.Leads v u :=
          (Cursor.leads_of_readToContainer hread).tail hplace.leads
        cases addressed with
        | false => exact .refl _
        | true =>
          cases visited.next with
          | none => exact .refl _
          | some next =>
            refine AgreeUnless.fillChild ?_ id u
            refine AgreeUnless.after (enter_of_not_detecting path' u) (fun path henter => ?_)
              fun e henter => ?_
            · exact ih (hroot.trans hbelow.to_reflTransGen) (hpath.enter hroot hbelow henter)
            · obtain ⟨id, rfl, hid, hname⟩ := enter_error henter
              exact ⟨hpath.cycle hbelow hid, hname⟩

theorem agree_chain (tree : Tree) (c : Chain) (v : Value) :
    AgreeUnless (store.LeadsIntoCycle v) (chain ⟨store, true⟩ tree c v)
      (chain ⟨store, false⟩ tree c v) := by
  unfold chain
  cases Cursor.atFirst? tree c with
  | none => exact .refl _
  | some first =>
    refine AgreeUnless.after (enter_of_not_detecting [] v) (fun path henter => ?_)
      fun e henter => ?_
    · refine agree_descend .refl ?_
      rcases enter_ok henter with rfl | ⟨id, rfl, -, rfl⟩
      · exact fun id hid => absurd hid List.not_mem_nil
      · exact fun id' hid' => List.mem_singleton.mp hid' ▸ ⟨.refl, .refl⟩
    · obtain ⟨id, -, hid, -⟩ := enter_error henter
      exact absurd hid List.not_mem_nil

/-- The same pass with detection on or off. -/
def Subject.detecting (s : Subject) (detectCycles : Bool) : Subject :=
  { s with source := ⟨s.source.store, detectCycles⟩ }

@[simp] theorem Subject.detecting_mapping (s : Subject) (detectCycles : Bool) :
    (s.detecting detectCycles).mapping = s.mapping := rfl

@[simp] theorem Subject.detecting_side (s : Subject) (detectCycles : Bool) :
    (s.detecting detectCycles).side = s.side := rfl

@[simp] theorem Subject.detecting_root (s : Subject) (detectCycles : Bool) :
    (s.detecting detectCycles).root = s.root := rfl

/-- An outcome that is an error about a cycle. -/
def ReportsCycle {α : Type} (result : Except ExecutionError α) : Prop :=
  ∃ e name, result = .error e ∧ e.cause = .cyclicGraph name

theorem Subject.agree_indexChains (s : Subject) (chains : List Chain) (work : IndexWork)
    (seen : List String) :
    (s.detecting true).indexChains chains work seen
        = (s.detecting false).indexChains chains work seen
      ∨ s.source.store.LeadsIntoCycle s.root
        ∧ ReportsCycle ((s.detecting true).indexChains chains work seen).1 := by
  induction chains generalizing work seen with
  | nil => exact .inl rfl
  | cons c rest ih =>
    unfold Subject.indexChains
    cases c.lastContainerIndex? with
    | none => exact ih work seen
    | some last =>
      simp only
      by_cases hseen : seen.contains (c.normalPrefix last) = true
      · rw [if_pos hseen, if_pos hseen]
        rcases ih work seen with heq | ⟨hcycle, e, name, herror, hcause⟩
        · exact .inl (by rw [heq]; rfl)
        · exact .inr ⟨hcycle, e, name, herror, hcause⟩
      · rw [if_neg hseen, if_neg hseen]
        have hagree : AgreeUnless (s.source.store.LeadsIntoCycle s.root)
            (chain (s.detecting true).source ((s.detecting true).mapping.tree s.side) c s.root)
            (chain (s.detecting false).source ((s.detecting false).mapping.tree s.side) c s.root) :=
          agree_chain _ c s.root
        rcases hagree work with heq | ⟨hcycle, name, w', herror⟩
        · simp only [EStateM.run, detecting_side, detecting_root, heq]
          cases chain (s.detecting false).source ((s.detecting false).mapping.tree s.side) c s.root
              work with
          | ok _ work => exact ih work _
          | error e _ => exact .inl rfl
        · simp only [EStateM.run, detecting_side, detecting_root, herror]
          exact .inr ⟨hcycle, _, name, rfl, rfl⟩

/-- With detection and without, a pass ends alike and logs alike, unless detection finds a cycle. -/
theorem Subject.agree_index (s : Subject) :
    (s.detecting true).index = (s.detecting false).index
      ∨ s.source.store.LeadsIntoCycle s.root ∧ ReportsCycle (s.detecting true).index.1 := by
  have hagree := s.agree_indexChains (s.mapping.chains s.side) { node := blank s.root } []
  unfold blank at hagree
  simp only [index, detecting_mapping, detecting_side, detecting_root]
  rcases hagree with heq | ⟨hcycle, e, name, herror, hcause⟩
  · rw [heq]
    exact .inl rfl
  · refine .inr ⟨hcycle, e, name, ?_, hcause⟩
    rcases hresult : (s.detecting true).indexChains (s.mapping.chains s.side)
      { node := ⟨IndexNode.rootId, s.root, []⟩ } [] with ⟨result, log⟩
    rw [hresult] at herror
    obtain rfl : result = .error e := herror
    rfl

theorem agree_object (settings : IndexerSettings) (m : Mapping) (side : Side) :
    object { settings with detectCycles := true } store m side root
        = object { settings with detectCycles := false } store m side root
      ∨ store.LeadsIntoCycle root
        ∧ ReportsCycle (object { settings with detectCycles := true } store m side root).1 :=
  (subjectOf settings store m side root).agree_index

theorem walk_not_detecting {levels : List ChainLevel} {path : List Nat} {v : Value}
    {e : IndexingError} (h : walk ⟨store, false⟩ levels path v = .error e) (name : String) :
    e ≠ .cyclicGraph name := by
  induction levels generalizing path v with
  | nil => simp [walk] at h
  | cons level rest ih =>
    rcases walk_cons_error h with hread | ⟨container, hread, hcheck | hgather⟩
    · obtain ⟨owner, field, fault, rfl⟩ := Store.readAlong_error hread
      simp
    · unfold ChainLevel.check at hcheck
      split at hcheck
      next => simp at hcheck
      next => simp at hcheck
      next =>
        obtain rfl := Except.error.inj hcheck
        simp
    · obtain ⟨find, u, hnested, hfind⟩ := gather_error hgather
      unfold nestedWalk at hnested
      split at hnested
      next => simp at hnested
      next =>
        obtain rfl := Option.some.inj hnested
        simp only [enter_of_not_detecting] at hfind
        exact ih hfind

/-- Without detection no cycle is reported. -/
theorem not_reportsCycle {settings : IndexerSettings} {m : Mapping} (h : m.Ready) {side : Side} :
    ¬ReportsCycle (object { settings with detectCycles := false } store m side root).1 := by
  intro hreports
  obtain ⟨e, name, herror, hcause⟩ := hreports
  rcases @object_cases { settings with detectCycles := false } store m side root h with
    ⟨e', herror', hcause'⟩ | ⟨c, cause, hfirst, herror'⟩ | ⟨nodes, -, -, hok⟩
  · rw [herror, Except.error.injEq] at herror'
    rw [herror', hcause'] at hcause
    simp at hcause
  · rw [herror, Except.error.injEq] at herror'
    rw [herror'] at hcause
    obtain ⟨c', -, hfailure⟩ := List.exists_of_findSome?_eq_some hfirst
    unfold failure? at hfailure
    split at hfailure
    next e' _ hfound =>
      obtain ⟨rfl, rfl⟩ := Prod.mk.inj (Option.some.inj hfailure)
      unfold foundIn found at hfound
      rw [show sourceOf { settings with detectCycles := false } store = ⟨store, false⟩ from rfl,
        enter_of_not_detecting] at hfound
      exact walk_not_detecting hfound name hcause
    next => simp at hfailure
  · simp [herror] at hok

end Detection

/-! ## No object twice on the way down -/

section Entered

/-- An element from which a walk has gone on was entered on the way. -/
theorem entered_of_fromElement {source : IndexSource} {rest : List ChainLevel} {path : List Nat}
    {id next : String} {u w : Value} {addressed : Bool} {own : List IndexNode}
    (h : fromElement (nestedWalk source rest path) id u addressed = .ok own) {tail : List String}
    (hvalue : IndexNode.valueIn? own (id :: next :: tail) = some w) :
    ∃ path' nodes, enter source path u = .ok path' ∧ walk source rest path' u = .ok nodes
      ∧ own = keep id u nodes := by
  unfold fromElement at h
  split at h
  next find hfind =>
    unfold nestedWalk at hfind
    split at hfind
    next => simp at hfind
    next =>
      obtain rfl := Option.some.inj hfind
      obtain ⟨nodes, hnodes, rfl⟩ := map_eq_ok h
      obtain ⟨path', henter, hwalk⟩ := bind_eq_ok hnodes
      exact ⟨path', nodes, henter, hwalk, rfl⟩
  next =>
    rw [← Except.ok.inj h] at hvalue
    simp [IndexNode.valueIn?, IndexNode.under, IndexNode.valueIn?_nil] at hvalue

variable {source : IndexSource} {level : ChainLevel} {rest : List ChainLevel} {path : List Nat}
  {v : Value} {nodes : List IndexNode}

/-- Two steps down from the start of a walk stands an element of the container there. -/
theorem element_of_walk (h : walk source (level :: rest) path v = .ok nodes) {key id : String}
    {tail : List String} {w : Value}
    (hvalue : IndexNode.valueIn? nodes (key :: id :: tail) = some w) :
    ∃ u addressed own, fromElement (nestedWalk source rest path) id u addressed = .ok own
      ∧ ∀ tail, IndexNode.valueIn? nodes (key :: id :: tail)
        = IndexNode.valueIn? own (id :: tail) := by
  rcases walk_cons_ok h with ⟨-, rfl⟩ | ⟨container, kept, -, hgather, rfl⟩
  · rw [IndexNode.valueIn?_nil] at hvalue
    exact absurd hvalue (by simp)
  · rw [valueIn?_keep] at hvalue
    split at hvalue
    · simp at hvalue
    next hhere =>
      obtain ⟨u, addressed, own, hmem, hown, -⟩ :=
        (valueIn?_gather (nodup_elements ..) hgather).mp (by simpa using hvalue)
      refine ⟨u, addressed, own, hown, fun tail => ?_⟩
      rw [valueIn?_keep, if_neg hhere, if_neg (by simp), ← IndexNode.valueIn?_filter,
        filter_gather (nodup_elements ..) hgather hmem hown]

/-- If there is something below the element, it was found by the rest of the walk from there. -/
theorem entered_of_walk (h : walk source (level :: rest) path v = .ok nodes)
    {key id next : String} {tail : List String} {w : Value}
    (hvalue : IndexNode.valueIn? nodes (key :: id :: next :: tail) = some w) :
    ∃ u path' nodes', enter source path u = .ok path' ∧ walk source rest path' u = .ok nodes'
      ∧ IndexNode.valueIn? nodes [key, id] = some u
      ∧ ∀ tail ≠ [], IndexNode.valueIn? nodes (key :: id :: tail)
        = IndexNode.valueIn? nodes' tail := by
  obtain ⟨u, addressed, own, hown, hbelow⟩ := element_of_walk h hvalue
  rw [hbelow] at hvalue
  obtain ⟨path', nodes', henter, hwalk, rfl⟩ := entered_of_fromElement hown hvalue
  rw [valueIn?_keep] at hvalue
  split at hvalue
  · simp at hvalue
  next hhere =>
    refine ⟨u, path', nodes', henter, hwalk, ?_, fun tail htail => ?_⟩
    · rw [hbelow, valueIn?_keep, if_neg hhere, if_pos rfl]
    · rw [hbelow, valueIn?_keep, if_neg hhere, if_neg htail]

/-- What stands one step down is a container, never an object. -/
theorem position_ne_object (h : walk source (level :: rest) path v = .ok nodes) {key : String}
    {object : Nat} : IndexNode.valueIn? nodes [key] ≠ some (.object object) := by
  intro hvalue
  rcases walk_cons_ok h with ⟨-, rfl⟩ | ⟨container, kept, -, hgather, rfl⟩
  · rw [IndexNode.valueIn?_nil] at hvalue
    exact absurd hvalue (by simp)
  · rw [valueIn?_keep] at hvalue
    split at hvalue
    · simp at hvalue
    next hhere =>
      rw [if_pos rfl, Option.some.injEq] at hvalue
      subst hvalue
      rw [show elements source.store (.object object) level.side = [] from rfl, gather,
        Except.ok.injEq] at hgather
      exact hhere (.inl hgather.symm)

theorem enter_detecting {store : Store} {path path' : List Nat} {id : Nat}
    (h : enter ⟨store, true⟩ path (.object id) = .ok path') : id ∉ path ∧ path' = id :: path := by
  unfold enter at h
  simp only at h
  split at h
  next => simp at h
  next hnew =>
    rw [List.contains_iff_mem] at hnew
    exact ⟨hnew, (Except.ok.inj h).symm⟩

theorem subset_of_enter {path' : List Nat} (h : enter source path v = .ok path') :
    path ⊆ path' := by
  rcases enter_ok h with rfl | ⟨id, -, -, rfl⟩
  · exact List.Subset.refl _
  · exact List.subset_cons_self id path

/-- A walk with detection goes down into no object that was on the way before. -/
theorem not_mem_of_walk {store : Store} {levels : List ChainLevel}
    (h : walk ⟨store, true⟩ levels path v = .ok nodes) {p : List String} {object : Nat}
    (hobject : IndexNode.valueIn? nodes p = some (.object object)) {id : String} {w : Value}
    (hchild : IndexNode.valueIn? nodes (p ++ [id]) = some w) : object ∉ path := by
  induction levels generalizing path v nodes p with
  | nil =>
    obtain rfl := Except.ok.inj h
    rw [IndexNode.valueIn?_nil] at hobject
    exact absurd hobject (by simp)
  | cons level rest ih =>
    match p with
    | [] => exact absurd hobject (by simp [IndexNode.valueIn?])
    | [key] => exact absurd hobject (position_ne_object h)
    | [key, element] =>
      obtain ⟨u, path', nodes', henter, -, hvalue, -⟩ := entered_of_walk h hchild
      rw [hobject, Option.some.injEq] at hvalue
      subst hvalue
      exact (enter_detecting henter).1
    | key :: element :: next :: tail =>
      obtain ⟨u, path', nodes', henter, hwalk, -, hbelow⟩ := entered_of_walk h hchild
      rw [hbelow _ (by simp)] at hobject
      have hbeyond : IndexNode.valueIn? nodes' (next :: tail ++ [id]) = some w :=
        (hbelow _ (by simp)).symm.trans hchild
      exact fun hmem => ih hwalk hobject hbeyond (subset_of_enter henter hmem)

/-- A walk with detection goes down into no object twice. -/
theorem ne_of_walk {store : Store} {levels : List ChainLevel}
    (h : walk ⟨store, true⟩ levels path v = .ok nodes) {p q : List String} {object object' : Nat}
    (hq : q ≠ []) (hobject : IndexNode.valueIn? nodes p = some (.object object))
    (hobject' : IndexNode.valueIn? nodes (p ++ q) = some (.object object'))
    {id : String} {w : Value} (hchild : IndexNode.valueIn? nodes (p ++ q ++ [id]) = some w) :
    object ≠ object' := by
  induction levels generalizing path v nodes p with
  | nil =>
    obtain rfl := Except.ok.inj h
    rw [IndexNode.valueIn?_nil] at hobject
    exact absurd hobject (by simp)
  | cons level rest ih =>
    match p with
    | [] => exact absurd hobject (by simp [IndexNode.valueIn?])
    | [key] => exact absurd hobject (position_ne_object h)
    | [key, element] =>
      obtain ⟨next, tail, rfl⟩ := List.exists_cons_of_ne_nil hq
      obtain ⟨u, path', nodes', henter, hwalk, hvalue, hbelow⟩ := entered_of_walk h hobject'
      rw [hobject, Option.some.injEq] at hvalue
      subst hvalue
      obtain ⟨-, rfl⟩ := enter_detecting henter
      have hvalue : IndexNode.valueIn? nodes' (next :: tail) = some (.object object') :=
        (hbelow _ (by simp)).symm.trans hobject'
      have hbeyond : IndexNode.valueIn? nodes' (next :: tail ++ [id]) = some w :=
        (hbelow _ (by simp)).symm.trans hchild
      have hnew := not_mem_of_walk hwalk hvalue hbeyond
      exact fun heq => hnew (heq ▸ List.mem_cons_self)
    | key :: element :: next :: tail =>
      obtain ⟨u, path', nodes', henter, hwalk, -, hbelow⟩ := entered_of_walk h hobject
      rw [hbelow _ (by simp)] at hobject
      exact ih hwalk hobject ((hbelow _ (by simp)).symm.trans hobject')
        ((hbelow _ (by simp)).symm.trans hchild)

end Entered

end Index

namespace IndexNode

/-- What nodes bring to the end of a path they also bring to every place on the way. -/
theorem exists_valueIn?_of_append {nodes : List IndexNode} {p q : List String} {w : Value}
    (hp : p ≠ []) (h : valueIn? nodes (p ++ q) = some w) : ∃ u, valueIn? nodes p = some u := by
  induction p generalizing nodes with
  | nil => exact absurd rfl hp
  | cons id rest ih =>
    cases rest with
    | cons next tail => exact ih (by simp) h
    | nil =>
      cases q with
      | nil => exact ⟨w, h⟩
      | cons next tail =>
        rw [List.singleton_append, valueIn?] at h
        cases hfind : nodes.find? (·.id == id) with
        | some x => exact ⟨x.value, by rw [valueIn?, hfind]; rfl⟩
        | none =>
          rw [under_eq_nil hfind, valueIn?_nil] at h
          exact absurd h (by simp)

/-- The object of a node that was gone down into. -/
def entered? (n : IndexNode) : Option Nat := if n.hasChildren then n.value.object? else none

/-- The objects that were gone down into along a path of ids: that of the root, and that of every
element with something below it. -/
def entered (n : IndexNode) (path : List String) : List Nat :=
  path.inits.filterMap fun p => (n.find? p).bind entered?

theorem pairwise_inits (path : List String) :
    path.inits.Pairwise fun p p' => ∃ q, q ≠ [] ∧ p' = p ++ q := by
  induction path with
  | nil => simp
  | cons id rest ih =>
    rw [List.inits_cons, List.pairwise_cons, List.pairwise_map]
    refine ⟨fun p hp => ?_, ih.imp fun hcase => ?_⟩
    · obtain ⟨tail, -, rfl⟩ := List.mem_map.mp hp
      exact ⟨id :: tail, by simp, rfl⟩
    · obtain ⟨q, hq, rfl⟩ := hcase
      exact ⟨q, hq, rfl⟩

theorem find?_append (n : IndexNode) (p q : List String) :
    n.find? (p ++ q) = (n.find? p).bind (·.find? q) := by
  induction p generalizing n with
  | nil => rfl
  | cons id rest ih =>
    rw [List.cons_append, find?_cons, find?_cons]
    cases n.child? id with
    | none => rfl
    | some c => exact ih c

/-- What was gone down into is an object with something below it. -/
theorem valueAt?_of_entered {n : IndexNode} {path : List String} {object : Nat}
    (h : (n.find? path).bind entered? = some object) :
    n.valueAt? path = some (.object object) ∧ ∃ id w, n.valueAt? (path ++ [id]) = some w := by
  obtain ⟨a, hfind, hentered⟩ := Option.bind_eq_some_iff.mp h
  unfold entered? at hentered
  split at hentered
  next hchildren =>
    refine ⟨?_, ?_⟩
    · rw [valueAt?, hfind, Option.map_some]
      cases hvalue : a.value with
      | object id => simpa [hvalue, Value.object?] using hentered
      | _ => simp [hvalue, Value.object?] at hentered
    · have hne : a.children ≠ [] := by simpa [hasChildren] using hchildren
      obtain ⟨c, hc⟩ := List.exists_mem_of_ne_nil _ hne
      obtain ⟨d, hd⟩ := Option.isSome_iff_exists.mp
        (child?_isSome_iff.mpr (List.mem_map_of_mem hc : c.id ∈ a.childIds))
      refine ⟨c.id, d.value, ?_⟩
      rw [valueAt?, find?_append, hfind, Option.bind_some, find?_cons, hd]
      rfl
  next => simp at hentered

end IndexNode

namespace Index

section Object

variable {settings : IndexerSettings} {store : Store} {m : Mapping} {side : Side} {root : Value}

/-- What is at the end of a path in an index was found there by one chain, with all that is above it
up to the root. -/
theorem exists_walk_of_valueAt? (h : m.Ready) {n : IndexNode}
    (hresult : (object settings store m side root).1 = .ok (some n))
    {path : List String} {w : Value} (hpath : path ≠ []) (hvalue : n.valueAt? path = some w) :
    n.value = root ∧ ∃ c ∈ m.chains side, ∃ nodes,
      foundIn settings store m side root c = .ok nodes ∧ IndexNode.valueIn? nodes path = some w
      ∧ ∀ p q, p ≠ [] → path = p ++ q → IndexNode.valueIn? nodes p = n.valueAt? p := by
  rcases @object_cases settings store m side root h with
    ⟨e, herror, -⟩ | ⟨c, cause, -, herror⟩ | ⟨nodes, hnone, halike, hok⟩
  · simp [hresult] at herror
  · simp [hresult] at herror
  · have hall := forall_foundIn_iff.mp hnone
    have hn : n = (blank root).graft nodes := by
      rw [hresult] at hok
      split at hok
      · simp at hok
      · exact Option.some.inj (Except.ok.inj hok)
    -- At every path the index has what some chain has there.
    have hheld {p : List String} {u : Value} (hp : p ≠ []) : n.valueAt? p = some u
        ↔ ∃ c ∈ m.chains side, 0 < c.containerCount
          ∧ Kept store ((m.tree side).levels none c.tokens) root p u := by
      rw [← valueIn?_flatMap_share h hall, ← halike.value, ← @holds_graft_blank root, ← hn]
      exact ⟨fun hu => ⟨hp, hu⟩, fun hu => hu.2⟩
    obtain ⟨c, hc, hcount, hkept⟩ := (hheld hpath).mp hvalue
    obtain ⟨found, hfound⟩ := hall c hc hcount
    have hw := (valueIn?_foundIn hfound).mpr hkept
    refine ⟨hn ▸ IndexNode.graft_value _ _, c, hc, found, hfound, hw, ?_⟩
    rintro p q hp rfl
    obtain ⟨u, hu⟩ := IndexNode.exists_valueIn?_of_append hp hw
    rw [hu, (hheld hp).mpr ⟨c, hc, hcount, (valueIn?_foundIn hfound).mp hu⟩]

/-- An index that was made with detection has no object twice on a path. -/
theorem nodup_entered (h : m.Ready) {n : IndexNode}
    (hresult : (object { settings with detectCycles := true } store m side root).1 = .ok (some n))
    (path : List String) : (n.entered path).Nodup := by
  rw [IndexNode.entered, List.Nodup, List.pairwise_filterMap]
  refine (IndexNode.pairwise_inits path).imp ?_
  rintro p _ ⟨q, hq, rfl⟩ i hi j hj
  obtain ⟨hobject, -⟩ := IndexNode.valueAt?_of_entered hi
  obtain ⟨hobject', id, w, hchild⟩ := IndexNode.valueAt?_of_entered hj
  obtain ⟨hroot, c, hc, nodes, hfound, hw, hsame⟩ :=
    exists_walk_of_valueAt? h hresult (by simp) hchild
  have hvalue' := (hsame (p ++ q) [id] (by simp [hq]) rfl).trans hobject'
  unfold foundIn found at hfound
  obtain ⟨path', henter, hwalk⟩ := bind_eq_ok hfound
  by_cases hp : p = []
  · -- The object above is the root.
    subst hp
    rw [IndexNode.valueAt?_nil, Option.some.injEq, hroot] at hobject
    subst hobject
    obtain ⟨-, rfl⟩ := enter_detecting henter
    have hnew := not_mem_of_walk hwalk hvalue' hw
    exact fun heq => hnew (heq ▸ List.mem_cons_self)
  · have hvalue := (hsame p (q ++ [id]) hp (List.append_assoc ..)).trans hobject
    exact ne_of_walk hwalk hq hvalue hvalue' hw

/-- Detecting cycles is sound and cannot be noticed otherwise.  Where no object is reachable from
itself it reports none and changes nothing, not even the log; and on any store an index that is made
with detection is made without it too, and goes down into no object twice on a path. -/
theorem detectCycles_sound_of_compile {compiler : Compiler} {script : Script}
    (hm : (compiler.compile script).1.mapping = some m) :
    (¬store.LeadsIntoCycle root →
        object { settings with detectCycles := true } store m side root
          = object { settings with detectCycles := false } store m side root
        ∧ ¬ReportsCycle (object { settings with detectCycles := true } store m side root).1)
      ∧ ∀ found, (object { settings with detectCycles := true } store m side root).1 = .ok found →
        object { settings with detectCycles := true } store m side root
            = object { settings with detectCycles := false } store m side root
          ∧ ∀ n, found = some n → ∀ path, (n.entered path).Nodup := by
  have hready := Compiler.ready_of_compile hm
  have hoff := @not_reportsCycle store root settings m hready side
  rcases @agree_object store root settings m side with heq | ⟨hcycle, e, name, herror, hcause⟩
  · refine ⟨fun _ => ⟨heq, heq ▸ hoff⟩, fun found hresult => ⟨heq, ?_⟩⟩
    rintro n rfl path
    exact nodup_entered hready hresult path
  · refine ⟨fun hacyclic => absurd hcycle hacyclic, fun found hresult => ?_⟩
    rw [herror] at hresult
    exact absurd hresult (by simp)

end Object

/-- A store without a cycle: what a value leads to is lower by some count. -/
theorem not_leadsIntoCycle_of_rank {store : Store} {rank : Value → Nat}
    (h : ∀ v u, store.Leads v u → rank u < rank v) (root : Value) : ¬store.LeadsIntoCycle root := by
  intro hcycle
  obtain ⟨id, -, hreturn⟩ := hcycle
  have hlower : ∀ u, TransGen store.Leads (.object id) u → rank u < rank (.object id) := by
    intro u hu
    induction hu with
    | single hstep => exact h _ _ hstep
    | tail _ hstep ih => exact Nat.lt_trans (h _ _ hstep) ih
  exact Nat.lt_irrefl _ (hlower _ hreturn)

/-- A shop with the same order twice, and in it the same item twice. -/
def sharedOrders : Store where
  objects := #[⟨"Shop", [("orders", .sequence 0)]⟩, ⟨"Order", [("items", .sequence 1)]⟩,
    ⟨"Item", []⟩]
  sequences := #[[.object 1, .object 1], [.object 2, .object 2]]

/-- A shop that is one of its own orders. -/
def selfOrder : Store where
  objects := #[⟨"Shop", [("orders", .sequence 0)]⟩]
  sequences := #[[.object 0]]

/-- How far a value of the shop is above its items. -/
def shopRank : Value → Nat
  | .object id => 4 - 2 * id
  | .sequence id => 3 - 2 * id
  | _ => 0

theorem shopRank_lt (v u : Value) (h : sharedOrders.Leads v u) : shopRank u < shopRank v := by
  cases h with
  | @field id o name v found set =>
    have hmem : (name, u) ∈ o.fields := Ordered.mem_of_lookup set
    rcases id with _ | _ | _ | n
    · obtain rfl := Option.some.inj found
      obtain ⟨-, rfl⟩ : name = "orders" ∧ u = .sequence 0 := by
        simpa [sharedOrders] using hmem
      decide
    · obtain rfl := Option.some.inj found
      obtain ⟨-, rfl⟩ : name = "items" ∧ u = .sequence 1 := by
        simpa [sharedOrders] using hmem
      decide
    · obtain rfl := Option.some.inj found
      simp [sharedOrders] at hmem
    · simp [Store.object?, sharedOrders] at found
  | @item id v mem =>
    rcases id with _ | _ | n
    · obtain rfl : u = .object 1 := by simpa [Store.items, sharedOrders] using mem
      decide
    · obtain rfl : u = .object 2 := by simpa [Store.items, sharedOrders] using mem
      decide
    · simp [Store.items, sharedOrders] at mem
  | @key id key value mem => simp [Store.entries, sharedOrders] at mem
  | @value id key value mem => simp [Store.entries, sharedOrders] at mem

/-- An order that is shared is met twice and is no cycle.  An order that is the shop is one. -/
theorem detectCycles_sound_of_compile_sales :
    ¬sharedOrders.LeadsIntoCycle (.object 0)
      ∧ object {} sharedOrders salesMapping .source (.object 0)
        = object { detectCycles := false } sharedOrders salesMapping .source (.object 0)
      ∧ (∃ n, (object {} sharedOrders salesMapping .source (.object 0)).1 = .ok (some n)
        ∧ n.entered ["orders[*]", "0"] = [0, 1] ∧ n.entered ["orders[*]", "1"] = [0, 1]
        ∧ ∀ path, (n.entered path).Nodup)
      ∧ ReportsCycle (object {} selfOrder salesMapping .source (.object 0)).1 := by
  have hacyclic := not_leadsIntoCycle_of_rank shopRank_lt (.object 0)
  obtain ⟨hsame, hapart⟩ := @detectCycles_sound_of_compile {} sharedOrders salesMapping .source
    (.object 0) _ _ compile_sales
  refine ⟨hacyclic, (hsame hacyclic).1, ?_, ?_⟩
  · have hindex : ((object {} sharedOrders salesMapping .source (.object 0)).1.toOption.join.map
        fun n => (n.entered ["orders[*]", "0"], n.entered ["orders[*]", "1"]))
        = some ([0, 1], [0, 1]) := by
      decide +kernel
    obtain ⟨n, hn, hpaths⟩ := Option.map_eq_some_iff.mp hindex
    rw [Prod.mk.injEq] at hpaths
    cases hresult : (object {} sharedOrders salesMapping .source (.object 0)).1 with
    | error e => simp [hresult, Except.toOption] at hn
    | ok found =>
      obtain rfl : found = some n := by simpa [hresult, Except.toOption] using hn
      exact ⟨n, rfl, hpaths.1, hpaths.2, (hapart _ hresult).2 n rfl⟩
  · have hcause : (match (object {} selfOrder salesMapping .source (.object 0)).1 with
        | .error e => some e.cause
        | .ok _ => none) = some (.cyclicGraph "Shop") := by
      decide +kernel
    cases hresult : (object {} selfOrder salesMapping .source (.object 0)).1 with
    | ok found => simp [hresult] at hcause
    | error e =>
      rw [hresult] at hcause
      exact ⟨e, "Shop", rfl, Option.some.inj hcause⟩

end Index
end ChainMapping
