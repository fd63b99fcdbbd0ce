import ChainMapping.Log.Collector

/-!
# Buckets

A collector has a bucket for each script, found by comparing paths.  Calls about different scripts
can be made in either order: each of them leaves the buckets of the other alone, and where a new
bucket goes is a matter of its path only.  So what is in a bucket is decided by the calls about its
script: the first events that there was room for, and the number of those after.
-/

namespace ChainMapping

open Std (TransCmp OrientedCmp ReflCmp)

/-! ## The order of paths -/

/-- The text of a name, nothing for another part. -/
def PathPart.label : PathPart → String
  | name text => text
  | _ => ""

theorem PathPart.compare_eq :
    PathPart.compare = compareLex (compareOn PathPart.rank) (compareOn PathPart.label) := by
  funext a b
  cases a <;> cases b <;> simp [PathPart.compare, compareLex, compareOn, rank, label] <;> rfl

instance : TransCmp PathPart.compare := by
  rw [PathPart.compare_eq]
  infer_instance

theorem Path.compareParts_eq : Path.compareParts = List.compareLex PathPart.compare := by
  funext as bs
  induction as generalizing bs with
  | nil => cases bs <;> rfl
  | cons a as ih =>
    cases bs with
    | nil => rfl
    | cons b bs => rw [Path.compareParts, List.compareLex_cons_cons, ih]

instance : TransCmp Path.compareParts := by
  rw [Path.compareParts_eq]
  infer_instance

instance : TransCmp Path.compare where
  eq_swap {p q} := @OrientedCmp.eq_swap _ Path.compareParts _ p.parts q.parts
  isLE_trans {p q r} := @TransCmp.isLE_trans _ Path.compareParts _ p.parts q.parts r.parts

/-! ## Logs of scripts -/

/-- As many events are kept as there is room for, and the others are counted. -/
theorem ScriptLog.foldl_record (l : ScriptLog) (hkept : l.kept = l.latest.length)
    (es : List Event) :
    (es.foldl record l).events = l.events ++ es.take (Limits.logEventsPerFile - l.kept)
      ∧ (es.foldl record l).dropped
        = l.dropped + (es.length - (Limits.logEventsPerFile - l.kept)) := by
  induction es generalizing l with
  | nil => simp
  | cons e rest ih =>
    rw [List.foldl_cons]
    by_cases hroom : l.kept < Limits.logEventsPerFile
    · have hrecord : l.record e = { l with latest := e :: l.latest, kept := l.kept + 1 } :=
        if_pos hroom
      obtain ⟨hevents, hdropped⟩ := ih (l.record e) (by rw [hrecord, List.length_cons, hkept])
      obtain ⟨room, hmore⟩ : ∃ room, Limits.logEventsPerFile - l.kept = room + 1 :=
        ⟨Limits.logEventsPerFile - l.kept - 1, by omega⟩
      have hless : Limits.logEventsPerFile - (l.kept + 1) = room := by omega
      rw [hevents, hdropped, hrecord, hless, hmore, List.take_succ_cons, List.length_cons,
        Nat.add_sub_add_right]
      simp [events]
    · have hrecord : l.record e = { l with dropped := l.dropped + 1 } := if_neg hroom
      have hfull : Limits.logEventsPerFile - l.kept = 0 := by omega
      obtain ⟨hevents, hdropped⟩ := ih (l.record e) (by rw [hrecord, hkept])
      rw [hevents, hdropped, hrecord, hfull, List.take_zero, List.take_zero, List.length_cons]
      refine ⟨rfl, ?_⟩
      show l.dropped + 1 + (rest.length - 0) = l.dropped + (rest.length + 1 - 0)
      omega

namespace Collector

/-! ## Two scripts -/

variable {p q : Path}

theorem update_comm_of_lt (hlt : p.compare q = .lt) (f g : ScriptLog → ScriptLog)
    (logs : List (Path × ScriptLog)) :
    update p f (update q g logs) = update q g (update p f logs) := by
  have hgt : q.compare p = .gt := OrientedCmp.gt_of_lt hlt
  -- Both pass the buckets below `p`.  At the first other one `p` has its place, and `q`, which is
  -- behind it, goes on alone.
  induction logs with
  | nil => simp [update, hlt, hgt]
  | cons entry rest ih =>
    obtain ⟨x, l⟩ := entry
    cases hp : p.compare x with
    | lt => cases hq : q.compare x <;> simp [update, hp, hq, hlt, hgt]
    | eq =>
      have hq : q.compare x = .gt := by
        rw [← TransCmp.congr_right hp]
        exact hgt
      simp [update, hp, hq]
    | gt =>
      have hq : q.compare x = .gt := by
        have hx : x.compare p = .lt := OrientedCmp.lt_of_gt hp
        exact OrientedCmp.gt_of_lt (TransCmp.lt_trans hx hlt)
      simp [update, hp, hq, ih]

/-- What is done to the buckets of different scripts can be done in either order. -/
theorem update_comm (hne : p.compare q ≠ .eq) (f g : ScriptLog → ScriptLog)
    (logs : List (Path × ScriptLog)) :
    update p f (update q g logs) = update q g (update p f logs) := by
  cases hpq : p.compare q with
  | lt => exact update_comm_of_lt hpq f g logs
  | eq => exact absurd hpq hne
  | gt => exact (update_comm_of_lt (OrientedCmp.lt_of_gt hpq) g f logs).symm

/-! ## Calls -/

/-- A call that files something under a script. -/
inductive Call where
  | script (file : Path)
  | event (file : Path) (event : Event)

namespace Call

def file : Call → Path
  | script file => file
  | event file _ => file

def change : Call → ScriptLog → ScriptLog
  | script _ => id
  | event _ e => fun l => l.record e

end Call

def apply (c : Collector) : Call → Collector
  | .script file => c.recordFile file
  | .event file e => c.recordEvent file e

def after (c : Collector) (calls : List Call) : Collector := calls.foldl apply c

theorem apply_eq (c : Collector) (call : Call) :
    c.apply call = ⟨update call.file call.change c.scripts⟩ := by
  cases call <;> rfl

theorem after_append (c : Collector) (calls more : List Call) :
    c.after (calls ++ more) = (c.after calls).after more := List.foldl_append

theorem apply_comm (c : Collector) {a b : Call} (hne : a.file.compare b.file ≠ .eq) :
    (c.apply a).apply b = (c.apply b).apply a := by
  simp only [apply_eq]
  rw [update_comm hne]

/-- A call can be made before others that are about other scripts. -/
theorem after_cons_of_apart (c : Collector) {a : Call} {calls : List Call}
    (hapart : ∀ b ∈ calls, b.file.compare a.file ≠ .eq) :
    (c.apply a).after calls = (c.after calls).apply a := by
  induction calls generalizing c with
  | nil => rfl
  | cons b rest ih =>
    have hb := hapart b List.mem_cons_self
    show ((c.apply a).apply b).after rest = ((c.apply b).after rest).apply a
    rw [← apply_comm c hb]
    exact ih (c.apply b) fun b' hmem => hapart b' (List.mem_cons_of_mem _ hmem)

/-! ## One script -/

/-- The bucket of a script. -/
def bucket? (file : Path) (logs : List (Path × ScriptLog)) : Option ScriptLog :=
  (logs.find? fun (other, _) => file.compare other == .eq).map Prod.snd

def log? (c : Collector) (file : Path) : Option ScriptLog := bucket? file c.scripts

theorem eventsOf_eq (c : Collector) (file : Path) :
    c.eventsOf file = ((c.log? file).map ScriptLog.events).getD [] := by
  unfold eventsOf log? bucket?
  cases c.scripts.find? fun (other, _) => file.compare other == .eq <;> rfl

theorem bucket?_cons (file other : Path) (l : ScriptLog) (rest : List (Path × ScriptLog)) :
    bucket? file ((other, l) :: rest)
      = if file.compare other = .eq then some l else bucket? file rest := by
  unfold bucket?
  by_cases h : file.compare other = .eq
  · simp [h]
  · simp [h]

/-- Buckets are in the order of their paths, so there is one for each script at most. -/
def Sorted (c : Collector) : Prop :=
  c.scripts.Pairwise fun a b => a.1.compare b.1 = .lt

theorem sorted_empty : ({} : Collector).Sorted := List.Pairwise.nil

theorem update_lower {x : Path} {f : ScriptLog → ScriptLog} {logs : List (Path × ScriptLog)}
    (hx : x.compare p = .lt) (hlogs : ∀ entry ∈ logs, x.compare entry.1 = .lt) :
    ∀ entry ∈ update p f logs, x.compare entry.1 = .lt := by
  induction logs with
  | nil => simpa [update] using hx
  | cons first rest ih =>
    obtain ⟨y, l⟩ := first
    have hrest := fun entry (hmem : entry ∈ rest) => hlogs entry (List.mem_cons_of_mem _ hmem)
    have hfirst := hlogs (y, l) List.mem_cons_self
    unfold update
    split
    · exact List.forall_mem_cons.mpr ⟨hfirst, hrest⟩
    · exact List.forall_mem_cons.mpr ⟨hx, hlogs⟩
    · exact List.forall_mem_cons.mpr ⟨hfirst, ih hrest⟩

theorem sorted_update (f : ScriptLog → ScriptLog) {logs : List (Path × ScriptLog)}
    (h : logs.Pairwise fun a b => a.1.compare b.1 = .lt) :
    (update p f logs).Pairwise fun a b => a.1.compare b.1 = .lt := by
  induction logs with
  | nil => exact List.pairwise_singleton _ _
  | cons first rest ih =>
    obtain ⟨y, l⟩ := first
    obtain ⟨hfirst, hrest⟩ := List.pairwise_cons.mp h
    unfold update
    split
    next => exact List.pairwise_cons.mpr ⟨hfirst, hrest⟩
    next hlt =>
      refine List.pairwise_cons.mpr ⟨?_, h⟩
      have hlower := fun entry (hmem : entry ∈ rest) => TransCmp.lt_trans hlt (hfirst entry hmem)
      exact List.forall_mem_cons.mpr ⟨hlt, hlower⟩
    next hgt =>
      exact List.pairwise_cons.mpr ⟨update_lower (OrientedCmp.lt_of_gt hgt) hfirst, ih hrest⟩

theorem Sorted.apply {c : Collector} (h : c.Sorted) (call : Call) : (c.apply call).Sorted := by
  rw [apply_eq]
  exact sorted_update _ h

theorem bucket?_eq_none {file : Path} {logs : List (Path × ScriptLog)}
    (hlower : ∀ entry ∈ logs, file.compare entry.1 = .lt) : bucket? file logs = none := by
  refine Option.map_eq_none_iff.mpr (List.find?_eq_none.mpr fun entry hmem heq => ?_)
  simp only [hlower entry hmem] at heq
  cases heq

theorem bucket?_update (f : ScriptLog → ScriptLog) {logs : List (Path × ScriptLog)}
    (h : logs.Pairwise fun a b => a.1.compare b.1 = .lt) :
    bucket? p (update q f logs)
      = if p.compare q = .eq then some (f ((bucket? p logs).getD {})) else bucket? p logs := by
  induction logs with
  | nil =>
    rw [update, bucket?_cons]
    rfl
  | cons first rest ih =>
    obtain ⟨y, l⟩ := first
    obtain ⟨hfirst, hrest⟩ := List.pairwise_cons.mp h
    unfold update
    split
    next hq =>
      have hsame : p.compare q = p.compare y := TransCmp.congr_right hq
      by_cases hpy : p.compare y = .eq
      · simp [bucket?_cons, hsame, hpy]
      · simp [bucket?_cons, hsame, hpy]
    next hlt =>
      by_cases hpq : p.compare q = .eq
      · -- All buckets are above the new one, so there was none of its own.
        have hnone : bucket? p ((y, l) :: rest) = none := by
          refine bucket?_eq_none fun entry hmem => ?_
          rw [TransCmp.congr_left hpq]
          rcases List.mem_cons.mp hmem with rfl | hmem
          · exact hlt
          · exact TransCmp.lt_trans hlt (hfirst entry hmem)
        rw [hnone, bucket?_cons, if_pos hpq, if_pos hpq]
        rfl
      · rw [bucket?_cons p q, if_neg hpq, if_neg hpq]
    next hgt =>
      by_cases hpy : p.compare y = .eq
      · have hpq : p.compare q ≠ .eq := by
          intro hpq
          rw [← TransCmp.congr_left hpq, hpy] at hgt
          cases hgt
        simp [bucket?_cons, hpy, hpq]
      · simp only [bucket?_cons p y, if_neg hpy]
        exact ih hrest

theorem Sorted.log?_apply {c : Collector} (h : c.Sorted) (call : Call) (file : Path) :
    (c.apply call).log? file
      = if file.compare call.file = .eq then some (call.change ((c.log? file).getD {}))
        else c.log? file := by
  rw [apply_eq]
  exact bucket?_update _ h

/-- The events that calls file under a script, in order. -/
def filed (file : Path) (calls : List Call) : List Event :=
  calls.filterMap fun
    | .event other e => if file.compare other = .eq then some e else none
    | .script _ => none

def concern (file : Path) (calls : List Call) : Bool :=
  calls.any fun call => file.compare call.file == .eq

theorem filed_append (file : Path) (calls more : List Call) :
    filed file (calls ++ more) = filed file calls ++ filed file more := List.filterMap_append

/-- Calls about other scripts file nothing under a script. -/
theorem filed_eq_nil {file : Path} {calls : List Call}
    (hother : ∀ call ∈ calls, file.compare call.file ≠ .eq) : filed file calls = [] := by
  refine List.filterMap_eq_nil_iff.mpr fun call hmem => ?_
  have hne := hother call hmem
  cases call with
  | script other => rfl
  | event other e => exact if_neg hne

/-- The bucket of a script has the events that were filed under it, and nothing else. -/
theorem Sorted.log?_after {c : Collector} (h : c.Sorted) (calls : List Call) (file : Path) :
    (c.after calls).log? file
      = if concern file calls then
          some ((filed file calls).foldl ScriptLog.record ((c.log? file).getD {}))
        else c.log? file := by
  induction calls generalizing c with
  | nil => rfl
  | cons call rest ih =>
    show ((c.apply call).after rest).log? file = _
    rw [ih (h.apply call), h.log?_apply call file]
    have hconcern : concern file (call :: rest)
        = (file.compare call.file == .eq || concern file rest) := rfl
    rw [hconcern]
    by_cases hhere : file.compare call.file = .eq
    · have hfiled : (filed file (call :: rest)).foldl ScriptLog.record ((c.log? file).getD {})
          = (filed file rest).foldl ScriptLog.record (call.change ((c.log? file).getD {})) := by
        cases call with
        | script other => rfl
        | event other e =>
          have hhere' : file.compare other = .eq := hhere
          simp [filed, hhere', Call.change]
      rw [if_pos hhere, hfiled, Option.getD_some, hhere]
      cases hrest : concern file rest with
      | true => rfl
      | false =>
        have hother := fun a ha => by simpa using List.any_eq_false.mp hrest a ha
        rw [filed_eq_nil hother]
        rfl
    · have hfiled : filed file (call :: rest) = filed file rest := by
        have hcall : filed file [call] = [] := filed_eq_nil (by simpa using hhere)
        rw [← List.singleton_append, filed_append, hcall, List.nil_append]
      have hfalse : (file.compare call.file == .eq) = false := by simpa using hhere
      rw [if_neg hhere, hfiled, hfalse, Bool.false_or]

/-- Of the events that are filed under a script, the first 500 are kept. -/
theorem log?_after_empty {calls : List Call} {file : Path} (hconcern : concern file calls = true) :
    ∃ l, (({} : Collector).after calls).log? file = some l
      ∧ l.events = (filed file calls).take Limits.logEventsPerFile
      ∧ l.events.length + l.dropped = (filed file calls).length := by
  have hlog := sorted_empty.log?_after calls file
  rw [if_pos hconcern] at hlog
  refine ⟨_, hlog, ?_⟩
  obtain ⟨hevents, hdropped⟩ := ScriptLog.foldl_record {} rfl (filed file calls)
  have hevents' : ((filed file calls).foldl ScriptLog.record {}).events
      = (filed file calls).take Limits.logEventsPerFile := hevents
  have hdropped' : ((filed file calls).foldl ScriptLog.record {}).dropped
      = (filed file calls).length - Limits.logEventsPerFile := by
    simpa using hdropped
  refine ⟨hevents', ?_⟩
  show ((filed file calls).foldl ScriptLog.record {}).events.length
    + ((filed file calls).foldl ScriptLog.record {}).dropped = _
  rw [hevents', hdropped', List.length_take]
  omega

end Collector
end ChainMapping
