import ChainMapping.Proofs.Batch.Agreement
import ChainMapping.Proofs.Log.Buckets

/-!
# Workers that take turns

Workers file what they log in one collector, and each of them knows the script that it is at work on
itself.  Nothing is said about whose turn it is.  Whatever turn is taken, the calls that are left,
those of one worker after those of another, lead to the same collector as before it, as long as no
two workers are about the same script.  So when all workers are done the collector is that of a run
in which they came one after the other.
-/

namespace ChainMapping

open Std (OrientedCmp ReflCmp)

/-! ## The calls of a log -/

namespace Journal

/-- The call that an action makes on the collector. -/
def call? (j : Journal) : LogAction → Option Collector.Call
  | .enter file _ => some (.script file)
  | .record e =>
    match j.scopes.head? with
    | some (file, _) =>
      if (j.decorate e).isError || (j.decorate e).isWarning then
        some (.event file (j.decorate e))
      else none
    | none => none
  | _ => none

/-- The calls that a log makes on the collector, in order. -/
def calls (j : Journal) : List LogAction → List Collector.Call
  | [] => []
  | action :: rest => (j.call? action).toList ++ (j.act action).calls rest

theorem collector_act (j : Journal) (action : LogAction) :
    (j.act action).collector = j.collector.after (j.call? action).toList := by
  cases action with
  | enter file id => rfl
  | leave => rfl
  | announce line => rfl
  | record e =>
    simp only [act, record, call?]
    cases j.scopes.head? with
    | none => rfl
    | some scope =>
      simp only
      split <;> rfl

theorem collector_run (j : Journal) (log : List LogAction) :
    (j.run log).collector = j.collector.after (j.calls log) := by
  induction log generalizing j with
  | nil => rfl
  | cons action rest ih =>
    rw [calls, Collector.after_append, ← collector_act]
    exact ih (j.act action)

theorem calls_append (j : Journal) (log more : List LogAction) :
    j.calls (log ++ more) = j.calls log ++ (j.run log).calls more := by
  induction log generalizing j with
  | nil => rfl
  | cons action rest ih =>
    rw [List.cons_append, calls, calls, ih (j.act action), List.append_assoc]
    rfl

/-- What is called depends on the settings and on the script at work only. -/
theorem calls_congr (j k : Journal) (hsettings : j.settings = k.settings)
    (hscopes : j.scopes = k.scopes) (log : List LogAction) : j.calls log = k.calls log := by
  induction log generalizing j k with
  | nil => rfl
  | cons action rest ih =>
    have hcall : j.call? action = k.call? action := by
      cases action <;> simp [call?, decorate, hsettings, hscopes]
    have hrest : (j.act action).calls rest = (k.act action).calls rest := by
      cases action with
      | record e => exact ih (j.record e) (k.record e) hsettings hscopes
      | announce line => exact ih j k hsettings hscopes
      | enter file id => exact ih _ _ hsettings (congrArg ((file, id) :: ·) hscopes)
      | leave => exact ih _ _ hsettings (congrArg List.tail hscopes)
    rw [calls, calls, hcall, hrest]

theorem settings_run (j : Journal) (log : List LogAction) : (j.run log).settings = j.settings := by
  induction log generalizing j with
  | nil => rfl
  | cons action rest ih =>
    have hact : (j.act action).settings = j.settings := by cases action <;> rfl
    exact (ih (j.act action)).trans hact

/-- A log that leaves the scripts it enters. -/
def Balanced (log : List LogAction) : Prop := ∀ j : Journal, (j.run log).scopes = j.scopes

theorem Balanced.append {log more : List LogAction} (hlog : Balanced log) (hmore : Balanced more) :
    Balanced (log ++ more) := by
  intro j
  rw [run, List.foldl_append]
  exact (hmore (j.run log)).trans (hlog j)

theorem balanced_records (events : List Event) : Balanced (events.map .record) := by
  induction events with
  | nil => exact fun _ => rfl
  | cons e rest ih => exact fun j => ih (j.record e)

theorem Balanced.scope {log : List LogAction} (h : Balanced log) (file : Path) (id : Nat) :
    Balanced ([.enter file id] ++ log ++ [.leave]) := by
  intro j
  rw [run, List.foldl_append, List.foldl_append]
  exact congrArg List.tail (h (j.act (.enter file id)))

/-- A call is about a script that was at work before the log, or that the log enters. -/
theorem file_of_mem_calls {j : Journal} {log : List LogAction} {call : Collector.Call}
    (h : call ∈ j.calls log) :
    call.file ∈ j.scopes.map Prod.fst ∨ call.file ∈ (Batch.visits log).map Prod.fst := by
  induction log generalizing j with
  | nil => cases h
  | cons action rest ih =>
    rcases List.mem_append.mp h with here | there
    · rw [Option.mem_toList] at here
      cases action with
      | enter file id =>
        obtain rfl : Collector.Call.script file = call := Option.some.inj here
        exact .inr (List.mem_map_of_mem (List.mem_cons_self))
      | leave => cases here
      | announce line => cases here
      | record e =>
        simp only [call?] at here
        cases hscopes : j.scopes with
        | nil => simp [hscopes] at here
        | cons scope outer =>
          simp only [hscopes, List.head?_cons, Option.ite_none_right_eq_some,
            Option.some.injEq] at here
          obtain ⟨-, rfl⟩ := here
          exact .inl List.mem_cons_self
    · have hrest := ih there
      cases action with
      | enter file id =>
        rcases hrest with hscope | hvisit
        · rcases List.mem_cons.mp hscope with rfl | hscope
          · exact .inr List.mem_cons_self
          · exact .inl hscope
        · exact .inr (List.mem_cons_of_mem _ hvisit)
      | leave =>
        refine hrest.imp (fun hscope => ?_) id
        exact List.map_subset _ (List.tail_sublist j.scopes).subset hscope
      | announce line => exact hrest
      | record e => exact hrest

theorem script_mem_calls {log : List LogAction} {s : Path × Nat} (h : s ∈ Batch.visits log)
    (j : Journal) : .script s.1 ∈ j.calls log := by
  induction log generalizing j with
  | nil => cases h
  | cons action rest ih =>
    have hlater (hs : s ∈ Batch.visits rest) : .script s.1 ∈ j.calls (action :: rest) :=
      List.mem_append_right _ (ih hs (j.act action))
    cases action with
    | enter file id =>
      rcases List.mem_cons.mp h with rfl | h
      · exact List.mem_cons_self
      · exact hlater h
    | leave => exact hlater h
    | announce line => exact hlater h
    | record e => exact hlater h

end Journal

/-! ## Turns -/

/-- A worker, with the scripts it is at work on, innermost first, and what it has yet to log. -/
structure Worker where
  scopes : List (Path × Nat) := []
  pending : List LogAction

/-- Workers that log into one collector. -/
structure Crew where
  settings : LoggingSettings
  collector : Collector := {}
  workers : List Worker

namespace Crew

/-- Workers that have not begun. -/
def starting (settings : LoggingSettings) (collector : Collector)
    (logs : List (List LogAction)) : Crew :=
  { settings, collector, workers := logs.map fun log => { pending := log } }

def journal (crew : Crew) (w : Worker) : Journal :=
  { settings := crew.settings, collector := crew.collector, scopes := w.scopes }

/-- One worker logs the next thing, if there is anything left. -/
def turn (crew : Crew) (i : Nat) : Crew :=
  match crew.workers[i]? with
  | some { scopes, pending := action :: rest } =>
    let j := (crew.journal { scopes, pending := action :: rest }).act action
    { crew with
      collector := j.collector
      workers := crew.workers.set i { scopes := j.scopes, pending := rest } }
  | _ => crew

def run (crew : Crew) (turns : List Nat) : Crew := turns.foldl turn crew

def Finished (crew : Crew) : Prop := ∀ w ∈ crew.workers, w.pending = []

/-- The calls that a worker is yet to make. -/
def callsOf (settings : LoggingSettings) (w : Worker) : List Collector.Call :=
  ({ settings, scopes := w.scopes } : Journal).calls w.pending

/-- The calls left, worker by worker. -/
def callsLeft (crew : Crew) : List Collector.Call := crew.workers.flatMap (callsOf crew.settings)

/-- No two workers are about the same script. -/
def Apart (crew : Crew) : Prop :=
  crew.workers.Pairwise fun w v => ∀ a ∈ callsOf crew.settings w, ∀ b ∈ callsOf crew.settings v,
    a.file.compare b.file ≠ .eq

/-- A turn is taken by a worker that makes its next call, if it makes one, or by nobody. -/
theorem turn_cases (crew : Crew) (i : Nat) :
    crew.turn i = crew
      ∨ ∃ before w after w' made,
        crew.workers = before ++ w :: after
          ∧ crew.turn i = { crew with
            collector := crew.collector.after made, workers := before ++ w' :: after }
          ∧ made.length ≤ 1
          ∧ callsOf crew.settings w = made ++ callsOf crew.settings w' := by
  cases hw : crew.workers[i]? with
  | none => exact .inl (by simp only [turn, hw])
  | some w =>
    obtain ⟨scopes, pending⟩ := w
    cases pending with
    | nil => exact .inl (by simp only [turn, hw])
    | cons action rest =>
      right
      obtain ⟨hi, hget⟩ := List.getElem?_eq_some_iff.mp hw
      -- What the worker goes on to call depends on its scopes, and not on what others have filed.
      let j := crew.journal { scopes, pending := action :: rest }
      let w' : Worker := { scopes := (j.act action).scopes, pending := rest }
      obtain ⟨before, after, hworkers, -, hset⟩ :
          ∃ before after, crew.workers = before ++ crew.workers[i] :: after
            ∧ before.length = i ∧ crew.workers.set i w' = before ++ w' :: after :=
        List.exists_of_set hi
      rw [hget] at hworkers
      refine ⟨before, _, after, w', (j.call? action).toList, hworkers, ?_, ?_, ?_⟩
      · have hcollector : crew.collector.after (j.call? action).toList
            = (j.act action).collector := (j.collector_act action).symm
        simp only [turn, hw]
        rw [← hset, hcollector]
      · cases j.call? action <;> simp
      · have hsettings : (j.act action).settings = crew.settings := j.settings_run [action]
        have hhere : callsOf crew.settings ⟨scopes, action :: rest⟩ = j.calls (action :: rest) :=
          Journal.calls_congr { settings := crew.settings, scopes } j rfl rfl _
        have hrest : (j.act action).calls rest = callsOf crew.settings w' :=
          Journal.calls_congr (j.act action)
            { settings := crew.settings, scopes := w'.scopes } hsettings rfl rest
        rw [hhere, Journal.calls, hrest]

theorem Apart.turn {crew : Crew} (h : crew.Apart) (i : Nat) :
    (crew.turn i).Apart
      ∧ (crew.turn i).collector.after (crew.turn i).callsLeft
        = crew.collector.after crew.callsLeft := by
  rcases crew.turn_cases i with hnobody | ⟨before, w, after, w', made, hw, hturn, hone, hcalls⟩
  · rw [hnobody]
    exact ⟨h, rfl⟩
  have hfewer {a} (ha : a ∈ callsOf crew.settings w') : a ∈ callsOf crew.settings w := by
    rw [hcalls]
    exact List.mem_append_right _ ha
  rw [Apart, hw, List.pairwise_append, List.pairwise_cons] at h
  obtain ⟨hbefore, ⟨hwafter, hafter⟩, hacross⟩ := h
  rw [hturn]
  constructor
  · rw [Apart, List.pairwise_append, List.pairwise_cons]
    refine ⟨hbefore, ⟨fun v hv a ha => hwafter v hv a (hfewer ha), hafter⟩, fun u hu v hv => ?_⟩
    rcases List.mem_cons.mp hv with rfl | hv
    · exact fun a ha b hb => hacross u hu w List.mem_cons_self a ha b (hfewer hb)
    · exact hacross u hu v (List.mem_cons_of_mem _ hv)
  · -- The call was made ahead of the calls of the workers before this one.
    have hahead : (crew.collector.after made).after (before.flatMap (callsOf crew.settings))
        = (crew.collector.after (before.flatMap (callsOf crew.settings))).after made := by
      match made, hone with
      | [], _ => rfl
      | [call], _ =>
        refine Collector.after_cons_of_apart crew.collector fun b hb => ?_
        obtain ⟨u, hu, hb⟩ := List.mem_flatMap.mp hb
        exact hacross u hu w List.mem_cons_self b hb call (by rw [hcalls]; exact List.mem_cons_self)
    simp only [callsLeft, hw, List.flatMap_append, List.flatMap_cons, hcalls,
      Collector.after_append, hahead]

theorem Apart.run {crew : Crew} (h : crew.Apart) (turns : List Nat) :
    (crew.run turns).collector.after (crew.run turns).callsLeft
      = crew.collector.after crew.callsLeft := by
  induction turns generalizing crew with
  | nil => rfl
  | cons i rest ih =>
    obtain ⟨hapart, hsame⟩ := h.turn i
    exact (ih hapart).trans hsame

theorem Finished.callsLeft_eq {crew : Crew} (h : crew.Finished) : crew.callsLeft = [] := by
  refine List.flatMap_eq_nil_iff.mpr fun w hw => ?_
  rw [callsOf, h w hw]
  rfl

/-! ## Logs of workers -/

variable {settings : LoggingSettings} {logs : List (List LogAction)}

def logCalls (settings : LoggingSettings) (log : List LogAction) : List Collector.Call :=
  ({ settings } : Journal).calls log

/-- No two logs enter the same script. -/
def Disjoint (logs : List (List LogAction)) : Prop :=
  logs.Pairwise fun log other => ∀ s ∈ Batch.visits log, ∀ t ∈ Batch.visits other,
    s.1.compare t.1 ≠ .eq

theorem exists_visit_of_mem {log : List LogAction} {call : Collector.Call}
    (h : call ∈ logCalls settings log) : ∃ s ∈ Batch.visits log, s.1 = call.file := by
  rcases Journal.file_of_mem_calls h with hscope | hvisit
  · cases hscope
  · exact List.mem_map.mp hvisit

theorem callsLeft_starting (settings : LoggingSettings) (c : Collector)
    (logs : List (List LogAction)) :
    (starting settings c logs).callsLeft = logs.flatMap (logCalls settings) := by
  rw [callsLeft, starting, List.flatMap_map]
  rfl

theorem Disjoint.apart (h : Disjoint logs) (settings : LoggingSettings) (c : Collector) :
    (starting settings c logs).Apart := by
  refine List.pairwise_map.mpr (h.imp fun hvisits a ha b hb => ?_)
  obtain ⟨s, hs, hfile⟩ := exists_visit_of_mem ha
  obtain ⟨t, ht, hfile'⟩ := exists_visit_of_mem hb
  rw [← hfile, ← hfile']
  exact hvisits s hs t ht

/-- One log after the other makes the calls of one log after those of the other, if each of them
leaves what it enters. -/
theorem calls_flatten {j : Journal} (hscopes : j.scopes = [])
    (hbalanced : ∀ log ∈ logs, Journal.Balanced log) :
    j.calls logs.flatten = logs.flatMap (logCalls j.settings) := by
  induction logs generalizing j with
  | nil => rfl
  | cons log rest ih =>
    obtain ⟨hlog, hrest⟩ := List.forall_mem_cons.mp hbalanced
    have hhere : j.calls log = logCalls j.settings log :=
      Journal.calls_congr j { settings := j.settings } rfl hscopes log
    rw [List.flatten_cons, Journal.calls_append, hhere, ih ((hlog j).trans hscopes) hrest,
      j.settings_run log, List.flatMap_cons]

/-- Workers with scripts of their own leave the collector of a run in which they came one after the
other. -/
theorem collector_of_turns {j : Journal} (hscopes : j.scopes = [])
    (hbalanced : ∀ log ∈ logs, Journal.Balanced log) (hdisjoint : Disjoint logs) {turns : List Nat}
    (hdone : ((starting j.settings j.collector logs).run turns).Finished) :
    ((starting j.settings j.collector logs).run turns).collector
      = (j.run logs.flatten).collector := by
  have hsame := (hdisjoint.apart j.settings j.collector).run turns
  rw [hdone.callsLeft_eq, callsLeft_starting] at hsame
  rw [j.collector_run, calls_flatten hscopes hbalanced]
  exact hsame

/-- Nobody but its worker files anything under a script. -/
theorem filed_flatMap (hdisjoint : Disjoint logs) {log : List LogAction} (hlog : log ∈ logs)
    {s : Path × Nat} (hs : s ∈ Batch.visits log) :
    Collector.filed s.1 (logs.flatMap (logCalls settings))
      = Collector.filed s.1 (logCalls settings log) := by
  have hothers {others : List (List LogAction)}
      (hvisits : ∀ other ∈ others, ∀ t ∈ Batch.visits other, s.1.compare t.1 ≠ .eq) :
      Collector.filed s.1 (others.flatMap (logCalls settings)) = [] := by
    refine Collector.filed_eq_nil fun call hcall => ?_
    obtain ⟨other, hmem, hcall⟩ := List.mem_flatMap.mp hcall
    obtain ⟨t, ht, hfile⟩ := exists_visit_of_mem hcall
    rw [← hfile]
    exact hvisits other hmem t ht
  obtain ⟨before, after, rfl⟩ := List.append_of_mem hlog
  rw [Disjoint, List.pairwise_append, List.pairwise_cons] at hdisjoint
  obtain ⟨-, ⟨hafter, -⟩, hbefore⟩ := hdisjoint
  -- The workers before this one and those after it have filed nothing here.
  have hnone := hothers fun other hmem t ht heq =>
    hbefore other hmem log List.mem_cons_self t ht s hs (OrientedCmp.eq_symm heq)
  rw [List.flatMap_append, List.flatMap_cons, Collector.filed_append, Collector.filed_append,
    hnone, hothers fun other hmem t ht => hafter other hmem s hs t ht, List.append_nil,
    List.nil_append]

/-- The diagnostics of workers with scripts of their own do not depend on whose turn it was: the
buckets, the totals and the report are those of a run in which the workers came one after the other.
The events of a script are the first 500 of those that were filed under it, in the order of its
worker, and the others are counted. -/
theorem diagnostics_of_turns (hbalanced : ∀ log ∈ logs, Journal.Balanced log)
    (hdisjoint : Disjoint logs) (earlier : List Collector.Call) {turns : List Nat}
    (hdone : ((starting settings (({} : Collector).after earlier) logs).run turns).Finished) :
    let left := ((starting settings (({} : Collector).after earlier) logs).run turns).collector
    let inOrder := (({ settings, collector := ({} : Collector).after earlier } : Journal).run
      logs.flatten).collector
    (left = inOrder ∧ left.totals = inOrder.totals ∧ left.render = inOrder.render)
      ∧ ∀ log ∈ logs, ∀ s ∈ Batch.visits log, ∃ l,
        left.log? s.1 = some l ∧ left.eventsOf s.1 = l.events
          ∧ l.events
            = (Collector.filed s.1 (earlier ++ logCalls settings log)).take Limits.logEventsPerFile
          ∧ l.events.length + l.dropped
            = (Collector.filed s.1 (earlier ++ logCalls settings log)).length := by
  intro left inOrder
  let j : Journal := { settings, collector := ({} : Collector).after earlier }
  have hleft : left = inOrder := collector_of_turns (j := j) rfl hbalanced hdisjoint hdone
  have hcalls : inOrder = ({} : Collector).after (earlier ++ logs.flatMap (logCalls settings)) := by
    rw [Collector.after_append, ← calls_flatten (j := j) rfl hbalanced]
    exact j.collector_run logs.flatten
  refine ⟨⟨hleft, congrArg _ hleft, congrArg _ hleft⟩, fun log hlog s hs => ?_⟩
  have hconcern : Collector.concern s.1 (earlier ++ logs.flatMap (logCalls settings)) = true := by
    have hcall : Collector.Call.script s.1 ∈ logs.flatMap (logCalls settings) :=
      List.mem_flatMap.mpr ⟨log, hlog, Journal.script_mem_calls hs _⟩
    have hsame : (s.1.compare s.1 == .eq) = true := by simp [ReflCmp.compare_self]
    exact List.any_eq_true.mpr ⟨_, List.mem_append_right earlier hcall, hsame⟩
  have hfiled : Collector.filed s.1 (earlier ++ logs.flatMap (logCalls settings))
      = Collector.filed s.1 (earlier ++ logCalls settings log) := by
    rw [Collector.filed_append, filed_flatMap hdisjoint hlog hs, ← Collector.filed_append]
  obtain ⟨l, hbucket, hevents, hcount⟩ := Collector.log?_after_empty hconcern
  rw [← hcalls, ← hleft] at hbucket
  rw [hfiled] at hevents hcount
  exact ⟨l, hbucket, by rw [Collector.eventsOf_eq, hbucket]; rfl, hevents, hcount⟩

/-- The logs of two workers, with an error and with a warning. -/
def twoLogs : List (List LogAction) :=
  [[.enter ⟨"b.otc.toml"⟩ 0, .record (.error .fileNotFound "gone"), .leave],
    [.enter ⟨"a.otc.toml"⟩ 1, .record (.warning "odd"), .record (.info "fine"), .leave]]

theorem diagnostics_of_turns_two :
    let left := ((starting {} {} twoLogs).run [1, 0, 0, 1, 1, 0, 1]).collector
    left = (({ settings := {} } : Journal).run twoLogs.flatten).collector
      ∧ left.scripts.map (fun (path, l) => (path.text, l.events.map (·.message)))
        = [("a.otc.toml", ["odd"]), ("b.otc.toml", ["gone"])]
      ∧ ∃ l, left.log? ⟨"a.otc.toml"⟩ = some l ∧ l.events.length + l.dropped = 1 := by
  have hbalanced : ∀ log ∈ twoLogs, Journal.Balanced log := by
    simp only [twoLogs, List.forall_mem_cons]
    exact ⟨fun _ => rfl, fun _ => rfl, fun _ hmem => by cases hmem⟩
  have hdisjoint : Disjoint twoLogs := by
    unfold Disjoint
    decide +kernel
  have hdone : ((starting {} {} twoLogs).run [1, 0, 0, 1, 1, 0, 1]).Finished := by
    unfold Finished
    decide +kernel
  obtain ⟨⟨hsame, -, -⟩, hbuckets⟩ := diagnostics_of_turns hbalanced hdisjoint [] hdone
  obtain ⟨l, hlog, -, -, hcount⟩ :=
    hbuckets _ (List.mem_cons_of_mem _ List.mem_cons_self) (⟨"a.otc.toml"⟩, 1) List.mem_cons_self
  refine ⟨hsame, by decide +kernel, l, hlog, ?_⟩
  rw [hcount]
  decide +kernel

end Crew

/-! ## The workers of a batch -/

namespace Batch

theorem balanced_compileScript (c : Compiler) (id : Nat) (script : FoundScript)
    (elapsed : Elapsed) : Journal.Balanced (compileScript c id script elapsed).2.1 := by
  unfold compileScript Compiler.compileFile
  cases readScriptFile script.path (some (.file script.content)) with
  | mk read log => cases read <;> exact (Journal.balanced_records _).scope script.path id

theorem balanced_compileInOrder (options : BatchOptions) (total : Nat) (elapsed : Elapsed)
    (c : Compiler) (id : Nat) (scripts : List FoundScript) :
    Journal.Balanced (compileInOrder options total elapsed c id scripts).2 := by
  induction scripts generalizing c id with
  | nil => exact fun _ => rfl
  | cons script rest ih =>
    have hprogress : Journal.Balanced (if options.progress then
        [LogAction.announce s!"Compiling file {id + 1} of {total}: {script.path.text}"]
        else []) := by
      split <;> exact fun _ => rfl
    have hscript := hprogress.append (balanced_compileScript c id script elapsed)
    simp only [compileInOrder]
    split
    · exact hscript.append (Journal.balanced_records [stopEvent])
    · exact hscript.append (ih _ _)

/-- What the workers of a chunk log, each on its own. -/
def workerLogs (elapsed : Elapsed) (c : Compiler) (first share worker : Nat) :
    List (List FoundScript) → List (List LogAction)
  | [] => []
  | slice :: rest =>
    (work elapsed c.fresh (first + worker * share) slice).2
      :: workerLogs elapsed c first share (worker + 1) rest

variable (elapsed : Elapsed) (c : Compiler) (first share worker : Nat)

theorem log_runWorkers (slices : List (List FoundScript)) :
    (runWorkers elapsed c first share worker slices).2
      = (workerLogs elapsed c first share worker slices).flatten := by
  induction slices generalizing worker with
  | nil => rfl
  | cons slice rest ih => rw [workerLogs, List.flatten_cons, ← ih, runWorkers]

theorem exists_script_of_mem_visits {id : Nat} {scripts : List FoundScript} {s : Path × Nat}
    (h : s ∈ visits (work elapsed c id scripts).2) : ∃ script ∈ scripts, script.path = s.1 := by
  rw [work, visits_compileInOrder rfl, numbered] at h
  obtain ⟨⟨script, n⟩, hmem, rfl⟩ := List.mem_map.mp h
  exact ⟨script, List.fst_mem_of_mem_zipIdx hmem, rfl⟩

theorem slice_of_mem_workerLogs {slices : List (List FoundScript)} {log : List LogAction}
    (h : log ∈ workerLogs elapsed c first share worker slices) :
    ∃ slice ∈ slices, ∃ id, log = (work elapsed c.fresh id slice).2 := by
  induction slices generalizing worker with
  | nil => cases h
  | cons slice rest ih =>
    rcases List.mem_cons.mp h with rfl | h
    · exact ⟨slice, List.mem_cons_self, _, rfl⟩
    · obtain ⟨slice, hmem, hlog⟩ := ih _ h
      exact ⟨slice, List.mem_cons_of_mem _ hmem, hlog⟩

theorem disjoint_workerLogs {slices : List (List FoundScript)}
    (hpaths : slices.Pairwise fun slice other => ∀ s ∈ slice, ∀ t ∈ other,
      s.path.compare t.path ≠ .eq) :
    Crew.Disjoint (workerLogs elapsed c first share worker slices) := by
  induction slices generalizing worker with
  | nil => exact List.Pairwise.nil
  | cons slice rest ih =>
    obtain ⟨hslice, hrest⟩ := List.pairwise_cons.mp hpaths
    refine List.pairwise_cons.mpr ⟨fun log hlog s hs t ht => ?_, ih _ hrest⟩
    obtain ⟨other, hother, id, rfl⟩ := slice_of_mem_workerLogs _ _ _ _ _ hlog
    obtain ⟨script, hscript, hs⟩ := exists_script_of_mem_visits _ _ hs
    obtain ⟨script', hscript', ht⟩ := exists_script_of_mem_visits _ _ ht
    rw [← hs, ← ht]
    exact hslice other hother script hscript script' hscript'

/-- The workers of a chunk may take turns as they like: the diagnostics are those of the log in
which they come one after the other. -/
theorem collector_runWorkers {slices : List (List FoundScript)}
    (hpaths : slices.Pairwise fun slice other => ∀ s ∈ slice, ∀ t ∈ other,
      s.path.compare t.path ≠ .eq)
    {j : Journal} (hscopes : j.scopes = []) {turns : List Nat}
    (hdone : ((Crew.starting j.settings j.collector
      (workerLogs elapsed c first share worker slices)).run turns).Finished) :
    ((Crew.starting j.settings j.collector
        (workerLogs elapsed c first share worker slices)).run turns).collector
      = (j.run (runWorkers elapsed c first share worker slices).2).collector := by
  have hbalanced : ∀ log ∈ workerLogs elapsed c first share worker slices,
      Journal.Balanced log := by
    intro log hlog
    obtain ⟨slice, -, id, rfl⟩ := slice_of_mem_workerLogs _ _ _ _ _ hlog
    exact balanced_compileInOrder _ _ _ _ _ _
  rw [log_runWorkers]
  exact Crew.collector_of_turns hscopes hbalanced
    (disjoint_workerLogs elapsed c first share worker hpaths) hdone

end Batch
end ChainMapping
