import Tierkreis.Runtime.SqliteStore
import Tierkreis.State.Splits

/-!
# Events of two channels

The runtime merges the channel of the orchestrator with those of the executors
and writes the events of an attempt in the order in which the merged stream
yields them. In memory that order makes no difference to the nodes. In the
database the first event of a node makes its row, a later one does not set the
time of a pause, and an event that is refused ends the loop.
-/

namespace Tierkreis

open Lib Lib.Commute Lib.Txn Sql

namespace WorkflowRunEvent

def nodes : WorkflowRunEvent → List NodeEvent
  | .nodeEvents events => events
  | _ => []

/-- The node events at a location. -/
def nodesAt (loc : Location) (event : WorkflowRunEvent) : List NodeEvent :=
  event.nodes.filter fun e => e.loc = loc

/-- An event of the orchestrator: a task is at most scheduled or paused. -/
def FromOrchestrator (isTask : Location → Prop) (event : WorkflowRunEvent) : Prop :=
  ∀ e ∈ event.nodes, isTask e.loc → e.status.isPlan = true

/-- An event of an executor: a report on one task, without a name. -/
def FromExecutor (isTask : Location → Prop) (event : WorkflowRunEvent) : Prop :=
  ∃ e, event = .nodeEvents [e] ∧ isTask e.loc ∧ e.name = none ∧ e.status.isReport = true

end WorkflowRunEvent

open WorkflowRunEvent

/-! ## In memory -/

theorem InMemory.rename_eq (s : NodeState) (name : Option String) :
    rename s name = { s with name := name.or s.name } := by
  cases name <;> rfl

/-- A plan and a report set different fields. -/
theorem InMemory.foldNodeEvent_comm {a b : NodeEvent} (ha : a.status.isPlan = true)
    (hn : b.name = none) (hb : b.status.isReport = true) (s : NodeState) :
    (foldNodeEvent 0 (foldNodeEvent 0 s a).1 b).1 = (foldNodeEvent 0 (foldNodeEvent 0 s b).1 a).1 := by
  obtain ⟨loc, name, status⟩ := a
  obtain ⟨loc', name', status'⟩ := b
  cases hn
  simp only [foldNodeEvent, rename_eq, Option.none_or]
  cases status with
  | scheduled executionContext =>
    cases status' with
    | complete outputs => cases s.completeTime <;> simp [foldStatus]
    | error error detail => cases s.errorTime <;> simp [foldStatus]
    | running stateUpdate =>
      cases stateUpdate with
      | none => rfl
      | some u => cases hb
    | queued handle => rfl
    | cancelled => rfl
    | _ => cases hb
  | paused =>
    cases status' with
    | complete outputs => cases s.completeTime <;> simp [foldStatus]
    | error error detail => cases s.errorTime <;> simp [foldStatus]
    | running stateUpdate =>
      cases stateUpdate with
      | none => rfl
      | some u => cases hb
    | queued handle => rfl
    | cancelled => rfl
    | _ => cases hb
  | _ => cases ha

namespace RunAttemptState

theorem respects_handleNodeEvent : Respects (handleNodeEvent 0) SameNodes where
  equiv := ⟨fun _ _ => rfl, fun h loc => (h loc).symm, fun h h' loc => (h loc).trans (h' loc)⟩
  step e h := h.handleNodeEvent 0 0 e

theorem commutes_handleNodeEvent {a b : NodeEvent}
    (h : a.loc = b.loc → a.status.isPlan = true ∧ b.name = none ∧ b.status.isReport = true) :
    Commutes (handleNodeEvent 0) SameNodes a b := by
  intro run loc
  congr 1
  simp only [handleNodeEvent, nodes_insertInputs, HashMap.get?_insert, read]
  by_cases hl : a.loc = b.loc
  · obtain ⟨ha, hn, hb⟩ := h hl
    rw [← hl]
    simp only [if_pos, Option.getD_some]
    by_cases hloc : loc = a.loc
    · simp only [if_pos hloc, InMemory.foldNodeEvent_comm ha hn hb]
    · simp only [if_neg hloc]
  · by_cases ha : loc = a.loc
    · subst ha
      simp [hl]
    · by_cases hb : loc = b.loc
      · subst hb
        simp [Ne.symm hl]
      · simp [ha, hb]

/-- Up to times, writing events one after the other is folding their node events. -/
theorem sameNodes_writeEvents {events : List (Time × WorkflowRunEvent)} :
    ∀ {a b : RunAttemptState}, SameNodes a b →
      SameNodes (events.foldl (fun run e => run.writeEvent e.1 e.2) a)
        ((events.flatMap fun e => e.2.nodes).foldl (handleNodeEvent 0) b) := by
  induction events with
  | nil => exact fun h => h
  | cons e events ih =>
    intro a b h
    rw [List.flatMap_cons, List.foldl_append, List.foldl_cons]
    apply ih
    obtain ⟨now, event⟩ := e
    cases event with
    | nodeEvents es => exact h.handleNodeEvents now 0
    | _ => exact h

end RunAttemptState

namespace InMemoryRuntimeState

/-- `process_events` on the events of one attempt, each with the time of its write. -/
def processEvents (st : InMemoryRuntimeState) (r : RunAttempt)
    (events : List (Time × WorkflowRunEvent)) : InMemoryRuntimeState :=
  events.foldl (fun st e => st.write r e.1 e.2) st

theorem run_processEvents {r : RunAttempt} {events : List (Time × WorkflowRunEvent)} :
    ∀ st : InMemoryRuntimeState, (st.processEvents r events).run r =
      events.foldl (fun run e => run.writeEvent e.1 e.2) (st.run r) := by
  induction events with
  | nil => exact fun _ => rfl
  | cons e events ih =>
    intro st
    rw [processEvents, List.foldl_cons, ← processEvents, ih, run_write]
    rfl

/-- In memory the channels may be merged in any order. -/
theorem sameNodes_processEvents {isTask : Location → Prop} {o x : List WorkflowRunEvent}
    (ho : ∀ e ∈ o, FromOrchestrator isTask e) (hx : ∀ e ∈ x, FromExecutor isTask e)
    (st : InMemoryRuntimeState) (r : RunAttempt) {n : List (Time × WorkflowRunEvent)}
    (hn : Interleaves o x (n.map Prod.snd)) :
    RunAttemptState.SameNodes ((st.processEvents r n).run r)
      (((o ++ x).flatMap nodes).foldl (RunAttemptState.handleNodeEvent 0) (st.run r)) := by
  have hflat : n.flatMap (fun e => e.2.nodes) = (n.map Prod.snd).flatMap nodes :=
    (List.flatMap_map ..).symm
  have hmerge := RunAttemptState.respects_handleNodeEvent.foldl_interleaves (hn.flatMap nodes)
    (fun a ha b hb => ?_) (st.run r)
  · rw [run_processEvents, List.flatMap_append, List.foldl_append]
    refine RunAttemptState.respects_handleNodeEvent.equiv.trans
      (RunAttemptState.sameNodes_writeEvents fun _ => rfl) ?_
    rw [hflat]
    exact hmerge
  · obtain ⟨e, he, ha⟩ := List.mem_flatMap.1 ha
    obtain ⟨e', he', hb⟩ := List.mem_flatMap.1 hb
    obtain ⟨report, rfl, htask, hname, hreport⟩ := hx e' he'
    obtain rfl := List.mem_singleton.1 hb
    refine RunAttemptState.commutes_handleNodeEvent fun hl => ?_
    exact ⟨ho e he a ha (hl ▸ htask), hname, hreport⟩

end InMemoryRuntimeState

/-! ## One event -/

namespace SqliteRuntimeState

variable {K : Crates} {st : SqliteRuntimeState} {r : RunAttempt}

/-- What the write of an event that goes through leaves behind. -/
structure Written (K : Crates) (r : RunAttempt) (event : WorkflowRunEvent)
    (st st' : SqliteRuntimeState) : Prop where
  known : hasAttempt st'.db r = true
  accepts : ∀ es, Accepts K st'.db r es ↔ Accepts K st.db r (event.nodes ++ es)
  node : ∀ loc, NodeTables.Same (st'.db.nodeAt r loc)
    ((st.db.nodeAt r loc).batch K (event.nodesAt loc))

theorem toI32_of_hasAttempt {db : Db} (hr : hasAttempt db r = true) :
    toI32 r.2 = .ok (r.2 : Int) := by
  simp only [hasAttempt, Bool.and_eq_true, decide_eq_true_eq] at hr
  exact toI32_eq_ok.2 ⟨hr.1.1, rfl⟩

/-- The database takes what fits and can be stored, once it has the attempt. -/
theorem accepts_iff {db : Db} (hr : hasAttempt db r = true) {es : List NodeEvent} :
    Accepts K db r es ↔ (∀ e ∈ es, ∃ row, eventColumns K 0 e = .ok row) ∧
      Storable db r.1 r.2 (es.flatMap eventInputs) := by
  have htakes : ∀ loc, db.takesNode r.1 r.2 loc = true := by
    intro loc
    simp only [hasAttempt, Bool.and_eq_true] at hr
    simp [Db.takesNode, hr.2]
  simp [Accepts, toI32_of_hasAttempt hr, htakes]

theorem accepts_nil {db : Db} (hr : hasAttempt db r = true) : Accepts K db r [] := by
  rw [accepts_iff hr]
  simp [Storable]

theorem write_accepted (hr : hasAttempt st.db r = true) {event : WorkflowRunEvent}
    (h : Accepts K st.db r event.nodes) (now : Time) :
    ∃ st', st.write K r noFaults now event = (.ok (), st') ∧ Written K r event st st' := by
  have ha := toI32_of_hasAttempt hr
  have hknown : ∀ st', st.write K r noFaults now event = (.ok (), st') →
      hasAttempt st'.db r = true := by
    intro st' hw
    have hframe : SqliteStore.CallFrame st (st.write K r noFaults now event).2 :=
      SqliteStore.callFrame_write K hr now event
    rw [hw] at hframe
    exact SqliteStore.hasAttempt_grows hframe.1 hr
  by_cases he : ∃ events, event = .nodeEvents events
  · obtain ⟨events, rfl⟩ := he
    obtain ⟨st', hw⟩ := write_isOk_iff.2 h
    refine ⟨st', hw, hknown st' hw, fun es => (accepts_append hw).symm, fun loc => ?_⟩
    obtain ⟨attempt, updates, ha', hus, -, -, rfl⟩ := write_nodeEvents_iff.1 hw
    obtain rfl : (r.2 : Int) = attempt := Except.ok.inj (ha.symm.trans ha')
    exact same_of_updates r hus st.db _ loc
  · rw [not_exists] at he
    have hrow := hr
    simp only [hasAttempt, Bool.and_eq_true, HashMap.contains, Option.isSome_iff_exists] at hrow
    obtain ⟨-, row, hrow⟩ := hrow
    have hw := @write_workflowEvent K st r now r.2 row event ha hrow he
    have hnodes : event.nodes = [] := by
      cases event with
      | nodeEvents events => exact absurd rfl (he events)
      | _ => rfl
    refine ⟨_, hw, hknown _ hw, fun es => ?_, fun loc => ?_⟩
    · rw [accepts_iff (hknown _ hw), hnodes, List.nil_append, accepts_iff hr]
      simp [Storable, Db.putAttempt, Db.hasInput, HashMap.contains, hrow]
    · rw [nodesAt, hnodes]
      exact .refl _

/-- A batch that is refused leaves no trace in the nodes. -/
theorem write_refused (hr : hasAttempt st.db r = true) {event : WorkflowRunEvent}
    (h : ¬Accepts K st.db r event.nodes) (now : Time) :
    ∃ f st', st.write K r noFaults now event = (.error f, st') ∧
      ∀ loc, st'.db.nodeAt r loc = st.db.nodeAt r loc := by
  cases event with
  | nodeEvents events =>
    rcases hw : st.write K r noFaults now (.nodeEvents events) with ⟨f | _, st'⟩
    swap
    · exact absurd (write_isOk_iff.1 ⟨st', hw⟩) h
    refine ⟨f, st', rfl, fun loc => ?_⟩
    have hrefused : ¬Accepts K st.db r events := h
    have hdb := db_write_refused now hrefused
    rw [hw] at hdb
    rw [hdb, Db.afterRefused_frame]
    rfl
  | _ => exact absurd (accepts_nil hr) h

/-- `process_events` on the events of one attempt, each with the time of its write. The loop
ends at the first attempt that is not found and at the first write that fails. -/
def processEvents (K : Crates) (r : RunAttempt) :
    List (Time × WorkflowRunEvent) → SqliteRuntimeState → SqliteRuntimeState
  | [], st => st
  | (now, event) :: events, st =>
    match readWorkflowRun st.db r with
    | .error _ => st
    | .ok _ =>
      match st.write K r noFaults now event with
      | (.ok (), st') => processEvents K r events st'
      | (.error _, st') => st'

/-- Without its rows no event of an attempt is written. -/
theorem processEvents_unknown (hr : hasAttempt st.db r = false)
    (events : List (Time × WorkflowRunEvent)) : processEvents K r events st = st := by
  cases events with
  | nil => rfl
  | cons e events =>
    unfold processEvents
    cases h : readWorkflowRun st.db r with
    | error f => rfl
    | ok x =>
      have := readWorkflowRun_isOk.1 ⟨x, h⟩
      rw [hr] at this
      cases this

theorem processEvents_cons (hr : hasAttempt st.db r = true) {now : Time}
    {event : WorkflowRunEvent} (events : List (Time × WorkflowRunEvent)) {res : Result Unit}
    {st' : SqliteRuntimeState} (hw : st.write K r noFaults now event = (res, st')) :
    processEvents K r ((now, event) :: events) st =
      match res with
      | .ok () => processEvents K r events st'
      | .error _ => st' := by
  obtain ⟨x, hx⟩ := readWorkflowRun_isOk.2 hr
  rw [processEvents, hx]
  simp only [hw]
  cases res <;> rfl

/-- Events that are all accepted are all written. -/
theorem processEvents_accepted {events rest : List (Time × WorkflowRunEvent)} :
    ∀ {st : SqliteRuntimeState}, hasAttempt st.db r = true →
      Accepts K st.db r (events.flatMap fun e => e.2.nodes) →
      ∃ st', processEvents K r (events ++ rest) st = processEvents K r rest st' ∧
        hasAttempt st'.db r = true ∧
        (∀ es, Accepts K st'.db r es ↔
          Accepts K st.db r ((events.flatMap fun e => e.2.nodes) ++ es)) ∧
        ∀ loc, NodeTables.Same (st'.db.nodeAt r loc)
          (events.foldl (fun d e => d.batch K (e.2.nodesAt loc)) (st.db.nodeAt r loc)) := by
  induction events with
  | nil => exact fun {st} hr _ => ⟨st, rfl, hr, fun _ => .rfl, fun _ => .refl _⟩
  | cons e events ih =>
    intro st hr h
    obtain ⟨now, event⟩ := e
    rw [List.flatMap_cons] at h
    obtain ⟨st₁, hw, hwritten⟩ := write_accepted hr (Accepts.left h) now
    obtain ⟨st₂, hrest, hknown, haccepts, hnode⟩ :=
      ih hwritten.known ((hwritten.accepts _).2 h)
    refine ⟨st₂, ?_, hknown, fun es => ?_, fun loc => (hnode loc).trans ?_⟩
    · rw [List.cons_append, processEvents_cons hr _ hw]
      exact hrest
    · rw [haccepts, hwritten.accepts, List.flatMap_cons, List.append_assoc]
    · rw [List.foldl_cons]
      exact foldl_batch_same _ (hwritten.node loc)

/-- The first event that is refused ends the loop. -/
theorem processEvents_refused {events rest : List (Time × WorkflowRunEvent)} {now : Time}
    {event : WorkflowRunEvent} (hr : hasAttempt st.db r = true)
    (h : Accepts K st.db r (events.flatMap fun e => e.2.nodes))
    (hn : ¬Accepts K st.db r ((events.flatMap fun e => e.2.nodes) ++ event.nodes)) (loc : Location) :
    NodeTables.Same ((processEvents K r (events ++ (now, event) :: rest) st).db.nodeAt r loc)
      (events.foldl (fun d e => d.batch K (e.2.nodesAt loc)) (st.db.nodeAt r loc)) := by
  obtain ⟨st₁, hrest, hknown, haccepts, hnode⟩ := processEvents_accepted hr h
  obtain ⟨f, st₂, hw, hsame⟩ := write_refused hknown (mt (haccepts _).1 hn) now
  rw [hrest, processEvents_cons hknown _ hw]
  exact hsame loc ▸ hnode loc

end SqliteRuntimeState

/-! ## Merged channels -/

/-- What events do to the node at a location. -/
def Sql.NodeTables.after (K : Crates) (loc : Location) (d : NodeTables)
    (events : List WorkflowRunEvent) : NodeTables :=
  events.foldl (fun d e => d.batch K (e.nodesAt loc)) d

namespace SqliteRuntimeState

section Merge

variable {K : Crates} {st : SqliteRuntimeState} {r : RunAttempt} {isTask : Location → Prop}
  {o x n n' : List WorkflowRunEvent} {events : List (Time × WorkflowRunEvent)}

theorem nodeAt_accepted (hr : hasAttempt st.db r = true)
    (h : Accepts K st.db r ((events.map Prod.snd).flatMap nodes)) (loc : Location) :
    ((processEvents K r events st).db.nodeAt r loc).Same
      ((st.db.nodeAt r loc).after K loc (events.map Prod.snd)) := by
  rw [List.flatMap_map] at h
  obtain ⟨st', hrest, -, -, hnode⟩ := @processEvents_accepted K r events [] st hr h
  rw [List.append_nil] at hrest
  rw [hrest, NodeTables.after, List.foldl_map]
  exact hnode loc

theorem nodeAt_refused (hr : hasAttempt st.db r = true) {l₁ l₂ : List WorkflowRunEvent}
    {event : WorkflowRunEvent} (hevents : events.map Prod.snd = l₁ ++ event :: l₂)
    (h : Accepts K st.db r (l₁.flatMap nodes))
    (hn : ¬Accepts K st.db r ((l₁ ++ [event]).flatMap nodes)) (loc : Location) :
    ((processEvents K r events st).db.nodeAt r loc).Same
      ((st.db.nodeAt r loc).after K loc l₁) := by
  obtain ⟨events₁, rest, rfl, rfl, hrest⟩ := List.map_eq_append_iff.1 hevents
  obtain ⟨⟨now, _⟩, events₂, rfl, rfl, -⟩ := List.map_eq_cons_iff.1 hrest
  rw [List.flatMap_append, List.flatMap_singleton, List.flatMap_map] at hn
  rw [List.flatMap_map] at h
  rw [NodeTables.after, List.foldl_map]
  exact processEvents_refused hr h hn loc

variable (ho : ∀ e ∈ o, FromOrchestrator isTask e) (hx : ∀ e ∈ x, FromExecutor isTask e)

include hx

/-- Whether the events of a merge are accepted depends on those of the orchestrator alone. -/
theorem accepts_merge (hr : hasAttempt st.db r = true) (hi : Interleaves o x n) :
    Accepts K st.db r (n.flatMap nodes) ↔ Accepts K st.db r (o.flatMap nodes) := by
  have hinputs : (n.flatMap nodes).flatMap eventInputs = (o.flatMap nodes).flatMap eventInputs := by
    have hnone : (x.flatMap nodes).flatMap eventInputs = [] := by
      rw [List.flatMap_eq_nil_iff]
      intro e he
      obtain ⟨event, hevent, he⟩ := List.mem_flatMap.1 he
      obtain ⟨report, rfl, -, -, hreport⟩ := hx event hevent
      cases List.mem_singleton.1 he
      exact eventInputs_report hreport
    have hall := (hi.flatMap nodes).flatMap eventInputs
    rw [hnone] at hall
    exact hall.eq_of_nil_right
  rw [accepts_iff hr, accepts_iff hr, hinputs]
  refine and_congr_left fun _ => ⟨fun h e he => h e ?_, fun h e he => ?_⟩
  · exact (hi.flatMap nodes).mem_iff.2 (.inl he)
  · rcases (hi.flatMap nodes).mem_iff.1 he with he | he
    · exact h e he
    · obtain ⟨event, hevent, he⟩ := List.mem_flatMap.1 he
      obtain ⟨report, rfl, -, -, hreport⟩ := hx event hevent
      cases List.mem_singleton.1 he
      exact eventColumns_report K hreport

/-- Reports reach tasks only. -/
theorem nodesAt_executor {loc : Location} (hl : ¬isTask loc) {event : WorkflowRunEvent}
    (h : event ∈ x) : event.nodesAt loc = [] := by
  obtain ⟨e, rfl, htask, -, -⟩ := hx event h
  have hne : e.loc ≠ loc := fun he => hl (he ▸ htask)
  simp [nodesAt, nodes, hne]

/-- Away from the tasks, only the events of the orchestrator count. -/
theorem after_of_not_task {loc : Location} (hl : ¬isTask loc) (hi : Interleaves o x n)
    (d : NodeTables) : d.after K loc n = d.after K loc o :=
  hi.foldl_idle (fun event h d => by rw [nodesAt_executor hx hl h]; rfl) d

theorem reports_of_executor (loc : Location) :
    ∀ e ∈ x.flatMap (nodesAt loc), e.name = none ∧ e.status.isReport = true := by
  intro e he
  obtain ⟨event, hevent, he⟩ := List.mem_flatMap.1 he
  obtain ⟨e', rfl, -, hn, hreport⟩ := hx event hevent
  obtain rfl := List.mem_singleton.1 (List.mem_filter.1 he).1
  exact ⟨hn, hreport⟩

omit hx in
include ho in
theorem plans_of_orchestrator {loc : Location} (hl : isTask loc) :
    ∀ e ∈ o.flatMap (nodesAt loc), e.status.isPlan = true := by
  intro e he
  obtain ⟨event, hevent, he⟩ := List.mem_flatMap.1 he
  obtain ⟨he, hloc⟩ := List.mem_filter.1 he
  exact ho event hevent e he (of_decide_eq_true hloc ▸ hl)

include ho

/-- At a task, events are folded one by one. -/
theorem after_of_task {loc : Location} (hl : isTask loc) (hi : Interleaves o x n)
    (d : NodeTables) : d.after K loc n = d.fold K (n.flatMap (nodesAt loc)) := by
  refine NodeTables.foldl_batch_eq (fun event hevent e he => ?_) d
  have hmem : e ∈ n.flatMap (nodesAt loc) := List.mem_flatMap.2 ⟨event, hevent, he⟩
  rcases (hi.flatMap (nodesAt loc)).mem_iff.1 hmem with h | h
  · obtain ⟨_, _, _, _, hrow⟩ := planRow_columnsOf K (plans_of_orchestrator ho hl e h)
    rw [hrow]
  · have hreport := reports_of_executor hx loc e h
    obtain ⟨_, _, _, _, _, _, _, _, hrow⟩ := reportRow_columnsOf K hreport.1 hreport.2
    rw [hrow]

/-- Two merges lead to the same where no pause may come second. -/
theorem after_merges {loc : Location} {d : NodeTables} (hi : Interleaves o x n)
    (hi' : Interleaves o x n')
    (h : isTask loc → d.1 = none →
      (o.flatMap (nodesAt loc)).head?.map NodeEvent.status = some .paused →
      x.flatMap (nodesAt loc) = []) :
    d.after K loc n = d.after K loc n' := by
  by_cases hl : isTask loc
  · rw [after_of_task ho hx hl hi, after_of_task ho hx hl hi']
    exact fold_merges (plans_of_orchestrator ho hl) (reports_of_executor hx loc)
      (hi.flatMap _) (hi'.flatMap _) (h hl)
  · rw [after_of_not_task hx hl hi, after_of_not_task hx hl hi']

/-- Reports that change nothing may be left out of a merge. -/
theorem after_idle {loc : Location} {d : NodeTables} (hi : Interleaves o x n)
    (h : ∀ e ∈ x.flatMap (nodesAt loc), Idle K d e) :
    (d.after K loc n).Same (d.after K loc o) := by
  by_cases hl : isTask loc
  · have hplans := plans_of_orchestrator ho hl
    have hreports := reports_of_executor hx loc
    rw [after_of_task ho hx hl hi,
      after_of_task (x := []) ho (fun _ h => by cases h) hl (.left_alone o)]
    by_cases hnil : x.flatMap (nodesAt loc) = []
    · have hall := hi.flatMap (nodesAt loc)
      rw [hnil] at hall
      rw [hall.eq_of_nil_right]
      exact .refl _
    · obtain ⟨e, xs, hcons⟩ := List.exists_cons_of_ne_nil hnil
      have he : e ∈ x.flatMap (nodesAt loc) := hcons ▸ .head _
      obtain ⟨row, hrow, -⟩ := (idle_iff (hreports e he).1 (hreports e he).2).1 (h e he)
      rw [fold_merge hplans hreports (hi.flatMap _) (by simp [hrow])]
      exact (fold_idle h).fold _
  · rw [after_of_not_task hx hl hi]
    exact .refl _

end Merge

end SqliteRuntimeState

/-- The nodes of an attempt in two databases are the same up to the values of times. -/
def Sql.Db.SameNodesOf (r : RunAttempt) (a b : Db) : Prop :=
  ∀ loc, (a.nodeAt r loc).Same (b.nodeAt r loc)

/-- Every two merges of the events `o` of the orchestrator and the events `x` of executors leave
the same nodes, in memory and in the database. -/
structure AnyOrder (K : Crates) (m : InMemoryRuntimeState) (s : SqliteRuntimeState)
    (r : RunAttempt) (o x : List WorkflowRunEvent) : Prop where
  inMemory : ∀ n n' : List (Time × WorkflowRunEvent), Interleaves o x (n.map Prod.snd) →
    Interleaves o x (n'.map Prod.snd) →
    RunAttemptState.SameNodes ((m.processEvents r n).run r) ((m.processEvents r n').run r)
  sqlite : ∀ n n' : List (Time × WorkflowRunEvent), Interleaves o x (n.map Prod.snd) →
    Interleaves o x (n'.map Prod.snd) →
    Db.SameNodesOf r (SqliteRuntimeState.processEvents K r n s).db
      (SqliteRuntimeState.processEvents K r n' s).db

/-- A node has no row yet, and the orchestrator begins with its pause. -/
def BeginsPaused (s : SqliteRuntimeState) (r : RunAttempt) (o : List WorkflowRunEvent)
    (loc : Location) : Prop :=
  s.db.nodeStates.get? (r.1, (r.2 : Int), loc) = none ∧
    (o.flatMap (nodesAt loc)).head?.map NodeEvent.status = some .paused

/-- What the database needs to take the channels in any order: when it takes all events of the
orchestrator, no executor reports on a node that begins paused; when it refuses one, all that
the executors report is in the tables already. -/
structure OrderFree (K : Crates) (s : SqliteRuntimeState) (r : RunAttempt)
    (o x : List WorkflowRunEvent) : Prop where
  accepted : Accepts K s.db r (o.flatMap nodes) → ∀ e ∈ x.flatMap nodes, ¬BeginsPaused s r o e.loc
  refused : ¬Accepts K s.db r (o.flatMap nodes) → ∀ e ∈ x.flatMap nodes,
    ∃ row, s.db.nodeStates.get? (r.1, (r.2 : Int), e.loc) = some row ∧
      row.Records (Db.rowsAt s.db.nodeOutputs (r.1, (r.2 : Int), e.loc)) e.status

/-- The last part of a list that passes, and what is next. -/
theorem exists_first_refused {ι : Type} {p : List ι → Prop} (h0 : p []) {l : List ι} (h : ¬p l) :
    ∃ l₁ a l₂, l = l₁ ++ a :: l₂ ∧ p l₁ ∧ ¬p (l₁ ++ [a]) := by
  induction l using List.reverseRecOn with
  | nil => exact absurd h0 h
  | append_singleton l a ih =>
    by_cases hl : p l
    · exact ⟨l, a, [], rfl, hl, h⟩
    · obtain ⟨l₁, b, l₂, rfl, h₁, h₂⟩ := ih hl
      exact ⟨l₁, b, l₂ ++ [a], by simp, h₁, h₂⟩

section Order

variable {K : Crates} {s : SqliteRuntimeState} {r : RunAttempt} {isTask : Location → Prop}
  {o x : List WorkflowRunEvent} (ho : ∀ e ∈ o, FromOrchestrator isTask e)
  (hx : ∀ e ∈ x, FromExecutor isTask e)

theorem mem_nodesAt {loc : Location} {e : NodeEvent} :
    e ∈ x.flatMap (nodesAt loc) ↔ e ∈ x.flatMap nodes ∧ e.loc = loc := by
  simp only [List.mem_flatMap, nodesAt, List.mem_filter, decide_eq_true_eq]
  constructor
  · rintro ⟨event, hevent, he, hl⟩
    exact ⟨⟨event, hevent, he⟩, hl⟩
  · rintro ⟨⟨event, hevent, he⟩, hl⟩
    exact ⟨event, hevent, he, hl⟩

include hx

theorem report_of_mem {e : NodeEvent} (he : e ∈ x.flatMap nodes) :
    isTask e.loc ∧ e.name = none ∧ e.status.isReport = true := by
  obtain ⟨event, hevent, he⟩ := List.mem_flatMap.1 he
  obtain ⟨e', rfl, htask, hn, hreport⟩ := hx event hevent
  obtain rfl := List.mem_singleton.1 he
  exact ⟨htask, hn, hreport⟩

/-- A merge that meets an event which is refused has done what came before it. -/
theorem nodeAt_cut (hr : hasAttempt s.db r = true) {o₁ : List WorkflowRunEvent}
    {event : WorkflowRunEvent} (ho₁ : Accepts K s.db r (o₁.flatMap nodes))
    (hrefused : ¬Accepts K s.db r ((o₁ ++ [event]).flatMap nodes)) {x₁ x₂ n₁ n₂ : List WorkflowRunEvent}
    (hx₁ : x = x₁ ++ x₂) (hi : Interleaves o₁ x₁ n₁) {n : List (Time × WorkflowRunEvent)}
    (hn : n.map Prod.snd = n₁ ++ event :: n₂) (loc : Location) :
    ((SqliteRuntimeState.processEvents K r n s).db.nodeAt r loc).Same
      ((s.db.nodeAt r loc).after K loc n₁) := by
  have hx' : ∀ e ∈ x₁, FromExecutor isTask e := fun e he =>
    hx e (hx₁ ▸ List.mem_append_left _ he)
  refine SqliteRuntimeState.nodeAt_refused hr hn
    ((SqliteRuntimeState.accepts_merge hx' hr hi).2 ho₁) ?_ loc
  have hi' : Interleaves (o₁ ++ [event]) x₁ (n₁ ++ [event]) := by
    simpa using hi.append (.left_alone [event])
  rwa [SqliteRuntimeState.accepts_merge hx' hr hi']

include ho

theorem sameNodesOf_of_orderFree (hr : hasAttempt s.db r = true) (h : OrderFree K s r o x)
    {n n' : List (Time × WorkflowRunEvent)} (hi : Interleaves o x (n.map Prod.snd))
    (hi' : Interleaves o x (n'.map Prod.snd)) :
    Db.SameNodesOf r (SqliteRuntimeState.processEvents K r n s).db
      (SqliteRuntimeState.processEvents K r n' s).db := by
  intro loc
  by_cases ha : Accepts K s.db r (o.flatMap nodes)
  · have hsame : (s.db.nodeAt r loc).after K loc (n.map Prod.snd) =
      (s.db.nodeAt r loc).after K loc (n'.map Prod.snd) :=
      SqliteRuntimeState.after_merges ho hx hi hi' fun _ hnone hpaused => by
        refine List.eq_nil_iff_forall_not_mem.2 fun e he => ?_
        obtain ⟨hmem, rfl⟩ := mem_nodesAt.1 he
        exact h.accepted ha e hmem ⟨hnone, hpaused⟩
    refine (SqliteRuntimeState.nodeAt_accepted hr
      ((SqliteRuntimeState.accepts_merge hx hr hi).2 ha) loc).trans ?_
    rw [hsame]
    exact (SqliteRuntimeState.nodeAt_accepted hr
      ((SqliteRuntimeState.accepts_merge hx hr hi').2 ha) loc).symm
  · obtain ⟨o₁, event, o₂, rfl, ho₁, hrefused⟩ := exists_first_refused
      (p := fun l => Accepts K s.db r (l.flatMap nodes)) (SqliteRuntimeState.accepts_nil hr) ha
    have hcut : ∀ {n : List (Time × WorkflowRunEvent)},
        Interleaves (o₁ ++ event :: o₂) x (n.map Prod.snd) →
        ((SqliteRuntimeState.processEvents K r n s).db.nodeAt r loc).Same
          ((s.db.nodeAt r loc).after K loc o₁) := by
      intro n hi
      obtain ⟨x₁, x₂, n₁, n₂, hx₁, hn, hi₁⟩ := hi.cut
      refine (nodeAt_cut hx hr ho₁ hrefused hx₁ hi₁ hn loc).trans
        (SqliteRuntimeState.after_idle (fun e he => ho e (List.mem_append_left _ he))
          (fun e he => hx e (hx₁ ▸ List.mem_append_left _ he)) hi₁ fun e he => ?_)
      obtain ⟨hmem₁, rfl⟩ := mem_nodesAt.1 he
      have hmem : e ∈ x.flatMap nodes := by
        rw [hx₁, List.flatMap_append]
        exact List.mem_append_left _ hmem₁
      have hreport := report_of_mem hx hmem
      exact (idle_iff hreport.2.1 hreport.2.2).2 (h.refused ha e hmem)
    exact (hcut hi).trans (hcut hi').symm

/-- Two databases that the two orders of a merge leave alike show that no pause is lost. -/
theorem not_beginsPaused (hr : hasAttempt s.db r = true)
    (h : ∀ n n' : List (Time × WorkflowRunEvent), Interleaves o x (n.map Prod.snd) →
      Interleaves o x (n'.map Prod.snd) →
      Db.SameNodesOf r (SqliteRuntimeState.processEvents K r n s).db
        (SqliteRuntimeState.processEvents K r n' s).db)
    (ha : Accepts K s.db r (o.flatMap nodes)) {e : NodeEvent} (he : e ∈ x.flatMap nodes) :
    ¬BeginsPaused s r o e.loc := by
  rintro ⟨hnone, hpaused⟩
  obtain ⟨htask, -, -⟩ := report_of_mem hx he
  have hmem : e ∈ x.flatMap (nodesAt e.loc) := mem_nodesAt.2 ⟨he, rfl⟩
  have hi : Interleaves o x (((o ++ x).map (Prod.mk (0 : Time))).map Prod.snd) := by
    simpa using (Interleaves.left_alone o).append (.right_alone x)
  have hi' : Interleaves o x (((x ++ o).map (Prod.mk (0 : Time))).map Prod.snd) := by
    simpa using (Interleaves.right_alone x).append (.left_alone o)
  have hsame := ((SqliteRuntimeState.nodeAt_accepted hr
    ((SqliteRuntimeState.accepts_merge hx hr hi).2 ha) e.loc).symm.trans (h _ _ hi hi' e.loc)).trans
    (SqliteRuntimeState.nodeAt_accepted hr
      ((SqliteRuntimeState.accepts_merge hx hr hi').2 ha) e.loc)
  rw [SqliteRuntimeState.after_of_task ho hx htask hi,
    SqliteRuntimeState.after_of_task ho hx htask hi'] at hsame
  simp only [List.map_map, Function.comp_def, List.map_id', List.flatMap_append] at hsame
  exact fold_pause_lost (SqliteRuntimeState.plans_of_orchestrator ho htask)
    (SqliteRuntimeState.reports_of_executor hx e.loc) hnone hpaused (List.ne_nil_of_mem hmem) hsame

/-- The reports `x₁` written before the events of the orchestrator, of which one is refused. -/
theorem nodeAt_reports_first (hr : hasAttempt s.db r = true) {o₁ o₂ x₁ x₂ : List WorkflowRunEvent}
    {event : WorkflowRunEvent} (hcut : o = o₁ ++ event :: o₂)
    (ho₁ : Accepts K s.db r (o₁.flatMap nodes))
    (hrefused : ¬Accepts K s.db r ((o₁ ++ [event]).flatMap nodes)) (hx₁ : x = x₁ ++ x₂)
    {loc : Location} (hl : isTask loc) {n : List (Time × WorkflowRunEvent)}
    (hn : n.map Prod.snd = x₁ ++ (o ++ x₂)) :
    Interleaves o x (n.map Prod.snd) ∧
      ((SqliteRuntimeState.processEvents K r n s).db.nodeAt r loc).Same
        (((s.db.nodeAt r loc).fold K (x₁.flatMap (nodesAt loc))).fold K
          (o₁.flatMap (nodesAt loc))) := by
  have hi : Interleaves o₁ x₁ (x₁ ++ o₁) := by
    simpa using (Interleaves.right_alone x₁).append (.left_alone o₁)
  have hall : Interleaves o x (n.map Prod.snd) := by
    rw [hn, hx₁]
    simpa using (Interleaves.right_alone x₁).append
      ((Interleaves.left_alone o).append (.right_alone x₂))
  have hn' : n.map Prod.snd = (x₁ ++ o₁) ++ event :: (o₂ ++ x₂) := by
    rw [hn, hcut]
    simp
  have ho' : ∀ e ∈ o₁, FromOrchestrator isTask e := fun e he =>
    ho e (hcut ▸ List.mem_append_left _ he)
  have hx' : ∀ e ∈ x₁, FromExecutor isTask e := fun e he =>
    hx e (hx₁ ▸ List.mem_append_left _ he)
  refine ⟨hall, (nodeAt_cut hx hr ho₁ hrefused hx₁ hi hn' loc).trans ?_⟩
  rw [SqliteRuntimeState.after_of_task ho' hx' hl hi, List.flatMap_append, NodeTables.fold_append]
  exact .refl _

/-- When an event is refused, what the executors report in every order must be there already. -/
theorem idle_of_refused (hr : hasAttempt s.db r = true)
    (h : ∀ n n' : List (Time × WorkflowRunEvent), Interleaves o x (n.map Prod.snd) →
      Interleaves o x (n'.map Prod.snd) →
      Db.SameNodesOf r (SqliteRuntimeState.processEvents K r n s).db
        (SqliteRuntimeState.processEvents K r n' s).db)
    (ha : ¬Accepts K s.db r (o.flatMap nodes)) (x₁ : List WorkflowRunEvent) :
    ∀ x₂, x = x₁ ++ x₂ → ∀ e ∈ x₁.flatMap nodes, Idle K (s.db.nodeAt r e.loc) e := by
  obtain ⟨o₁, event, o₂, hcut, ho₁, hrefused⟩ := exists_first_refused
    (p := fun l => Accepts K s.db r (l.flatMap nodes)) (SqliteRuntimeState.accepts_nil hr) ha
  induction x₁ using List.reverseRecOn with
  | nil => simp
  | append_singleton x₁ report ih =>
    intro x₂ hx₁ e he
    have hx₁' : x = x₁ ++ report :: x₂ := by simpa using hx₁
    rw [List.flatMap_append, List.mem_append] at he
    rcases he with he | he
    · exact ih (report :: x₂) hx₁' e he
    have hmem : report ∈ x := hx₁' ▸ List.mem_append_right _ (.head _)
    obtain ⟨e', rfl, htask, hname, hreport⟩ := hx report hmem
    obtain rfl : e = e' := by simpa [nodes] using he
    have hbefore : ∀ e' ∈ x₁.flatMap (nodesAt e.loc), Idle K (s.db.nodeAt r e.loc) e' := by
      intro e' he'
      obtain ⟨hmem', hloc⟩ := mem_nodesAt.1 he'
      exact hloc ▸ ih (nodeEvents [e] :: x₂) hx₁' e' hmem'
    have hplans : ∀ e' ∈ o₁.flatMap (nodesAt e.loc), e'.status.isPlan = true :=
      SqliteRuntimeState.plans_of_orchestrator
        (fun e he => ho e (hcut ▸ List.mem_append_left _ he)) htask
    -- the report just after or just before the orchestrator's events
    obtain ⟨hi, hlate⟩ := nodeAt_reports_first ho hx hr hcut ho₁ hrefused hx₁' htask
      (n := (x₁ ++ (o ++ nodeEvents [e] :: x₂)).map (Prod.mk (0 : Time))) (by simp)
    obtain ⟨hi', hearly⟩ := nodeAt_reports_first ho hx hr hcut ho₁ hrefused hx₁ htask
      (n := (x₁ ++ [nodeEvents [e]] ++ (o ++ x₂)).map (Prod.mk (0 : Time))) (by simp)
    have hsame := (hlate.symm.trans (h _ _ hi hi' e.loc)).trans hearly
    have hone : (x₁ ++ [nodeEvents [e]]).flatMap (nodesAt e.loc) =
        x₁.flatMap (nodesAt e.loc) ++ [e] := by
      simp [nodesAt, nodes]
    rw [hone, NodeTables.fold_append, ← NodeTables.fold_append _ [e]] at hsame
    have hidle := fold_idle hbefore
    exact idle_of_plans hplans hname hreport
      (((hidle.fold _).symm.trans hsame).trans (hidle.fold _))

end Order

/-- The channels may be merged in any order exactly where the database needs no order. -/
theorem any_order_iff {isTask : Location → Prop} (K : Crates) (m : InMemoryRuntimeState)
    (s : SqliteRuntimeState) (r : RunAttempt) {o x : List WorkflowRunEvent}
    (ho : ∀ e ∈ o, FromOrchestrator isTask e) (hx : ∀ e ∈ x, FromExecutor isTask e) :
    AnyOrder K m s r o x ↔ (hasAttempt s.db r = true → OrderFree K s r o x) := by
  constructor
  · intro h hr
    refine ⟨fun ha e he => not_beginsPaused ho hx hr h.sqlite ha he, fun ha e he => ?_⟩
    obtain ⟨-, hname, hreport⟩ := report_of_mem hx he
    exact (idle_iff hname hreport).1
      (idle_of_refused ho hx hr h.sqlite ha x [] (by simp) e he)
  · intro h
    constructor
    · intro n n' hi hi'
      exact RunAttemptState.respects_handleNodeEvent.equiv.trans
        (InMemoryRuntimeState.sameNodes_processEvents ho hx m r hi)
        (RunAttemptState.respects_handleNodeEvent.equiv.symm
          (InMemoryRuntimeState.sameNodes_processEvents ho hx m r hi'))
    · intro n n' hi hi'
      cases hr : hasAttempt s.db r with
      | false =>
        rw [SqliteRuntimeState.processEvents_unknown hr, SqliteRuntimeState.processEvents_unknown hr]
        exact fun loc => .refl _
      | true => exact sameNodesOf_of_orderFree ho hx hr (h hr) hi hi'

/-- A task in a new run, which nothing has paused before it runs. -/
theorem any_order_iff_scheduled :
    let o : List WorkflowRunEvent := [.nodeEvents [⟨[.node 0], none, .scheduled none⟩]]
    let x : List WorkflowRunEvent := [.nodeEvents [⟨[.node 0], none, .running none⟩]]
    AnyOrder .zeroFill .startedRun .startedRun (0, 0) o x ↔
      (hasAttempt SqliteRuntimeState.startedRun.db (0, 0) = true →
        OrderFree .zeroFill .startedRun (0, 0) o x) :=
  @any_order_iff (fun _ => True) .zeroFill .startedRun .startedRun (0, 0) _ _
    (by simp [FromOrchestrator, nodes, NodeStatus.isPlan])
    (by simp [FromExecutor, NodeStatus.isReport])

/-- A pause and a report of the same task, in either order: a report that comes first makes the
row, and the pause is lost. -/
theorem not_any_order :
    ¬AnyOrder .zeroFill .startedRun .startedRun (0, 0)
      [.nodeEvents [⟨[.node 0], none, .paused⟩]]
      [.nodeEvents [⟨[.node 0], none, .running none⟩]] := by
  intro h
  have hi : Interleaves [WorkflowRunEvent.nodeEvents [⟨[.node 0], none, .paused⟩]]
      [.nodeEvents [⟨[.node 0], none, .running none⟩]]
      [.nodeEvents [⟨[.node 0], none, .paused⟩], .nodeEvents [⟨[.node 0], none, .running none⟩]] :=
    .left _ (.right _ .nil)
  have hi' : Interleaves [WorkflowRunEvent.nodeEvents [⟨[.node 0], none, .paused⟩]]
      [.nodeEvents [⟨[.node 0], none, .running none⟩]]
      [.nodeEvents [⟨[.node 0], none, .running none⟩], .nodeEvents [⟨[.node 0], none, .paused⟩]] :=
    .right _ (.left _ .nil)
  have hsame := (h.sqlite [(1, _), (2, _)] [(1, _), (2, _)] hi hi' [.node 0]).plain
  have hpause := congrArg (Option.bind · NodeRow.pausedTime) hsame
  revert hpause
  decide +kernel

end Tierkreis
