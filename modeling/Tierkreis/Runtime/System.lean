import Tierkreis.Orchestrator.Perform
import Tierkreis.Lib.Run

/-!
# The runtime as a transition system

One process: the loop that plans the active attempts, the loop that writes
events to the store, the executors, and whoever else calls the store. The loops
run concurrently: a planning pass sees, at each of its reads, any state that the
store had since the pass began, and the events of the orchestrator and of the
executors reach the store in any order that keeps those of the orchestrator in
theirs.
-/

namespace Tierkreis

open Lib

/-- What the runtime uses a store through. `admin` covers the calls that no loop of the
runtime makes: new runs and new attempts. -/
class RuntimeState (σ : Type) extends WorkflowRunState σ where
  activeRuns : σ → Finset RunAttempt
  loadWorkflow : σ → RunAttempt → Result WorkflowGraph
  write : σ → RunAttempt → Time → WorkflowRunEvent → Result Unit × σ
  unpause : σ → RunAttempt → Time → List Location → Result Unit × σ
  admin : σ → σ → Prop
  /-- The store as the next process finds it. -/
  reopen : σ → σ

/-- The context of an active attempt, with the parts that its copies share. -/
structure RunContext where
  context : OrchestrationContext
  scheduled : List Location := []
  cache : HashMap Location WorkflowGraph := ∅

/-- The fixed parts of a process. `executes` says what an executor may report of a task
that it was handed, and which assets it leaves. -/
structure Runtime where
  orchestrator : Orchestrator
  executors : List String
  profiles : RunAttempt → Result (Option ResourceProfiles)
  executes : TaskPlan → Assets → NodeStatus → Assets → Prop

/-- `todo` holds the attempts that the planning loop has yet to plan in its round, and
`seen` the states of the store before the current one since the first of them could begin.
`dispatched` lists the tasks handed to executors in this process. -/
structure System (σ : Type) where
  store : σ
  assets : Assets
  contexts : HashMap RunAttempt RunContext := ∅
  todo : List RunAttempt := []
  seen : List σ := []
  orchestratorEvents : List RuntimeEvent := []
  executorEvents : List RuntimeEvent := []
  inFlight : List TaskPlan := []
  dispatched : List TaskPlan := []
  planning : Bool := true
  processing : Bool := true

namespace System

variable {σ : Type} [RuntimeState σ]

/-- Replace the store, and remember the state that a pass may have read. -/
def setStore (s : System σ) (store : σ) : System σ :=
  { s with store := store, seen := s.store :: s.seen }

/-- The state that read `p` of a pass sees. -/
def view (s : System σ) (points : ReadPoint → Nat) (p : ReadPoint) : σ :=
  (s.store :: s.seen).getD (points p) s.store

/-- The states of the store that the current pass can read. -/
def readable (s : System σ) : List σ := s.store :: s.seen

omit [RuntimeState σ] in
theorem view_mem (s : System σ) (points : ReadPoint → Nat) (p : ReadPoint) :
    s.view points p ∈ s.readable := by
  unfold view readable
  rw [List.getD_eq_getElem?_getD]
  cases h : (s.store :: s.seen)[points p]? with
  | none => exact .head _
  | some x => exact List.mem_of_getElem? h

/-- The context of an attempt: the one it has, or a fresh one. -/
def contextFor (R : Runtime) (s : System σ) (r : RunAttempt) : Result RunContext :=
  match s.contexts.get? r with
  | some c => pure c
  | none => do
    let profiles ← R.profiles r
    pure { context := { profiles := profiles } }

def event (r : RunAttempt) (e : WorkflowRunEvent) : RuntimeEvent :=
  { workflowRunId := r.1, attempt := r.2, event := e }

/-- An executor takes tasks. -/
def take (s : System σ) (tasks : List TaskPlan) : System σ :=
  { s with inFlight := s.inFlight ++ tasks, dispatched := s.dispatched ++ tasks }

/-- Carry out the effects of a plan one by one, up to the first that fails. An executor takes
the tasks of a batch in turn, and `refused` says after how many of them its call fails. -/
def perform (R : Runtime) (r : RunAttempt) (refused : String → Option Nat) :
    List Effect → System σ → System σ
  | [], s => s
  | .send e :: effects, s =>
    perform R r refused effects
      { s with orchestratorEvents := s.orchestratorEvents ++ [event r e] }
  | .execute name tasks :: effects, s =>
    if name ∈ R.executors then
      match refused name with
      | none => perform R r refused effects (s.take tasks)
      | some n => { s.take (tasks.take n) with planning := false }
    else { s with planning := false }

/-- The state after the planning of an attempt: its context is kept, and the reads of the
next pass begin. -/
def planned (s : System σ) (r : RunAttempt) (c : RunContext) (t : PlanState) : System σ :=
  { s with
    assets := t.assets
    contexts := s.contexts.insert r { c with scheduled := t.scheduled, cache := t.cache }
    todo := s.todo.tail
    seen := [] }

/-- Write an event to the store. An `Err` ends the processing of events. -/
def deliver (s : System σ) (now : Time) (e : RuntimeEvent) : System σ :=
  match RuntimeState.write s.store (e.workflowRunId, e.attempt) now e.event with
  | (.ok (), store) => s.setStore store
  | (.error _, store) => { s.setStore store with processing := false }

end System

section Step

variable {σ : Type} [RuntimeState σ] (R : Runtime)

/-- The pass that plans an attempt. -/
def System.pass (s : System σ) (r : RunAttempt) (points : ReadPoint → Nat) : Pass σ where
  run := r
  view := s.view points

/-- A pass that succeeds: its context, its graph, its actions and the state it leaves. -/
structure Planned (s : System σ) (r : RunAttempt) (points : ReadPoint → Nat) (c : RunContext)
    (g : WorkflowGraph) (actions : List Action) (t : PlanState) : Prop where
  context : s.contextFor R r = .ok c
  graph : RuntimeState.loadWorkflow s.store r = .ok g
  build : ∃ fuel, buildActions R.orchestrator (s.pass r points) fuel c.context g
    ⟨c.scheduled, c.cache, s.assets⟩ = .ok (actions, t)

inductive Label where
  /-- A new round of the planning loop. -/
  | wake (todo : List RunAttempt)
  /-- Plan the next attempt of the round and perform its actions. -/
  | plan (points : ReadPoint → Nat) (actions : List Action)
      (refused : String → Option Nat)
  /-- The planning loop ends with an error. -/
  | fail
  /-- Write the next event of the orchestrator. -/
  | process (now : Time)
  /-- Write an event of an executor. -/
  | processReport (index : Nat) (now : Time)
  /-- An executor reports on a task. -/
  | report (index : Nat) (status : NodeStatus) (assets : Assets)
  /-- A user unpauses nodes. -/
  | unpause (r : RunAttempt) (locations : List Location) (now : Time)
  /-- A user writes an event of the run itself. -/
  | record (r : RunAttempt) (event : WorkflowRunEvent) (now : Time)
  /-- New runs and attempts. -/
  | admin
  /-- The process ends and the next one begins. -/
  | restart

/-- Take a report of an executor into its events; a task that is over leaves. -/
def System.reported (s : System σ) (index : Nat) (task : TaskPlan) (status : NodeStatus)
    (assets : Assets) : System σ :=
  { s with
    assets := assets
    executorEvents := s.executorEvents ++
      [System.event task.run (.nodeEvents [{ loc := task.loc, name := none, status := status }])]
    inFlight := if status.isTerminal then s.inFlight.eraseIdx index else s.inFlight }

inductive Step : System σ → Label → System σ → Prop
  | wake {s : System σ} {todo : List RunAttempt} (hp : s.planning = true) (h : s.todo = [])
      (ht : ∀ r, r ∈ todo ↔ r ∈ RuntimeState.activeRuns s.store) (hn : todo.Nodup) :
      Step s (.wake todo) { s with
        todo := todo
        contexts := s.contexts.filterMap fun r c =>
          if r ∈ RuntimeState.activeRuns s.store then some c else none
        seen := [] }
  | plan {s : System σ} {r : RunAttempt} {rs : List RunAttempt} {points : ReadPoint → Nat}
      {c : RunContext} {g : WorkflowGraph} {actions performed : List Action} {t : PlanState}
      {refused : String → Option Nat} (hp : s.planning = true) (h : s.todo = r :: rs)
      (hb : Planned R s r points c g actions t) (hperm : performed.Perm actions) :
      Step s (.plan points performed refused)
        (System.perform R r refused
          (ActionPlan.ofActions R.orchestrator r performed).effects (s.planned r c t))
  | fail {s : System σ} (hp : s.planning = true) (h : s.todo ≠ []) :
      Step s .fail { s with planning := false }
  | process {s : System σ} {e : RuntimeEvent} {es : List RuntimeEvent} {now : Time}
      (hp : s.processing = true) (h : s.orchestratorEvents = e :: es) :
      Step s (.process now) ({ s with orchestratorEvents := es }.deliver now e)
  | processReport {s : System σ} {e : RuntimeEvent} {index : Nat} {now : Time}
      (hp : s.processing = true) (h : s.executorEvents[index]? = some e) :
      Step s (.processReport index now)
        ({ s with executorEvents := s.executorEvents.eraseIdx index }.deliver now e)
  | report {s : System σ} {index : Nat} {task : TaskPlan} {status : NodeStatus} {assets : Assets}
      (h : s.inFlight[index]? = some task) (hs : status.isReport = true)
      (he : R.executes task s.assets status assets) :
      Step s (.report index status assets) (s.reported index task status assets)
  | unpause {s : System σ} {r : RunAttempt} {locations : List Location} {now : Time} :
      Step s (.unpause r locations now)
        (s.setStore (RuntimeState.unpause s.store r now locations).2)
  | record {s : System σ} {r : RunAttempt} {e : WorkflowRunEvent} {now : Time}
      (h : ∀ events, e ≠ .nodeEvents events) :
      Step s (.record r e now) (s.setStore (RuntimeState.write s.store r now e).2)
  | admin {s : System σ} {store : σ} (h : RuntimeState.admin s.store store) :
      Step s .admin (s.setStore store)
  | restart {s : System σ} {inFlight : List TaskPlan} (h : inFlight.Sublist s.inFlight) :
      Step s .restart
        { store := RuntimeState.reopen s.store, assets := s.assets, inFlight := inFlight }

/-! ## What steps do -/

/-- One call that changes a store. -/
inductive StoreStep (st : σ) : σ → Prop
  | write (r : RunAttempt) (now : Time) (e : WorkflowRunEvent) :
      StoreStep st (RuntimeState.write st r now e).2
  | unpause (r : RunAttempt) (now : Time) (locations : List Location) :
      StoreStep st (RuntimeState.unpause st r now locations).2
  | admin {st' : σ} (h : RuntimeState.admin st st') : StoreStep st st'

namespace System

variable {R}

omit [RuntimeState σ] in
/-- Carrying out effects sends some of their events and hands over some of their tasks, in
order. -/
theorem perform_spec (r : RunAttempt) (refused : String → Option Nat) (effects : List Effect) :
    ∀ s : System σ, ∃ events tasks planning,
      events <+: effects.filterMap Effect.event? ∧ tasks <+: effects.flatMap Effect.tasks ∧
      perform R r refused effects s = { s with
        orchestratorEvents := s.orchestratorEvents ++ events.map (event r)
        inFlight := s.inFlight ++ tasks
        dispatched := s.dispatched ++ tasks
        planning := planning } := by
  induction effects with
  | nil => exact fun s => ⟨[], [], s.planning, List.nil_prefix, List.nil_prefix, by simp [perform]⟩
  | cons e effects ih =>
    intro s
    cases e with
    | send e =>
      obtain ⟨events, tasks, planning, he, ht, h⟩ :=
        ih { s with orchestratorEvents := s.orchestratorEvents ++ [event r e] }
      refine ⟨e :: events, tasks, planning, ?_, ht, ?_⟩
      · exact List.cons_prefix_cons.2 ⟨rfl, he⟩
      · rw [perform, h]
        simp
    | execute name tasks =>
      rw [perform]
      split
      · split
        · obtain ⟨events, tasks', planning, he, ht, h⟩ := ih (s.take tasks)
          refine ⟨events, tasks ++ tasks', planning, he, ?_, ?_⟩
          · exact List.prefix_append_right_inj _ |>.2 ht
          · rw [h]
            simp [take]
        · rename_i n _
          refine ⟨[], tasks.take n, false, List.nil_prefix, ?_, by simp [take]⟩
          exact (List.take_prefix n tasks).trans (List.prefix_append _ _)
      · exact ⟨[], [], false, List.nil_prefix, List.nil_prefix, by simp⟩

/-- A delivery changes the store by a write, and may end the processing of events. -/
theorem deliver_spec (s : System σ) (now : Time) (e : RuntimeEvent) :
    ∃ processing, s.deliver now e =
      { s.setStore (RuntimeState.write s.store (e.workflowRunId, e.attempt) now e.event).2 with
        processing := processing } := by
  unfold deliver
  split
  · rename_i h
    rw [h]
    exact ⟨s.processing, rfl⟩
  · rename_i h
    rw [h]
    exact ⟨false, rfl⟩

end System

end Step

end Tierkreis
