import Tierkreis.Orchestrator.Plan

/-!
# Performing actions

The actions of a pass are sorted by kind, and then carried out in a fixed order:
events first, tasks after the events that announce them, the state of the
workflow last.
-/

namespace Tierkreis

open Lib

structure TaskPlan where
  run : RunAttempt
  loc : Location
  executionContext : Option String
  workerName : String
  taskName : String
  inputs : Specs
  outputs : List String
  outputStorageName : Option String
  resources : HashMap String Json
  environment : HashMap String Json
  taskHandle : Option TaskHandle

def TaskPlan.key (task : TaskPlan) : RunAttempt × Location := (task.run, task.loc)

inductive SetWorkflowState where
  | paused
  | errored
  | completed

/-- `tasks` by the name of their executor. -/
structure ActionPlan where
  tasks : HashMap String (List TaskPlan) := ∅
  pause : List Location := []
  switching : List (Location × Bool) := []
  evalling : List (Location × Specs) := []
  looping : List (Location × Nat × Specs × Option String) := []
  mapping : List (Location × List Specs) := []
  mapElemComplete : HashMap Location (List Bool) := ∅
  nodeComplete : List (Location × Specs) := []
  setWorkflowState : Option SetWorkflowState := none

def taskPlan (O : Orchestrator) (run : RunAttempt) (loc : Location) (workerName taskName : String)
    (inputs : Specs) (outputs : List String) (taskHandle : Option TaskHandle)
    (resolved : ResolvedContext) : TaskPlan where
  run := run
  loc := loc
  executionContext := resolved.name
  workerName := workerName
  taskName := taskName
  inputs := inputs
  outputs := outputs
  outputStorageName := some O.defaultStorageName
  resources := resolved.resources
  environment := resolved.environment
  taskHandle := taskHandle

namespace ActionPlan

/-- Sort one action into the plan. The last state set for the workflow stays. -/
def add (O : Orchestrator) (run : RunAttempt) (plan : ActionPlan) (a : Action) : ActionPlan :=
  match a.kind with
  | .performTask workerName taskName inputs outputs taskHandle resolved =>
    let task := taskPlan O run a.loc workerName taskName inputs outputs taskHandle resolved
    { plan with
      tasks := plan.tasks.modify [] (resolved.executor.getD O.defaultExecutorName) (· ++ [task]) }
  | .setPaused => { plan with pause := plan.pause ++ [a.loc] }
  | .setSwitching cond => { plan with switching := plan.switching ++ [(a.loc, cond)] }
  | .setRunningEval inputs => { plan with evalling := plan.evalling ++ [(a.loc, inputs)] }
  | .setRunningLoop index inputs name =>
    { plan with looping := plan.looping ++ [(a.loc, index, inputs, name)] }
  | .setRunningMap inputSets => { plan with mapping := plan.mapping ++ [(a.loc, inputSets)] }
  | .setMapElemComplete size index =>
    { plan with
      mapElemComplete := plan.mapElemComplete.modify (List.replicate size false) a.loc
        (·.set index true) }
  | .setComplete outputs => { plan with nodeComplete := plan.nodeComplete ++ [(a.loc, outputs)] }
  | .workflowPaused => { plan with setWorkflowState := some .paused }
  | .workflowErrored => { plan with setWorkflowState := some .errored }
  | .workflowCompleted => { plan with setWorkflowState := some .completed }

def ofActions (O : Orchestrator) (run : RunAttempt) (actions : List Action) : ActionPlan :=
  actions.foldl (add O run) {}

end ActionPlan

/-- One step of carrying out a plan: send an event, or hand tasks to an executor. -/
inductive Effect where
  | send (event : WorkflowRunEvent)
  | execute (executor : String) (tasks : List TaskPlan)

def SetWorkflowState.event : SetWorkflowState → WorkflowRunEvent
  | .paused => .paused
  | .errored => .errored
  | .completed => .completed

namespace ActionPlan

/-- Send an event of one node. -/
def sendNode (loc : Location) (name : Option String) (status : NodeStatus) : Effect :=
  .send (.nodeEvents [{ loc := loc, name := name, status := status }])

def sendComplete (plan : ActionPlan) : List Effect :=
  if plan.nodeComplete.isEmpty then []
  else [.send (.nodeEvents (plan.nodeComplete.map fun c =>
    { loc := c.1, name := none, status := .complete c.2 }))]

def sendPaused (plan : ActionPlan) : List Effect :=
  if plan.pause.isEmpty then []
  else [.send (.nodeEvents (plan.pause.map fun loc =>
    { loc := loc, name := none, status := .paused }))]

/-- The running events, by kind. -/
def sendRunning (plan : ActionPlan) : List Effect :=
  (plan.evalling.map fun e => sendNode e.1 none (.running (some (.evalling e.2)))) ++
  (plan.mapping.map fun e => sendNode e.1 none (.running (some (.mapStarted e.2)))) ++
  (plan.mapElemComplete.toList.map fun e =>
    sendNode e.1 none (.running (some (.mapElemComplete e.2)))) ++
  (plan.looping.map fun e =>
    sendNode e.1 e.2.2.2 (.running (some (.looping e.2.1 e.2.2.1)))) ++
  plan.switching.map fun e => sendNode e.1 none (.running (some (.switching e.2)))

/-- The tasks of one executor: each is announced, then all are handed over. -/
def executeTasks (executor : String) (tasks : List TaskPlan) : List Effect :=
  (tasks.map fun t => sendNode t.loc none (.scheduled t.executionContext)) ++ [.execute executor tasks]

def effects (plan : ActionPlan) : List Effect :=
  plan.sendComplete ++ plan.sendPaused ++ plan.sendRunning ++
  (plan.tasks.toList.flatMap fun e => executeTasks e.1 e.2) ++
  (plan.setWorkflowState.toList.map fun s => .send s.event)

/-! ## The tasks of a plan -/

/-- The task of an action, if it has one. -/
def taskOf (O : Orchestrator) (run : RunAttempt) (a : Action) : Option TaskPlan :=
  match a.kind with
  | .performTask workerName taskName inputs outputs taskHandle resolved =>
    some (taskPlan O run a.loc workerName taskName inputs outputs taskHandle resolved)
  | _ => none

def allTasks (plan : ActionPlan) : List TaskPlan := plan.tasks.toList.flatMap Prod.snd

theorem allTasks_add (O : Orchestrator) (run : RunAttempt) (plan : ActionPlan) (a : Action) :
    (add O run plan a).allTasks.Perm (plan.allTasks ++ (taskOf O run a).toList) := by
  unfold add taskOf
  cases a.kind with
  | performTask => exact HashMap.flatMap_modify_append _ _ _
  | _ =>
    rw [Option.toList_none, List.append_nil]
    exact .refl _

/-- The tasks of a plan are those of its actions. -/
theorem allTasks_ofActions (O : Orchestrator) (run : RunAttempt) (actions : List Action) :
    (ofActions O run actions).allTasks.Perm (actions.filterMap (taskOf O run)) := by
  suffices h : ∀ plan : ActionPlan, (actions.foldl (add O run) plan).allTasks.Perm
      (plan.allTasks ++ actions.filterMap (taskOf O run)) from h {}
  induction actions with
  | nil => exact fun plan => by simp
  | cons a actions ih =>
    intro plan
    refine (ih _).trans ?_
    have h := (allTasks_add O run plan a).append_right (actions.filterMap (taskOf O run))
    rw [List.append_assoc] at h
    cases ha : taskOf O run a <;> simpa [ha] using h

end ActionPlan

/-- The tasks that an effect hands over. -/
def Effect.tasks : Effect → List TaskPlan
  | .send _ => []
  | .execute _ tasks => tasks

/-- The event that an effect sends. -/
def Effect.event? : Effect → Option WorkflowRunEvent
  | .send e => some e
  | .execute .. => none

namespace ActionPlan

theorem tasks_sendNodes {α : Type} (l : List α) (f : α → NodeEvent) :
    (l.map fun x => Effect.send (.nodeEvents [f x])).flatMap Effect.tasks = [] := by
  rw [List.flatMap_eq_nil_iff]
  intro e he
  obtain ⟨x, -, rfl⟩ := List.mem_map.1 he
  rfl

/-- The effects of a plan hand over its tasks. -/
theorem tasks_effects (plan : ActionPlan) : plan.effects.flatMap Effect.tasks = plan.allTasks := by
  have hc : plan.sendComplete.flatMap Effect.tasks = [] := by
    unfold sendComplete
    split_ifs <;> rfl
  have hp : plan.sendPaused.flatMap Effect.tasks = [] := by
    unfold sendPaused
    split_ifs <;> rfl
  have hr : plan.sendRunning.flatMap Effect.tasks = [] := by
    simp only [sendRunning, sendNode, List.flatMap_append, tasks_sendNodes, List.append_nil]
  have hw : (plan.setWorkflowState.toList.map fun s => Effect.send s.event).flatMap Effect.tasks =
      [] := by
    cases plan.setWorkflowState <;> rfl
  rw [effects, List.flatMap_append, List.flatMap_append, List.flatMap_append, List.flatMap_append,
    hc, hp, hr, hw, List.append_nil, List.nil_append, List.nil_append, List.nil_append,
    List.flatMap_assoc, allTasks]
  refine List.flatMap_congr fun e _ => ?_
  rw [executeTasks, List.flatMap_append]
  simp only [sendNode, tasks_sendNodes, List.nil_append]
  simp [Effect.tasks]

end ActionPlan

end Tierkreis
