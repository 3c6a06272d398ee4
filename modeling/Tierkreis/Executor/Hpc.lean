import Tierkreis.Executor.Interface
import Tierkreis.Lib.Run

/-!
# The HPC executor

`execute` submits the tasks of a batch one by one to a batch scheduler and hands
the jobs to a loop, which registers them, polls the scheduler and carries out
cancel requests. A task with the handle of an earlier job is reattached to that
job.
-/

namespace Tierkreis

open Lib Lib.Run

inductive SchedulerStatus where
  | queued
  | running
  | complete
  | cancelled
  | error (message : String)
  deriving DecidableEq

/-- A job on its way to the loop, and later under its watch. `number` counts the dispatches of
its task and `reattached` tells a job of an earlier executor; the code has neither. -/
structure BackgroundTaskPlan where
  key : TaskKey
  outputs : Specs
  outputStorageName : String
  jobId : TaskHandle
  number : Nat
  reattached : Bool

/-- A cancel request counts the dispatches before it. -/
inductive TaskRegistration where
  | watching (task : BackgroundTaskPlan) (status : Option SchedulerStatus)
  | cancelBeforeRegistration (request : Nat)

/-- `executing` is the rest of the batch, with the number of each task, as `execute` is awaited
before it is called again. `told` keeps the outputs that the worker of each job was told to
write, `cancelled` the numbers of each task and request that met at the scheduler. -/
structure HpcExecutor where
  outputStorageName : String
  told : HashMap TaskHandle Specs
  executing : List (TaskPlan × Nat) := []
  tasks : List BackgroundTaskPlan := []
  cancels : List (TaskKey × Nat) := []
  jobHandles : HashMap TaskKey TaskRegistration := ∅
  events : List RuntimeEvent := []
  dispatched : List TaskKey := []
  submitted : List TaskKey := []
  cancelled : List (Nat × Nat) := []
  panicked : Bool := false

/-- What the surroundings answer to `execute`: the assets reserved for the outputs, with the
temporary files in place; the answer of `check`; the id of the submitted job. -/
structure Submission where
  reserved : Result (List AssetSpec)
  checked : Result (HashMap TaskHandle SchedulerStatus)
  submitted : Result TaskHandle

namespace HpcExecutor

/-! ## The batch -/

def isJobActive (checked : Result (HashMap TaskHandle SchedulerStatus)) (jobId : TaskHandle) :
    Result TaskHandle := do
  match (← checked).get? jobId with
  | some .queued | some .complete | some .running => pure jobId
  | some .cancelled => .error (.miette "Job was cancelled")
  | some (.error message) => .error (.miette s!"Job errored: {message}")
  | none => .error (.miette "Job not active")

def jobOf (plan : TaskPlan) (a : Submission) : Result TaskHandle :=
  match plan.taskHandle with
  | some jobId => isJobActive a.checked jobId
  | none => a.submitted

/-- One round of `execute`. The outputs are reserved before it is known which job runs. -/
def backgroundTaskPlan (s : HpcExecutor) (plan : TaskPlan) (number : Nat) (a : Submission) :
    Result BackgroundTaskPlan := do
  let specs ← a.reserved
  let jobId ← jobOf plan a
  pure {
    key := plan.key
    outputs := .ofList (plan.outputs.zip specs)
    outputStorageName := s.outputStorageName
    jobId := jobId
    number := number
    reattached := plan.taskHandle.isSome }

def enqueue (s : HpcExecutor) (task : BackgroundTaskPlan) : HpcExecutor :=
  { s with
    tasks := s.tasks ++ [task]
    submitted := s.submitted ++ [task.key]
    told := if task.reattached then s.told else s.told.insert task.jobId task.outputs }

/-- The tasks of a batch with their numbers. -/
def numbered : List TaskKey → List TaskPlan → List (TaskPlan × Nat)
  | _, [] => []
  | dispatched, plan :: plans =>
    (plan, dispatched.count plan.key + 1) :: numbered (dispatched ++ [plan.key]) plans

/-! ## The loop -/

def processCancelledTask (s : HpcExecutor) (key : TaskKey) (request : Nat)
    (cancelled : Result Unit) : HpcExecutor :=
  match s.jobHandles.get? key with
  | some (.watching task _) =>
    { s with
      jobHandles := s.jobHandles.erase key
      cancelled := s.cancelled ++ [(task.number, request)]
      panicked := !cancelled.isOk }
  | some (.cancelBeforeRegistration _) => { s with jobHandles := s.jobHandles.erase key }
  | none => { s with jobHandles := s.jobHandles.insert key (.cancelBeforeRegistration request) }

def monitorTask (s : HpcExecutor) (task : BackgroundTaskPlan) (cancelled : Result Unit) :
    HpcExecutor :=
  let t := { s with
    events := s.events ++ [sendQueued task.key (some task.jobId)]
    jobHandles := s.jobHandles.insert task.key (.watching task none) }
  match s.jobHandles.get? task.key with
  | some (.cancelBeforeRegistration request) =>
    let t := { t with cancelled := t.cancelled ++ [(task.number, request)] }
    match cancelled with
    | .ok () => t
    | .error err => { t with events := t.events ++ [sendError task.key err] }
  | _ => t

def finishedStatus (status : SchedulerStatus) (transferred : Result Specs) (key : TaskKey) :
    Result RuntimeEvent :=
  match status with
  | .complete =>
    match transferred with
    | .ok outputs => pure (sendComplete key outputs)
    | .error err => pure (sendError key err)
  | .cancelled => pure (sendCancelled key)
  | .error message => pure (sendError key (.miette message))
  | .queued | .running => .error (.panic "internal error: entered unreachable code")

def processFinishedTask (s : HpcExecutor) (task : BackgroundTaskPlan) (status : SchedulerStatus)
    (transferred : Result Specs) : Result HpcExecutor := do
  let event ← finishedStatus status transferred task.key
  pure { s with jobHandles := s.jobHandles.erase task.key, events := s.events ++ [event] }

/-- A job that is not over yet. -/
def checkActive (s : HpcExecutor) (key : TaskKey) (status : SchedulerStatus) : Result HpcExecutor :=
  match s.jobHandles.get? key with
  | none => .error (.panic "job handle must exist")
  | some (.cancelBeforeRegistration _) => pure s
  | some (.watching task previous) => pure { s with
      events :=
        if status = .running ∧ previous ≠ some .running then s.events ++ [sendRunning task.key]
        else s.events
      jobHandles := s.jobHandles.insert key (.watching task (some status)) }

/-- A job that is over. -/
def checkFinished (s : HpcExecutor) (key : TaskKey) (status : SchedulerStatus)
    (transfer : TaskKey → Specs → Result Specs) : Result HpcExecutor :=
  let t := { s with jobHandles := s.jobHandles.erase key }
  match s.jobHandles.get? key with
  | some (.watching task _) => t.processFinishedTask task status (transfer key task.outputs)
  | _ => pure t

def checkJob (statuses : HashMap TaskHandle SchedulerStatus)
    (transfer : TaskKey → Specs → Result Specs) (s : HpcExecutor) (job : TaskKey × TaskHandle) :
    Result HpcExecutor :=
  match statuses.get? job.2 with
  | none => pure s
  | some .queued => s.checkActive job.1 .queued
  | some .running => s.checkActive job.1 .running
  | some status => s.checkFinished job.1 status transfer

/-- The jobs that are watched. -/
def jobs (s : HpcExecutor) : List (TaskKey × TaskHandle) :=
  s.jobHandles.toList.filterMap fun e =>
    match e.2 with
    | .watching task _ => some (e.1, task.jobId)
    | .cancelBeforeRegistration _ => none

/-- `checked` is what the scheduler answers, if it does. -/
def checkJobs (s : HpcExecutor) (checked : Option (HashMap TaskHandle SchedulerStatus))
    (transfer : TaskKey → Specs → Result Specs) : Result HpcExecutor :=
  match checked with
  | none => pure s
  | some statuses => s.jobs.foldlM (checkJob statuses transfer) s

/-! ## Steps -/

inductive Label where
  | execute (plans : List TaskPlan)
  | submit (a : Submission)
  | cancel (key : TaskKey)
  /-- `cancelled` is what the scheduler answers, if it is asked. -/
  | processCancelled (cancelled : Result Unit)
  | monitor (cancelled : Result Unit)
  /-- `transfer` is what `transfer_assets` gives for the outputs of a task. -/
  | poll (checked : Option (HashMap TaskHandle SchedulerStatus))
      (transfer : TaskKey → Specs → Result Specs)

inductive Step : HpcExecutor → Label → HpcExecutor → Prop
  | execute {s : HpcExecutor} (plans : List TaskPlan) (h : s.executing = []) :
      Step s (.execute plans)
        { s with
          executing := numbered s.dispatched plans
          dispatched := s.dispatched ++ plans.map TaskPlan.key }
  | submit {s : HpcExecutor} {plan : TaskPlan} {number : Nat} {rest : List (TaskPlan × Nat)}
      {task : BackgroundTaskPlan} (a : Submission) (h : s.executing = (plan, number) :: rest)
      (ht : s.backgroundTaskPlan plan number a = .ok task) :
      Step s (.submit a) ({ s with executing := rest }.enqueue task)
  /-- The tasks after it are not submitted. -/
  | submitFails {s : HpcExecutor} {plan : TaskPlan} {number : Nat} {rest : List (TaskPlan × Nat)}
      {err : Failure} (a : Submission) (h : s.executing = (plan, number) :: rest)
      (ht : s.backgroundTaskPlan plan number a = .error err) :
      Step s (.submit a) { s with executing := [] }
  | cancel {s : HpcExecutor} (key : TaskKey) :
      Step s (.cancel key) { s with cancels := s.cancels ++ [(key, s.dispatched.count key)] }
  | processCancelled {s : HpcExecutor} {key : TaskKey} {request : Nat}
      {cancels : List (TaskKey × Nat)} (cancelled : Result Unit) (hp : s.panicked = false)
      (h : s.cancels = (key, request) :: cancels) :
      Step s (.processCancelled cancelled)
        ({ s with cancels := cancels }.processCancelledTask key request cancelled)
  | monitor {s : HpcExecutor} {task : BackgroundTaskPlan} {tasks : List BackgroundTaskPlan}
      (cancelled : Result Unit) (hp : s.panicked = false) (h : s.tasks = task :: tasks) :
      Step s (.monitor cancelled) ({ s with tasks := tasks }.monitorTask task cancelled)
  | poll {s t : HpcExecutor} (checked : Option (HashMap TaskHandle SchedulerStatus))
      (transfer : TaskKey → Specs → Result Specs) (hp : s.panicked = false)
      (ht : s.checkJobs checked transfer = .ok t) : Step s (.poll checked transfer) t
  | pollPanics {s : HpcExecutor} {err : Failure}
      (checked : Option (HashMap TaskHandle SchedulerStatus))
      (transfer : TaskKey → Specs → Result Specs) (hp : s.panicked = false)
      (ht : s.checkJobs checked transfer = .error err) :
      Step s (.poll checked transfer) { s with panicked := true }

end HpcExecutor

end Tierkreis
