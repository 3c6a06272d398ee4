import Tierkreis.Executor.Interface
import Tierkreis.Lib.Run

/-!
# The Nexus executor

A registered job is followed by a spawned future that reads the status stream of
the job to its end. The loop then asks for the job once more and reports on it.
A job that was to be cancelled before its registration is cancelled by a request
that the loop sends to itself.
-/

namespace Tierkreis

open Lib Lib.Run

namespace NexusExecutor

inductive StatusEnum where
  | submitted
  | queued
  | running
  | completed
  | error
  | cancelling
  | cancelled
  | retrying
  | terminated
  | depleted
  deriving DecidableEq

def StatusEnum.debug : StatusEnum → String
  | submitted => "Submitted"
  | queued => "Queued"
  | running => "Running"
  | completed => "Completed"
  | error => "Error"
  | cancelling => "Cancelling"
  | cancelled => "Cancelled"
  | retrying => "Retrying"
  | terminated => "Terminated"
  | depleted => "Depleted"

/-- A job with the result ids of its items. -/
structure Job where
  status : StatusEnum
  statusMessage : String
  items : List (Option String)

/-- What the service and the storage answer while a finished task is processed. `results` joins
the chunks of a result. -/
structure Client where
  refreshTokens : Result Unit
  getJob : Result Job
  results : String → Result Bytes
  save : AssetSpec → Bytes → Result Unit

structure BackgroundTaskPlan where
  key : TaskKey
  jobId : TaskHandle
  outputs : Specs

inductive TaskRegistration where
  | watching (jobId : TaskHandle)
  | cancelBeforeRegistration

/-- Where the future that follows a job is. -/
inductive Monitor where
  | connecting
  | listening
  | closing
  | joined (result : Result Unit)

structure BackgroundTask where
  plan : BackgroundTaskPlan
  monitor : Monitor

end NexusExecutor

/-- `blocked` is the end of a loop that waits for itself. -/
structure NexusExecutor where
  tasks : List NexusExecutor.BackgroundTaskPlan := []
  cancels : List TaskKey := []
  jobHandles : HashMap TaskKey NexusExecutor.TaskRegistration := ∅
  running : List NexusExecutor.BackgroundTask := []
  events : List RuntimeEvent := []
  submitted : List TaskKey := []
  panicked : Bool := false
  blocked : Bool := false

namespace NexusExecutor

/-- The buffer of the channel of cancel requests. -/
def buffer : Nat := 64

def processCancelledTask (s : NexusExecutor) (key : TaskKey) (cancelled : Result Unit) :
    NexusExecutor :=
  match s.jobHandles.get? key with
  | some (.watching _) =>
    { s with jobHandles := s.jobHandles.erase key, panicked := !cancelled.isOk }
  | some .cancelBeforeRegistration => { s with jobHandles := s.jobHandles.erase key }
  | none => { s with jobHandles := s.jobHandles.insert key .cancelBeforeRegistration }

def saveItem (c : Client) (outputs : Specs) (item : Option String) : Result Unit := do
  let resultId ← okOr item "Item is complete but has no `result_id`"
  let result ← c.results resultId
  let output ← okOr (outputs.get? "results") "Missing output: `results`"
  c.save output result

/-- The event that is sent about a job whose status stream has ended. -/
def finishedEvent (c : Client) (task : BackgroundTaskPlan) : Result RuntimeEvent := do
  c.refreshTokens
  let job ← c.getJob
  match job.status with
  | .completed =>
    job.items.forM (saveItem c task.outputs)
    pure (sendComplete task.key task.outputs)
  | .cancelled => pure (sendCancelled task.key)
  | .error => pure (sendError task.key (.miette s!"Job failed with message: {job.statusMessage}"))
  | .depleted => pure (sendError task.key (.miette "Job is depleted"))
  | .terminated => pure (sendError task.key (.miette "Job was terminated"))
  | status =>
    pure (sendError task.key (.miette s!"Unexpected status for finished job: {status.debug}"))

/-- An error on the way is reported by the loop. -/
def processFinishedTask (s : NexusExecutor) (task : BackgroundTaskPlan) (c : Client) :
    NexusExecutor :=
  { s with
    jobHandles := s.jobHandles.erase task.key
    events := s.events ++ [
      match finishedEvent c task with
      | .ok event => event
      | .error err => sendError task.key err] }

/-- The error of the future is reported, and then the task is processed all the same. -/
def taskCompleted (s : NexusExecutor) (task : BackgroundTaskPlan) (result : Result Unit)
    (c : Client) : NexusExecutor :=
  match result with
  | .ok () => s.processFinishedTask task c
  | .error err =>
    { s with events := s.events ++ [sendError task.key err] }.processFinishedTask task c

/-- The loop waits until its own request fits into the buffer of the channel. -/
def monitorTask (s : NexusExecutor) (task : BackgroundTaskPlan) : NexusExecutor :=
  let t := { s with
    events := s.events ++ [sendQueued task.key (some task.jobId)]
    jobHandles := s.jobHandles.insert task.key (.watching task.jobId)
    running := s.running ++ [{ plan := task, monitor := .connecting }] }
  match s.jobHandles.get? task.key with
  | some .cancelBeforeRegistration =>
    { t with cancels := s.cancels ++ [task.key], blocked := decide (buffer ≤ s.cancels.length) }
  | _ => t

/-! ## The futures -/

def listenForJobStatus : Result Unit → Monitor
  | .ok () => .listening
  | .error err => .joined (.error (err.wrapErr "Failed to listen for job status"))

/-- The end of the stream is `none`. -/
def jobStatus (s : NexusExecutor) (index : Nat) (t : BackgroundTask)
    (answer : Result (Option StatusEnum)) : NexusExecutor :=
  match answer with
  | .error err => { s with
      running := s.running.set index
        { t with monitor := .joined (.error (err.wrapErr "Failed while listening for job status")) } }
  | .ok none => { s with running := s.running.set index { t with monitor := .connecting } }
  | .ok (some .submitted) | .ok (some .cancelling) | .ok (some .retrying) => s
  | .ok (some .queued) | .ok (some .running) =>
    { s with events := s.events ++ [sendRunning t.plan.key] }
  | .ok (some _) => { s with running := s.running.set index { t with monitor := .closing } }

def closeStream (answer : Result Unit) : Monitor :=
  .joined (answer.mapError (.wrapErr "Failed to close job status stream"))

/-! ## Steps -/

inductive Label where
  | submit (plan : BackgroundTaskPlan)
  | cancel (key : TaskKey)
  /-- `cancelled` is what the service answers, if it is asked. -/
  | processCancelled (cancelled : Result Unit)
  | monitor
  | listen (index : Nat) (answer : Result Unit)
  | status (index : Nat) (answer : Result (Option StatusEnum))
  | close (index : Nat) (answer : Result Unit)
  | joinFails (index : Nat) (err : Failure)
  | finish (index : Nat) (client : Client)

/-- The steps of the loop and of the futures. -/
def Label.isOwn : Label → Bool
  | submit _ | cancel _ => false
  | _ => true

/-- The loop takes its next turn. -/
def Runs (s : NexusExecutor) : Prop := s.panicked = false ∧ s.blocked = false

inductive Step : NexusExecutor → Label → NexusExecutor → Prop
  | submit {s : NexusExecutor} (plan : BackgroundTaskPlan) :
      Step s (.submit plan)
        { s with tasks := s.tasks ++ [plan], submitted := s.submitted ++ [plan.key] }
  | cancel {s : NexusExecutor} (key : TaskKey) :
      Step s (.cancel key) { s with cancels := s.cancels ++ [key] }
  | processCancelled {s : NexusExecutor} {key : TaskKey} {cancels : List TaskKey}
      (cancelled : Result Unit) (hr : s.Runs) (h : s.cancels = key :: cancels) :
      Step s (.processCancelled cancelled)
        ({ s with cancels := cancels }.processCancelledTask key cancelled)
  | monitor {s : NexusExecutor} {task : BackgroundTaskPlan} {tasks : List BackgroundTaskPlan}
      (hr : s.Runs) (h : s.tasks = task :: tasks) :
      Step s .monitor ({ s with tasks := tasks }.monitorTask task)
  | listen {s : NexusExecutor} {t : BackgroundTask} (index : Nat) (answer : Result Unit)
      (h : s.running[index]? = some t) (ht : t.monitor = .connecting) :
      Step s (.listen index answer)
        { s with running := s.running.set index { t with monitor := listenForJobStatus answer } }
  | status {s : NexusExecutor} {t : BackgroundTask} (index : Nat)
      (answer : Result (Option StatusEnum)) (h : s.running[index]? = some t)
      (ht : t.monitor = .listening) : Step s (.status index answer) (s.jobStatus index t answer)
  | close {s : NexusExecutor} {t : BackgroundTask} (index : Nat) (answer : Result Unit)
      (h : s.running[index]? = some t) (ht : t.monitor = .closing) :
      Step s (.close index answer)
        { s with running := s.running.set index { t with monitor := closeStream answer } }
  /-- The future panics. -/
  | joinFails {s : NexusExecutor} {t : BackgroundTask} (index : Nat) (err : Failure)
      (h : s.running[index]? = some t) (ht : ∀ result, t.monitor ≠ .joined result) :
      Step s (.joinFails index err)
        { s with running := s.running.set index { t with
          monitor := .joined (.error (err.wrapErr "Failed to join task")) } }
  | finish {s : NexusExecutor} {t : BackgroundTask} {result : Result Unit} (index : Nat)
      (client : Client) (hr : s.Runs) (h : s.running[index]? = some t)
      (ht : t.monitor = .joined result) :
      Step s (.finish index client)
        ({ s with running := s.running.eraseIdx index }.taskCompleted t.plan result client)

/-- The service cancels a watched job, the request of the loop to itself fits into the buffer,
and the future of a finished task has not failed. -/
def Careful (s : NexusExecutor) (label : Label) : Prop :=
  match label with
  | .processCancelled cancelled => ∀ key ∈ s.cancels.head?, ∀ jobId,
      s.jobHandles.get? key = some (.watching jobId) → cancelled.isOk = true
  | .monitor => ∀ task ∈ s.tasks.head?,
      s.jobHandles.get? task.key = some .cancelBeforeRegistration → s.cancels.length < buffer
  | .finish index _ => ∀ t ∈ s.running[index]?, ∀ err, t.monitor ≠ .joined (.error err)
  | _ => True

def pending (s : NexusExecutor) : List TaskKey :=
  s.tasks.map (·.key) ++ s.running.map (·.plan.key)

abbrev AllEndOnce (s : NexusExecutor) : Prop :=
  EndsOnce s.submitted s.pending.count s.events s.panicked s.blocked

def AtRest (s : NexusExecutor) : Prop := ∀ label t, Step s label t → label.isOwn = false

variable {s t : NexusExecutor} {label : Label}

/-! ## One step -/

theorem pending_finish {index : Nat} {task : BackgroundTask} (h : s.running[index]? = some task) :
    s.pending.Perm (task.plan.key :: (s.tasks.map (·.key) ++
      (s.running.eraseIdx index).map (·.plan.key))) :=
  ((map_eraseIdx_perm (·.plan.key) h).append_left _).trans List.perm_middle

theorem pending_set {index : Nat} {task : BackgroundTask} (h : s.running[index]? = some task)
    (monitor : Monitor) :
    pending { s with running := s.running.set index { task with monitor := monitor } } = s.pending := by
  have := map_set_eq (b := { task with monitor := monitor }) (fun t => t.plan.key) h rfl
  simp only [pending, this]

theorem monitorTask_eq (task : BackgroundTaskPlan) :
    (s.monitorTask task).submitted = s.submitted ∧
      (s.monitorTask task).tasks = s.tasks ∧
      (s.monitorTask task).running = s.running ++ [{ plan := task, monitor := .connecting }] ∧
      (s.monitorTask task).events = s.events ++ [sendQueued task.key (some task.jobId)] ∧
      (s.monitorTask task).panicked = s.panicked := by
  unfold monitorTask
  dsimp only
  split <;> exact ⟨rfl, rfl, rfl, rfl, rfl⟩

theorem finishedEvent_eq_ok {c : Client} {task : BackgroundTaskPlan} {event : RuntimeEvent}
    (h : finishedEvent c task = .ok event) :
    ∃ status, event = nodeEvent task.key status ∧ status.isTerminal = true := by
  obtain ⟨⟨⟩, -, h⟩ := Result.bind_eq_ok.1 h
  obtain ⟨job, -, h⟩ := Result.bind_eq_ok.1 h
  cases hj : job.status with
  | completed =>
    rw [hj] at h
    obtain ⟨⟨⟩, -, h⟩ := Result.bind_eq_ok.1 h
    cases h
    exact ⟨_, rfl, rfl⟩
  | _ =>
    rw [hj] at h
    cases h
    exact ⟨_, rfl, rfl⟩

/-- A finished task is reported with one terminal event. -/
theorem processFinishedTask_eq (task : BackgroundTaskPlan) (c : Client) :
    ∃ status, status.isTerminal = true ∧ s.processFinishedTask task c = { s with
      jobHandles := s.jobHandles.erase task.key
      events := s.events ++ [nodeEvent task.key status] } := by
  unfold processFinishedTask
  cases h : finishedEvent c task with
  | ok event =>
    obtain ⟨status, rfl, hs⟩ := finishedEvent_eq_ok h
    exact ⟨status, hs, rfl⟩
  | error err => exact ⟨_, rfl, rfl⟩

theorem processCancelledTask_eq (key : TaskKey) (cancelled : Result Unit) :
    (s.processCancelledTask key cancelled).submitted = s.submitted ∧
      (s.processCancelledTask key cancelled).pending = s.pending ∧
      (s.processCancelledTask key cancelled).events = s.events ∧
      (s.processCancelledTask key cancelled).blocked = s.blocked := by
  unfold processCancelledTask
  split <;> exact ⟨rfl, rfl, rfl, rfl⟩

theorem panicked_processCancelledTask (key : TaskKey) (cancelled : Result Unit)
    (hp : s.panicked = false) :
    (s.processCancelledTask key cancelled).panicked = false ↔
      ∀ jobId, s.jobHandles.get? key = some (.watching jobId) → cancelled.isOk = true := by
  unfold processCancelledTask
  split
  · rename_i jobId hk
    rw [hk]
    simp
  · rename_i hk
    exact iff_of_true hp fun jobId h => by cases hk.symm.trans h
  · rename_i hk
    exact iff_of_true hp fun jobId h => by cases hk.symm.trans h

theorem blocked_monitorTask (task : BackgroundTaskPlan) (hb : s.blocked = false) :
    (s.monitorTask task).blocked = false ↔
      (s.jobHandles.get? task.key = some .cancelBeforeRegistration → s.cancels.length < buffer) := by
  unfold monitorTask
  dsimp only
  split
  · rename_i hk
    rw [hk]
    simp
  · rename_i hk
    exact iff_of_true hb fun h => absurd h hk

/-- Only a change of the monitor of one task. -/
theorem AllEndOnce.set (hs : AllEndOnce s) {index : Nat} {task : BackgroundTask}
    (h : s.running[index]? = some task) (monitor : Monitor) :
    AllEndOnce { s with running := s.running.set index { task with monitor := monitor } } where
  noPanic := hs.noPanic
  notBlocked := hs.notBlocked
  account := by
    rw [pending_set h]
    exact hs.account

theorem allEndOnce_iff (hs : AllEndOnce s) (h : Step s label t) : AllEndOnce t ↔ Careful s label := by
  cases h with
  | submit plan =>
    refine iff_of_true ⟨hs.noPanic, hs.notBlocked, hs.account.submit (count_of_perm_cons ?_)⟩ trivial
    rw [pending, List.map_append, List.append_assoc]
    exact List.perm_middle
  | cancel key => exact iff_of_true ⟨hs.noPanic, hs.notBlocked, hs.account⟩ trivial
  | @processCancelled key cancels cancelled hr h =>
    obtain ⟨hsub, hpen, hev, hbl⟩ :=
      processCancelledTask_eq (s := { s with cancels := cancels }) key cancelled
    have hpanic := panicked_processCancelledTask (s := { s with cancels := cancels }) key cancelled hr.1
    have hcareful : Careful s (.processCancelled cancelled) ↔ ∀ jobId,
        s.jobHandles.get? key = some (.watching jobId) → cancelled.isOk = true := by
      simp [Careful, h]
    rw [hcareful, ← hpanic]
    refine ⟨fun ht => ht.noPanic, fun hp => ⟨hp, hbl.trans hs.notBlocked, ?_⟩⟩
    rw [hsub, hpen, hev]
    exact hs.account
  | @monitor task tasks hr h =>
    obtain ⟨hsub, htasks, hrun, hev, hpa⟩ := monitorTask_eq (s := { s with tasks := tasks }) task
    have hblocked := blocked_monitorTask (s := { s with tasks := tasks }) task hr.2
    have hcareful : Careful s .monitor ↔
        (s.jobHandles.get? task.key = some .cancelBeforeRegistration → s.cancels.length < buffer) := by
      simp [Careful, h]
    rw [hcareful, ← hblocked]
    refine ⟨fun ht => ht.notBlocked, fun hb => ⟨hpa.trans hs.noPanic, hb, ?_⟩⟩
    rw [hsub, hev]
    refine (hs.account.report rfl).congr fun k => List.Perm.count_eq ?_ k
    rw [pending, pending, htasks, hrun, h, List.map_append, ← List.append_assoc]
    exact List.perm_append_singleton _ _
  | listen index answer h ht => exact iff_of_true (hs.set h _) trivial
  | @status task index answer h ht =>
    refine iff_of_true ?_ trivial
    unfold jobStatus
    split
    · exact hs.set h _
    · exact hs.set h _
    · exact hs
    · exact hs
    · exact hs
    · exact ⟨hs.noPanic, hs.notBlocked, hs.account.report rfl⟩
    · exact ⟨hs.noPanic, hs.notBlocked, hs.account.report rfl⟩
    · exact hs.set h _
  | close index answer h ht => exact iff_of_true (hs.set h _) trivial
  | joinFails index err h ht => exact iff_of_true (hs.set h _) trivial
  | @finish task result index client hr h ht =>
    have hcareful : Careful s (.finish index client) ↔ ∀ err, result ≠ .error err := by
      simp [Careful, h, ht]
    rw [hcareful]
    cases result with
    | ok =>
      refine iff_of_true ?_ fun err => nofun
      obtain ⟨status, hst, he⟩ := processFinishedTask_eq
        (s := { s with running := s.running.eraseIdx index }) task.plan client
      rw [taskCompleted, he]
      exact ⟨hr.1, hr.2, hs.account.finish (count_of_perm_cons (pending_finish h)) hst⟩
    | error err =>
      refine iff_of_false (fun ht => ?_) fun h => h err rfl
      obtain ⟨status, hst, he⟩ := processFinishedTask_eq
        (s := { s with
          running := s.running.eraseIdx index
          events := s.events ++ [sendError task.plan.key err] }) task.plan client
      rw [taskCompleted, he] at ht
      have hfirst : Balanced s.submitted (pending { s with running := s.running.eraseIdx index }).count
          (s.events ++ [sendError task.plan.key err]) :=
        hs.account.finish (count_of_perm_cons (pending_finish h)) rfl
      exact hfirst.not_report hst ht.account

theorem pending_of_atRest (hr : s.Runs) (h : s.AtRest) : s.pending = [] := by
  have htasks : s.tasks = [] := by
    cases ht : s.tasks with
    | nil => rfl
    | cons task tasks => cases h _ _ (.monitor hr ht)
  have hrunning : s.running = [] := by
    cases hn : s.running with
    | nil => rfl
    | cons task running =>
      have h0 : s.running[0]? = some task := by rw [hn]; rfl
      cases hm : task.monitor with
      | connecting => cases h _ _ (.listen 0 (.ok ()) h0 hm)
      | listening => cases h _ _ (.status 0 (.ok none) h0 hm)
      | closing => cases h _ _ (.close 0 (.ok ()) h0 hm)
      | joined result =>
        let client : Client := ⟨.ok (), .error .outOfFuel, fun _ => .ok [], fun _ _ => .ok ()⟩
        cases h _ _ (.finish 0 client hr h0 hm)
  rw [pending, htasks, hrunning]
  rfl

theorem steps_iff_careful {labels : List Label} :
    Steps (fun s label t => Step s label t ∧ AllEndOnce t) {} labels s ↔
      Steps (fun s label t => Step s label t ∧ Careful s label) {} labels s :=
  steps_iff AllEndOnce (fun _ _ _ hs => and_congr_right fun h => allEndOnce_iff hs h)
    (fun _ _ _ hs h => (allEndOnce_iff hs h.1).2 h.2) ⟨rfl, rfl, .nil⟩

end NexusExecutor

end Tierkreis
