import Tierkreis.Executor.Interface
import Tierkreis.Lib.Run

/-!
# The QRMI executor

The loop polls the futures that follow its tasks. They share the resource with
the loop through one lock, which a future keeps or waits for while it asks the
resource. A loop that stops a task during such a call waits for a future that it
no longer polls.
-/

namespace Tierkreis

open Lib Lib.Run

namespace QrmiExecutor

inductive TaskStatus where
  | queued
  | running
  | completed
  | failed
  | cancelled
  deriving DecidableEq

structure BackgroundTask where
  key : TaskKey
  taskId : TaskHandle
  output : AssetSpec

inductive TaskRegistration where
  | watching (taskId : TaskHandle)
  | cancelBeforeRegistration

/-- Where the future that follows a task is. In `checking`, `fetching` and `logging` it keeps the
lock of the resource or waits for it. -/
inductive Monitor where
  | starting
  | checking (sentRunning : Bool)
  | fetching
  | logging
  | sleeping (sentRunning : Bool)
  | done (result : Result Unit)

def Monitor.isCalling : Monitor → Bool
  | checking _ | fetching | logging => true
  | _ => false

structure RunningTask where
  task : BackgroundTask
  monitor : Monitor

end QrmiExecutor

/-- `blocked` is the end of a loop that waits for one of its futures. -/
structure QrmiExecutor where
  tasks : List QrmiExecutor.BackgroundTask := []
  cancels : List TaskKey := []
  registrations : HashMap TaskKey QrmiExecutor.TaskRegistration := ∅
  running : List QrmiExecutor.RunningTask := []
  events : List RuntimeEvent := []
  submitted : List TaskKey := []
  panicked : Bool := false
  blocked : Bool := false

namespace QrmiExecutor

/-- A future of the loop keeps the lock or stands before the loop in the line for it. -/
def isCalling (s : QrmiExecutor) : Bool := s.running.any (·.monitor.isCalling)

/-- The loop locks the resource to stop a task. -/
def taskStop (s : QrmiExecutor) (key : TaskKey) (taskId : TaskHandle) (stopped : Result Unit) :
    QrmiExecutor :=
  if s.isCalling then { s with blocked := true }
  else
    match stopped with
    | .ok () => s
    | .error err =>
      let text := err.chain.headD ""
      { s with events := s.events ++
        [sendError key (.miette s!"Failed to stop QRMI task `{taskId}`: {text}")] }

def processCancelled (s : QrmiExecutor) (key : TaskKey) (stopped : Result Unit) : QrmiExecutor :=
  match s.registrations.get? key with
  | some (.watching taskId) =>
    { s with registrations := s.registrations.erase key }.taskStop key taskId stopped
  | some .cancelBeforeRegistration | none =>
    { s with registrations := s.registrations.insert key .cancelBeforeRegistration }

def push (s : QrmiExecutor) (task : BackgroundTask) : QrmiExecutor :=
  { s with running := s.running ++ [{ task := task, monitor := .starting }] }

/-- A loop that is blocked does not get to push the future. -/
def register (s : QrmiExecutor) (task : BackgroundTask) (stopped : Result Unit) : QrmiExecutor :=
  match s.registrations.get? task.key with
  | some .cancelBeforeRegistration =>
    let t := { s with registrations := s.registrations.erase task.key }.taskStop task.key task.taskId
      stopped
    if t.blocked then t else t.push task
  | _ => { s with
      registrations := s.registrations.insert task.key (.watching task.taskId) }.push task

/-! ## The futures -/

/-- What a future does with a status: an event, and where it goes on. -/
def taskStatus (t : RunningTask) (sentRunning : Bool) (answer : Result TaskStatus) :
    List RuntimeEvent × Monitor :=
  match answer with
  | .error err => ([], .done (.error (err.wrapErr "Failed to get QRMI task status")))
  | .ok .queued => ([], .sleeping sentRunning)
  | .ok .running => (if sentRunning then [] else [sendRunning t.task.key], .sleeping true)
  | .ok .completed => ([], .fetching)
  | .ok .failed => ([], .logging)
  | .ok .cancelled => ([sendCancelled t.task.key], .done (.ok ()))

/-- `save` is what the storage answers to the bytes of the result. -/
def taskResult (t : RunningTask) (answer : Result String) (save : String → Result Unit) :
    List RuntimeEvent × Monitor :=
  match answer with
  | .error err => ([], .done (.error (err.wrapErr "Failed to get QRMI task result")))
  | .ok value =>
    match save value with
    | .error err => ([], .done (.error err))
    | .ok () =>
      ([sendComplete t.task.key (.ofList [("result", t.task.output)])], .done (.ok ()))

def taskLogs (t : RunningTask) (answer : Result String) : Monitor :=
  let logs := match answer with
    | .ok logs => s!": {logs}"
    | .error _ => ""
  .done (.error (.miette s!"QRMI task `{t.task.taskId}` failed{logs}"))

/-! ## Steps -/

inductive Label where
  | submit (task : BackgroundTask)
  | cancel (key : TaskKey)
  /-- `stopped` is what the resource answers, if it is asked. -/
  | processCancelled (stopped : Result Unit)
  | register (stopped : Result Unit)
  | start (index : Nat)
  | wake (index : Nat)
  | status (index : Nat) (answer : Result TaskStatus)
  | result (index : Nat) (answer : Result String) (save : String → Result Unit)
  | logs (index : Nat) (answer : Result String)
  | finish (index : Nat)

/-- The steps of the loop, and of the futures, which the loop polls. -/
def Label.isOwn : Label → Bool
  | submit _ | cancel _ => false
  | _ => true

def Runs (s : QrmiExecutor) : Prop := s.panicked = false ∧ s.blocked = false

/-- A future goes on, and sends what there is to send. -/
def advance (s : QrmiExecutor) (index : Nat) (t : RunningTask) (events : List RuntimeEvent)
    (monitor : Monitor) : QrmiExecutor :=
  { s with
    running := s.running.set index { t with monitor := monitor }
    events := s.events ++ events }

/-- The loop reports the error of a future. -/
def finishTask (s : QrmiExecutor) (task : BackgroundTask) (result : Result Unit) : QrmiExecutor :=
  { s with
    registrations := s.registrations.erase task.key
    events := s.events ++
      match result with
      | .ok () => []
      | .error err => [sendError task.key err] }

inductive Step : QrmiExecutor → Label → QrmiExecutor → Prop
  | submit {s : QrmiExecutor} (task : BackgroundTask) :
      Step s (.submit task)
        { s with tasks := s.tasks ++ [task], submitted := s.submitted ++ [task.key] }
  | cancel {s : QrmiExecutor} (key : TaskKey) :
      Step s (.cancel key) { s with cancels := s.cancels ++ [key] }
  | processCancelled {s : QrmiExecutor} {key : TaskKey} {cancels : List TaskKey}
      (stopped : Result Unit) (hr : s.Runs) (h : s.cancels = key :: cancels) :
      Step s (.processCancelled stopped)
        ({ s with cancels := cancels }.processCancelled key stopped)
  | register {s : QrmiExecutor} {task : BackgroundTask} {tasks : List BackgroundTask}
      (stopped : Result Unit) (hr : s.Runs) (h : s.tasks = task :: tasks) :
      Step s (.register stopped) ({ s with tasks := tasks }.register task stopped)
  | start {s : QrmiExecutor} {t : RunningTask} (index : Nat) (hr : s.Runs)
      (h : s.running[index]? = some t) (ht : t.monitor = .starting) :
      Step s (.start index)
        (s.advance index t [sendQueued t.task.key (some t.task.taskId)] (.checking false))
  | wake {s : QrmiExecutor} {t : RunningTask} {sentRunning : Bool} (index : Nat) (hr : s.Runs)
      (h : s.running[index]? = some t) (ht : t.monitor = .sleeping sentRunning) :
      Step s (.wake index) (s.advance index t [] (.checking sentRunning))
  | status {s : QrmiExecutor} {t : RunningTask} {sentRunning : Bool} (index : Nat)
      (answer : Result TaskStatus) (hr : s.Runs) (h : s.running[index]? = some t)
      (ht : t.monitor = .checking sentRunning) :
      Step s (.status index answer)
        (s.advance index t (taskStatus t sentRunning answer).1 (taskStatus t sentRunning answer).2)
  | result {s : QrmiExecutor} {t : RunningTask} (index : Nat) (answer : Result String)
      (save : String → Result Unit) (hr : s.Runs) (h : s.running[index]? = some t)
      (ht : t.monitor = .fetching) :
      Step s (.result index answer save)
        (s.advance index t (taskResult t answer save).1 (taskResult t answer save).2)
  | logs {s : QrmiExecutor} {t : RunningTask} (index : Nat) (answer : Result String) (hr : s.Runs)
      (h : s.running[index]? = some t) (ht : t.monitor = .logging) :
      Step s (.logs index answer) (s.advance index t [] (taskLogs t answer))
  | finish {s : QrmiExecutor} {t : RunningTask} {result : Result Unit} (index : Nat) (hr : s.Runs)
      (h : s.running[index]? = some t) (ht : t.monitor = .done result) :
      Step s (.finish index)
        ({ s with running := s.running.eraseIdx index }.finishTask t.task result)

/-- When the loop stops a task, no future keeps or waits for the resource and the resource
stops the task. -/
def Careful (s : QrmiExecutor) (label : Label) : Prop :=
  match label with
  | .processCancelled stopped => ∀ key ∈ s.cancels.head?, ∀ taskId,
      s.registrations.get? key = some (.watching taskId) →
        s.isCalling = false ∧ stopped.isOk = true
  | .register stopped => ∀ task ∈ s.tasks.head?,
      s.registrations.get? task.key = some .cancelBeforeRegistration →
        s.isCalling = false ∧ stopped.isOk = true
  | _ => True

/-- A future that has said its last word does not count. -/
def pendingOf (key : TaskKey) (t : RunningTask) : Nat :=
  match t.monitor with
  | .done (.ok ()) => 0
  | _ => if t.task.key = key then 1 else 0

def pending (s : QrmiExecutor) (key : TaskKey) : Nat :=
  (s.tasks.map (·.key)).count key + (s.running.map (pendingOf key)).sum

abbrev AllEndOnce (s : QrmiExecutor) : Prop :=
  EndsOnce s.submitted s.pending s.events s.panicked s.blocked

def AtRest (s : QrmiExecutor) : Prop := ∀ label t, Step s label t → label.isOwn = false

variable {s t : QrmiExecutor} {label : Label}

/-! ## The futures -/

/-- A future goes on without a last word, or with one terminal event. -/
inductive Advances (t : RunningTask) : List RuntimeEvent → Monitor → Prop
  | goes {events : List RuntimeEvent} {monitor : Monitor} (hm : monitor ≠ .done (.ok ()))
      (he : ∀ key, terminals key events = 0) : Advances t events monitor
  | ends {status : NodeStatus} (hs : status.isTerminal = true) :
      Advances t [nodeEvent t.task.key status] (.done (.ok ()))

theorem pendingOf_of_ne (key : TaskKey) {t : RunningTask} (h : t.monitor ≠ .done (.ok ())) :
    pendingOf key t = if t.task.key = key then 1 else 0 := by
  unfold pendingOf
  split
  · rename_i hm
    exact absurd hm h
  · rfl

theorem advances_taskStatus (t : RunningTask) (sentRunning : Bool) (answer : Result TaskStatus) :
    Advances t (taskStatus t sentRunning answer).1 (taskStatus t sentRunning answer).2 := by
  unfold taskStatus
  split
  · exact .goes nofun fun _ => rfl
  · exact .goes nofun fun _ => rfl
  · refine .goes nofun fun key => ?_
    dsimp only
    split_ifs
    · rfl
    · rw [sendRunning, terminals_nodeEvent, if_neg fun h => Bool.false_ne_true h.2]
  · exact .goes nofun fun _ => rfl
  · exact .goes nofun fun _ => rfl
  · exact .ends rfl

theorem advances_taskResult (t : RunningTask) (answer : Result String)
    (save : String → Result Unit) :
    Advances t (taskResult t answer save).1 (taskResult t answer save).2 := by
  unfold taskResult
  cases answer with
  | error err => exact .goes nofun fun _ => rfl
  | ok value =>
    dsimp only
    split
    · exact .goes nofun fun _ => rfl
    · exact .ends rfl

theorem AllEndOnce.advance (hs : AllEndOnce s) {index : Nat} {task : RunningTask}
    (h : s.running[index]? = some task) (ht : task.monitor ≠ .done (.ok ()))
    {events : List RuntimeEvent} {monitor : Monitor} (ha : Advances task events monitor) :
    AllEndOnce (s.advance index task events monitor) where
  noPanic := hs.noPanic
  notBlocked := hs.notBlocked
  account key := by
    have hold := hs.account key
    have hset := sum_map_set (b := { task with monitor := monitor }) (pendingOf key) h
    have htask := pendingOf_of_ne key ht
    simp only [pending] at hold
    simp only [QrmiExecutor.advance, pending, terminals_append]
    cases ha with
    | goes hm he =>
      have hnew : pendingOf key { task with monitor := monitor } =
          if task.task.key = key then 1 else 0 :=
        pendingOf_of_ne key hm
      rw [he key]
      omega
    | @ends status hst =>
      have hnew : pendingOf key { task with monitor := .done (.ok ()) } = 0 := rfl
      have hevent : terminals key [nodeEvent task.task.key status] =
          if task.task.key = key then 1 else 0 := by
        rw [terminals_nodeEvent]
        simp only [hst, and_true]
      rw [hevent]
      omega

/-! ## The loop -/

/-- Stopping a task changes nothing that counts, unless a future is calling or the resource does
not stop the task. -/
theorem allEndOnce_taskStop_iff (hs : AllEndOnce s) (key : TaskKey) (taskId : TaskHandle)
    (stopped : Result Unit) :
    AllEndOnce (s.taskStop key taskId stopped) ↔ s.isCalling = false ∧ stopped.isOk = true := by
  unfold taskStop
  split_ifs with hc
  · exact iff_of_false (fun h => by cases h.notBlocked) fun h => by cases hc.symm.trans h.1
  · cases stopped with
    | ok => exact iff_of_true hs ⟨by simpa using hc, rfl⟩
    | error err =>
      exact iff_of_false (fun h => hs.account.not_report rfl h.account) fun h => by cases h.2

theorem AllEndOnce.push (hs : AllEndOnce s) {task : BackgroundTask} {tasks : List BackgroundTask}
    (h : s.tasks = task :: tasks) (registrations : HashMap TaskKey TaskRegistration) :
    AllEndOnce ({ s with tasks := tasks, registrations := registrations }.push task) where
  noPanic := hs.noPanic
  notBlocked := hs.notBlocked
  account := by
    refine hs.account.congr fun key => ?_
    simp only [pending, QrmiExecutor.push, h, List.map_append, List.map_cons, List.map_nil,
      List.sum_append, List.sum_cons, List.sum_nil, List.count_cons, pendingOf, beq_iff_eq]
    omega

theorem allEndOnce_taskStop_push_iff {task : BackgroundTask} (hpush : AllEndOnce (s.push task))
    (hb : s.blocked = false) (key : TaskKey) (taskId : TaskHandle) (stopped : Result Unit) :
    AllEndOnce (if (s.taskStop key taskId stopped).blocked then s.taskStop key taskId stopped
        else (s.taskStop key taskId stopped).push task) ↔
      s.isCalling = false ∧ stopped.isOk = true := by
  unfold taskStop
  by_cases hc : s.isCalling = true
  · simp only [hc, if_true]
    exact iff_of_false (fun h => by cases h.notBlocked) fun h => by cases h.1
  · simp only [hc, Bool.false_eq_true, if_false]
    cases stopped with
    | ok =>
      simp only [hb, Bool.false_eq_true, if_false]
      exact iff_of_true hpush ⟨trivial, rfl⟩
    | error err =>
      simp only [hb, Bool.false_eq_true, if_false]
      exact iff_of_false (fun h => hpush.account.not_report rfl h.account) fun h => by cases h.2

theorem allEndOnce_iff (hs : AllEndOnce s) (h : Step s label t) : AllEndOnce t ↔ Careful s label := by
  cases h with
  | submit task =>
    refine iff_of_true ⟨hs.noPanic, hs.notBlocked, hs.account.submit fun key => ?_⟩ trivial
    simp only [pending, List.map_append, List.map_cons, List.map_nil, List.count_append,
      List.count_singleton, beq_iff_eq]
    omega
  | cancel key => exact iff_of_true ⟨hs.noPanic, hs.notBlocked, hs.account⟩ trivial
  | @processCancelled key cancels stopped hr h =>
    have hcareful : Careful s (.processCancelled stopped) ↔ ∀ taskId,
        s.registrations.get? key = some (.watching taskId) →
          s.isCalling = false ∧ stopped.isOk = true := by
      simp [Careful, h]
    rw [hcareful]
    unfold processCancelled
    dsimp only
    split
    · rename_i taskId hk
      have hs' : AllEndOnce { s with
          cancels := cancels
          registrations := s.registrations.erase key } := hs
      rw [allEndOnce_taskStop_iff hs']
      constructor
      · exact fun h _ _ => h
      · exact fun h => h taskId hk
    · rename_i hk
      exact iff_of_true hs fun taskId h => by cases hk.symm.trans h
    · rename_i hk
      exact iff_of_true hs fun taskId h => by cases hk.symm.trans h
  | @register task tasks stopped hr h =>
    have hcareful : Careful s (.register stopped) ↔
        (s.registrations.get? task.key = some .cancelBeforeRegistration →
          s.isCalling = false ∧ stopped.isOk = true) := by
      simp [Careful, h]
    rw [hcareful]
    unfold register
    dsimp only
    split
    · rename_i hk
      have hpush : AllEndOnce ({ s with
          tasks := tasks
          registrations := s.registrations.erase task.key }.push task) := hs.push h _
      have hstop := allEndOnce_taskStop_push_iff hpush hr.2 task.key task.taskId stopped
      exact hstop.trans ⟨fun h _ => h, fun h => h hk⟩
    · rename_i hk
      exact iff_of_true (hs.push h _) fun h => absurd h hk
  | start index hr h ht =>
    refine iff_of_true (hs.advance h (by rw [ht]; nofun) (.goes nofun fun key => ?_)) trivial
    rw [sendQueued, terminals_nodeEvent, if_neg fun h => Bool.false_ne_true h.2]
  | wake index hr h ht =>
    exact iff_of_true (hs.advance h (by rw [ht]; nofun) (.goes nofun fun _ => rfl)) trivial
  | status index answer hr h ht =>
    exact iff_of_true (hs.advance h (by rw [ht]; nofun) (advances_taskStatus _ _ answer)) trivial
  | result index answer save hr h ht =>
    exact iff_of_true (hs.advance h (by rw [ht]; nofun) (advances_taskResult _ answer save)) trivial
  | logs index answer hr h ht =>
    exact iff_of_true (hs.advance h (by rw [ht]; nofun) (.goes nofun fun _ => rfl)) trivial
  | @finish task result index hr h ht =>
    refine iff_of_true ⟨hs.noPanic, hs.notBlocked, ?_⟩ trivial
    have herase : ∀ key, s.pending key =
        pending { s with running := s.running.eraseIdx index } key + pendingOf key task := fun key => by
      simp only [pending, sum_map_eraseIdx (pendingOf key) h]
      omega
    cases result with
    | ok =>
      have hzero : ∀ key, pendingOf key task = 0 := fun key => by rw [pendingOf, ht]
      rw [finishTask]
      simp only [List.append_nil]
      exact hs.account.congr fun key => by rw [herase key, hzero key]; rfl
    | error err =>
      refine hs.account.finish (fun key => ?_) rfl
      rw [herase key, pendingOf_of_ne key (by rw [ht]; nofun)]
      rfl

theorem pending_of_atRest (hr : s.Runs) (h : s.AtRest) (key : TaskKey) : s.pending key = 0 := by
  have htasks : s.tasks = [] := by
    cases ht : s.tasks with
    | nil => rfl
    | cons task tasks => cases h _ _ (.register (.ok ()) hr ht)
  have hrunning : s.running = [] := by
    cases hn : s.running with
    | nil => rfl
    | cons task running =>
      have h0 : s.running[0]? = some task := by rw [hn]; rfl
      cases hm : task.monitor with
      | starting => cases h _ _ (.start 0 hr h0 hm)
      | checking sentRunning => cases h _ _ (.status 0 (.ok .queued) hr h0 hm)
      | fetching => cases h _ _ (.result 0 (.ok "") (fun _ => .ok ()) hr h0 hm)
      | logging => cases h _ _ (.logs 0 (.ok "") hr h0 hm)
      | sleeping sentRunning => cases h _ _ (.wake 0 hr h0 hm)
      | done result => cases h _ _ (.finish 0 hr h0 hm)
  rw [pending, htasks, hrunning]
  rfl

theorem steps_iff_careful {labels : List Label} :
    Steps (fun s label t => Step s label t ∧ AllEndOnce t) {} labels s ↔
      Steps (fun s label t => Step s label t ∧ Careful s label) {} labels s :=
  steps_iff AllEndOnce (fun _ _ _ hs => and_congr_right fun h => allEndOnce_iff hs h)
    (fun _ _ _ hs h => (allEndOnce_iff hs h.1).2 h.2) ⟨rfl, rfl, .nil⟩

end QrmiExecutor

end Tierkreis
