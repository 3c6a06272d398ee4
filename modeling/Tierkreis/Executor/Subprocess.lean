import Tierkreis.Executor.InMemory

/-!
# The subprocess executor

A task is a child process and a spawned future that waits for it. The future can
be aborted until the process has ended; the loop reads an aborted future as a
worker that failed. A task that is handed over again with the handle of its old
process has that process terminated first.
-/

namespace Tierkreis

open Lib Lib.Run

/-- `ExitStatus` with the text it is displayed as. -/
structure ExitStatus where
  success : Bool
  text : String

/-- Where a child process and the future that waits for it are. -/
inductive ChildState where
  | running
  | exited (status : ExitStatus)
  | waitFailed (err : Failure)
  | aborted

def ChildState.work : ChildState → Nat
  | .running => 2
  | _ => 1

structure ChildTask where
  id : Nat
  key : TaskKey
  outputStorageName : String
  outputs : Specs
  join : ChildState

structure SubprocessPlan where
  key : TaskKey
  workerName : String
  environment : HashMap String String
  outputStorageName : String
  outputs : Specs
  handle : Option TaskHandle

/-- What the operating system answers while a task is started: who a process is before and
after the worker is spawned, the outcome of `kill`, and the id of the spawned worker. -/
structure Host where
  identity : Nat → Result (Nat × Nat)
  kill : Nat → Result ExitStatus
  spawnWorker : String → HashMap String String → Result (Option Nat)
  childIdentity : Nat → Result (Nat × Nat)

structure SubprocessExecutor where
  outputStorageName : String
  tasks : List SubprocessPlan := []
  cancels : List TaskKey := []
  running : List ChildTask := []
  abortHandles : HashMap TaskKey Nat := ∅
  nextId : Nat := 0
  events : List RuntimeEvent := []
  submitted : List TaskKey := []
  panicked : Bool := false

namespace SubprocessExecutor

/-! ## Handles -/

def formatSubprocessHandle (pid startTime : Nat) : TaskHandle := s!"{pid}:{startTime}"

/-- `str::parse` at an unsigned type of numbers below `bound`. -/
def parseUnsigned (bound : Nat) (text : List Char) : Option Nat :=
  let digits := if text.head? = some '+' then text.tail else text
  if digits.isEmpty || !digits.all Char.isDigit then none
  else
    let n := digits.foldl (fun n c => 10 * n + (c.toNat - '0'.toNat)) 0
    if n < bound then some n else none

def parseSubprocessHandle (handle : TaskHandle) : Result (Nat × Nat) := do
  let (pid, rest) := handle.toList.span (· ≠ ':')
  if rest.isEmpty then .error (.miette s!"Invalid subprocess task handle: `{handle}`")
  else
    let pid ← okOr (parseUnsigned (2 ^ 32) pid) "Invalid pid in subprocess task handle"
    let startTime ← okOr (parseUnsigned (2 ^ 64) rest.tail)
      "Invalid start_time in subprocess task handle"
    pure (pid, startTime)

/-! ## Steps -/

inductive Label where
  /-- `outputs` are the reserved outputs. -/
  | submit (plan : TaskPlan) (outputs : Specs)
  | cancel (key : TaskKey)
  | processCancelled
  | startTask (host : Host)
  | exit (index : Nat) (status : ExitStatus)
  | waitFails (index : Nat) (err : Failure)
  /-- `transferred` is what `transfer_assets` gives. -/
  | processFinished (index : Nat) (transferred : Result Specs) (stderr : Option String)
  | joinFails (index : Nat)

/-- The steps of the loop and of the processes. -/
def Label.isOwn : Label → Bool
  | submit .. | cancel _ => false
  | _ => true

/-- Every value has to be a string. -/
def environmentOf (environment : HashMap String Json) : Result (HashMap String String) :=
  match environment.toList.find? fun e => match e.2 with | .str _ => false | _ => true with
  | some (key, _) => .error (.miette s!"Subprocess environment `{key}` must be a string")
  | none => .ok (environment.filterMap fun _ value =>
      match value with
      | .str text => some text
      | _ => none)

def abort (id : Nat) (t : ChildTask) : ChildTask :=
  match t.join with
  | .running => if t.id = id then { t with join := .aborted } else t
  | _ => t

def processCancelledTask (s : SubprocessExecutor) (key : TaskKey) : SubprocessExecutor :=
  match s.abortHandles.get? key with
  | some id =>
    { s with
      abortHandles := s.abortHandles.erase key
      running := s.running.map (abort id)
      events := s.events ++ [sendCancelled key] }
  | none => s

/-- End the process that an earlier start of the task has left, if it is still the same. -/
def terminateRestored (host : Host) : Option TaskHandle → Result Unit
  | none => pure ()
  | some handle => do
    let (pid, startTime) ← parseSubprocessHandle handle
    let isOriginalProcess :=
      match host.identity pid with
      | .ok identity => decide (identity = (pid, startTime))
      | .error _ => false
    if isOriginalProcess then
      let status ← (host.kill pid).mapError
        (.wrapErr s!"Could not terminate restored worker process {pid}")
      if status.success then pure ()
      else .error (.miette s!"Could not terminate restored worker process {pid}: {status.text}")
    else pure ()

/-- An error ends the loop. -/
def startTask (s : SubprocessExecutor) (plan : SubprocessPlan) (host : Host) :
    Result SubprocessExecutor := do
  terminateRestored host plan.handle
  match host.spawnWorker plan.workerName plan.environment with
  | .error err => pure { s with events := s.events ++ [sendError plan.key err] }
  | .ok child =>
    let identity ← child.mapM host.childIdentity
    let (pid, startTime) ← okOr identity "Worker process did not have a PID"
    pure { s with
      events := s.events ++ [sendQueued plan.key (some (formatSubprocessHandle pid startTime))] ++
        [sendRunning plan.key]
      running := s.running ++ [{
        id := s.nextId
        key := plan.key
        outputStorageName := plan.outputStorageName
        outputs := plan.outputs
        join := .running }]
      abortHandles := s.abortHandles.insert plan.key s.nextId
      nextId := s.nextId + 1 }

/-- The event of a process that has ended. -/
def finishedStatus (status : ExitStatus) (transferred : Result Specs) (stderr : Option String)
    (key : TaskKey) : RuntimeEvent :=
  if status.success then
    match transferred with
    | .ok outputs => sendComplete key outputs
    | .error err => sendError key err
  else nodeEvent key (.error s!"Subprocess failed with error code: {status.text}" stderr)

def processFinishedTask (s : SubprocessExecutor) (index : Nat) (t : ChildTask) (status : ExitStatus)
    (transferred : Result Specs) (stderr : Option String) : SubprocessExecutor :=
  { s with
    running := s.running.eraseIdx index
    abortHandles := s.abortHandles.erase t.key
    events := s.events ++ [finishedStatus status transferred stderr t.key] }

/-- Why the future has no exit status. -/
def joinError : ChildState → Option Failure
  | .waitFailed err => some (err.wrapErr "Failed to run worker")
  | .aborted => some (.miette "Failed to join task: task was cancelled")
  | _ => none

inductive Step : SubprocessExecutor → Label → SubprocessExecutor → Prop
  | submit {s : SubprocessExecutor} (plan : TaskPlan) {environment : HashMap String String}
      (outputs : Specs) (hp : s.panicked = false)
      (he : environmentOf plan.environment = .ok environment) :
      Step s (.submit plan outputs)
        { s with
          tasks := s.tasks ++ [{
            key := plan.key
            workerName := plan.workerName
            environment := environment
            outputStorageName := plan.outputStorageName.getD s.outputStorageName
            outputs := outputs
            handle := plan.taskHandle }]
          submitted := s.submitted ++ [plan.key] }
  | cancel {s : SubprocessExecutor} (key : TaskKey) :
      Step s (.cancel key) { s with cancels := s.cancels ++ [key] }
  | processCancelled {s : SubprocessExecutor} {key : TaskKey} {cancels : List TaskKey}
      (hp : s.panicked = false) (h : s.cancels = key :: cancels) :
      Step s .processCancelled ({ s with cancels := cancels }.processCancelledTask key)
  | startTask {s t : SubprocessExecutor} {plan : SubprocessPlan} {tasks : List SubprocessPlan}
      (host : Host) (hp : s.panicked = false) (h : s.tasks = plan :: tasks)
      (ht : { s with tasks := tasks }.startTask plan host = .ok t) : Step s (.startTask host) t
  | startFails {s : SubprocessExecutor} {plan : SubprocessPlan} {tasks : List SubprocessPlan}
      {err : Failure} (host : Host) (hp : s.panicked = false) (h : s.tasks = plan :: tasks)
      (ht : { s with tasks := tasks }.startTask plan host = .error err) :
      Step s (.startTask host) { s with tasks := tasks, panicked := true }
  | exit {s : SubprocessExecutor} (index : Nat) {t : ChildTask} (status : ExitStatus)
      (h : s.running[index]? = some t) (ht : t.join = .running) :
      Step s (.exit index status)
        { s with running := s.running.set index { t with join := .exited status } }
  | waitFails {s : SubprocessExecutor} (index : Nat) {t : ChildTask} (err : Failure)
      (h : s.running[index]? = some t) (ht : t.join = .running) :
      Step s (.waitFails index err)
        { s with running := s.running.set index { t with join := .waitFailed err } }
  | processFinished {s : SubprocessExecutor} (index : Nat) {t : ChildTask} {status : ExitStatus}
      (transferred : Result Specs) (stderr : Option String) (hp : s.panicked = false)
      (h : s.running[index]? = some t) (ht : t.join = .exited status) :
      Step s (.processFinished index transferred stderr)
        (s.processFinishedTask index t status transferred stderr)
  | joinFails {s : SubprocessExecutor} (index : Nat) {t : ChildTask} {err : Failure}
      (hp : s.panicked = false) (h : s.running[index]? = some t) (ht : joinError t.join = some err) :
      Step s (.joinFails index)
        { s with
          running := s.running.eraseIdx index
          events := s.events ++ [sendError t.key err] }

/-- The handle of the task can be read, its old process can be ended, and the new process has
an identity. -/
structure Startable (plan : SubprocessPlan) (host : Host) : Prop where
  restored : ∀ handle ∈ plan.handle, ∃ pid startTime,
    parseSubprocessHandle handle = .ok (pid, startTime) ∧
      (host.identity pid = .ok (pid, startTime) →
        ∃ status, host.kill pid = .ok status ∧ status.success = true)
  identified : ∀ child, host.spawnWorker plan.workerName plan.environment = .ok child →
    ∃ pid identity, child = some pid ∧ host.childIdentity pid = .ok identity

/-- No request finds a task to abort, and tasks can be started. -/
def CarefulStep (s : SubprocessExecutor) (label : Label) (t : SubprocessExecutor) : Prop :=
  Step s label t ∧
    match label with
    | .processCancelled => ∀ key ∈ s.cancels.head?, s.abortHandles.get? key = none
    | .startTask host => ∀ plan ∈ s.tasks.head?, Startable plan host
    | _ => True

def pending (s : SubprocessExecutor) : List TaskKey :=
  s.tasks.map SubprocessPlan.key ++ s.running.map ChildTask.key

def AtRest (s : SubprocessExecutor) : Prop := ∀ label t, Step s label t → label.isOwn = false

def work (s : SubprocessExecutor) : Nat :=
  s.cancels.length + 3 * s.tasks.length + (s.running.map fun t => t.join.work).sum

variable {s t : SubprocessExecutor} {label : Label}

/-- What a start leaves: the error of the spawn, or one more child. -/
theorem startTask_eq_ok {plan : SubprocessPlan} {host : Host} (h : s.startTask plan host = .ok t) :
    (∃ err, t = { s with events := s.events ++ [sendError plan.key err] }) ∨
    ∃ handle, t = { s with
      events := s.events ++ [sendQueued plan.key (some handle)] ++ [sendRunning plan.key]
      running := s.running ++ [{
        id := s.nextId
        key := plan.key
        outputStorageName := plan.outputStorageName
        outputs := plan.outputs
        join := .running }]
      abortHandles := s.abortHandles.insert plan.key s.nextId
      nextId := s.nextId + 1 } := by
  obtain ⟨⟨⟩, -, h⟩ := Result.bind_eq_ok.1 h
  split at h
  · rename_i err _
    cases h
    exact .inl ⟨err, rfl⟩
  · obtain ⟨identity, -, h⟩ := Result.bind_eq_ok.1 h
    obtain ⟨⟨pid, startTime⟩, -, h⟩ := Result.bind_eq_ok.1 h
    cases h
    exact .inr ⟨formatSubprocessHandle pid startTime, rfl⟩

theorem terminateRestored_of_startable {plan : SubprocessPlan} {host : Host}
    (h : Startable plan host) : terminateRestored host plan.handle = .ok () := by
  cases hh : plan.handle with
  | none => rfl
  | some handle =>
    obtain ⟨pid, startTime, hparse, hkill⟩ := h.restored handle hh
    rw [terminateRestored, hparse]
    dsimp only [bind, Except.bind]
    by_cases hi : host.identity pid = .ok (pid, startTime)
    · obtain ⟨status, hk, hs⟩ := hkill hi
      rw [hi, hk]
      simp [hs, Except.mapError, pure, Except.pure]
    · rw [if_neg]
      · rfl
      · cases hid : host.identity pid with
        | error f => exact Bool.false_ne_true
        | ok identity =>
          intro hd
          rw [of_decide_eq_true hd] at hid
          exact hi hid

theorem startTask_of_startable {plan : SubprocessPlan} {host : Host} (h : Startable plan host) :
    ∃ t, s.startTask plan host = .ok t := by
  rw [startTask, terminateRestored_of_startable h]
  cases hs : host.spawnWorker plan.workerName plan.environment with
  | error err => exact ⟨_, rfl⟩
  | ok child =>
    obtain ⟨pid, identity, rfl, hi⟩ := h.identified child hs
    simp only [bind, Except.bind, Option.mapM_some, hi, Functor.map, Except.map, okOr, pure,
      Except.pure]
    exact ⟨_, rfl⟩

/-! ## Careful runs -/

structure Inv (s : SubprocessExecutor) : Prop where
  noPanic : s.panicked = false
  balanced : Balanced s.submitted s.pending.count s.events

theorem pending_finish {index : Nat} {task : ChildTask} (h : s.running[index]? = some task) :
    s.pending.Perm (task.key :: (s.tasks.map SubprocessPlan.key ++
      (s.running.eraseIdx index).map ChildTask.key)) :=
  ((map_eraseIdx_perm ChildTask.key h).append_left _).trans List.perm_middle

theorem Inv.joined (hs : Inv s) {index : Nat} {task : ChildTask}
    (h : s.running[index]? = some task) (join : ChildState) :
    Inv { s with running := s.running.set index { task with join := join } } where
  noPanic := hs.noPanic
  balanced := by
    have hk := map_set_eq (b := { task with join := join }) ChildTask.key h rfl
    simp only [pending, hk]
    exact hs.balanced

theorem Inv.startTask (hs : Inv s) {plan : SubprocessPlan} {tasks : List SubprocessPlan}
    {host : Host} (h : s.tasks = plan :: tasks)
    (ht : { s with tasks := tasks }.startTask plan host = .ok t) : Inv t := by
  have hp : s.pending = plan.key :: (tasks.map SubprocessPlan.key ++ s.running.map ChildTask.key) := by
    rw [pending, h]
    rfl
  rcases startTask_eq_ok ht with ⟨err, rfl⟩ | ⟨handle, rfl⟩
  · exact ⟨hs.noPanic, hs.balanced.finish (count_of_perm_cons (.of_eq hp)) rfl⟩
  · refine ⟨hs.noPanic, ((hs.balanced.report rfl).report rfl).congr fun k => (List.Perm.count_eq ?_ k)⟩
    rw [hp]
    change (tasks.map SubprocessPlan.key ++ (s.running ++ [_]).map ChildTask.key).Perm _
    rw [List.map_append, ← List.append_assoc]
    exact List.perm_append_singleton _ _

theorem Inv.step (hs : Inv s) (h : CarefulStep s label t) : Inv t := by
  obtain ⟨h, hc⟩ := h
  cases h with
  | submit plan outputs hp he =>
    refine ⟨hp, hs.balanced.submit (count_of_perm_cons ?_)⟩
    rw [pending, List.map_append, List.append_assoc]
    exact List.perm_middle
  | cancel key => exact ⟨hs.noPanic, hs.balanced⟩
  | @processCancelled key cancels hp h =>
    have hn : s.abortHandles.get? key = none := hc key (by rw [h]; rfl)
    rw [processCancelledTask]
    dsimp only
    rw [hn]
    exact ⟨hp, hs.balanced⟩
  | startTask host hp h ht => exact hs.startTask h ht
  | @startFails plan tasks err host hp h ht =>
    obtain ⟨t, hok⟩ := startTask_of_startable (s := { s with tasks := tasks }) (hc plan (by rw [h]; rfl))
    rw [ht] at hok
    cases hok
  | exit index status h ht => exact hs.joined h _
  | waitFails index err h ht => exact hs.joined h _
  | @processFinished index task status transferred stderr hp h ht =>
    have hevent : ∃ st, finishedStatus status transferred stderr task.key = nodeEvent task.key st ∧
        st.isTerminal = true := by
      unfold finishedStatus
      split_ifs
      · cases transferred <;> exact ⟨_, rfl, rfl⟩
      · exact ⟨_, rfl, rfl⟩
    obtain ⟨st, he, hterm⟩ := hevent
    have hb := hs.balanced.finish (count_of_perm_cons (pending_finish h)) hterm
    rw [← he] at hb
    exact ⟨hp, hb⟩
  | joinFails index hp h ht => exact ⟨hp, hs.balanced.finish (count_of_perm_cons (pending_finish h)) rfl⟩

theorem Inv.steps {labels : List Label} (h : Steps CarefulStep s labels t) (hs : Inv s) : Inv t := by
  induction h with
  | nil => exact hs
  | cons h _ ih => exact ih (hs.step h)

theorem pending_of_atRest (hp : s.panicked = false) (h : s.AtRest) : s.pending = [] := by
  have htasks : s.tasks = [] := by
    cases ht : s.tasks with
    | nil => rfl
    | cons plan tasks =>
      let host : Host := ⟨fun _ => .error .outOfFuel, fun _ => .error .outOfFuel,
        fun _ _ => .error .outOfFuel, fun _ => .error .outOfFuel⟩
      cases hst : { s with tasks := tasks }.startTask plan host with
      | ok t => cases h _ _ (.startTask host hp ht hst)
      | error err => cases h _ _ (.startFails host hp ht hst)
  have hrunning : s.running = [] := by
    cases hr : s.running with
    | nil => rfl
    | cons task running =>
      have h0 : s.running[0]? = some task := by rw [hr]; rfl
      cases hj : task.join with
      | running => cases h _ _ (.exit 0 ⟨true, ""⟩ h0 hj)
      | exited status => cases h _ _ (.processFinished 0 (.ok ∅) none hp h0 hj)
      | waitFailed err => cases h _ _ (.joinFails 0 hp h0 (by rw [hj]; rfl))
      | aborted => cases h _ _ (.joinFails 0 hp h0 (by rw [hj]; rfl))
  rw [pending, htasks, hrunning]
  rfl

theorem exactlyOnce_of_careful {name : String} {labels : List Label}
    (h : Steps CarefulStep { outputStorageName := name } labels s) :
    ExactlyOnce s.submitted s.events s.panicked s.AtRest := by
  have hs : Inv s := .steps h ⟨rfl, .nil⟩
  exact hs.balanced.exactlyOnce hs.noPanic fun hr key => by
    rw [pending_of_atRest hs.noPanic hr, List.count_nil]

/-! ## The executor comes to rest -/

theorem work_abort (id : Nat) (l : List ChildTask) :
    ((l.map (abort id)).map fun t => t.join.work).sum ≤ (l.map fun t => t.join.work).sum := by
  induction l with
  | nil => exact Nat.le_refl _
  | cons task l ih =>
    have ht : (abort id task).join.work ≤ task.join.work := by
      unfold abort
      split
      · rename_i hj
        split_ifs
        · rw [hj]
          exact Nat.le_add_left 1 1
        · exact Nat.le_refl _
      · exact Nat.le_refl _
    simp only [List.map_cons, List.sum_cons]
    omega

theorem work_startTask {plan : SubprocessPlan} {host : Host} (h : s.startTask plan host = .ok t) :
    t.work ≤ s.work + 2 := by
  rcases startTask_eq_ok h with ⟨err, rfl⟩ | ⟨handle, rfl⟩
  · exact Nat.le_add_right _ _
  · simp only [work, List.map_append, List.map_cons, List.map_nil, List.sum_append, List.sum_cons,
      List.sum_nil, ChildState.work]
    omega

theorem work_lt (h : Step s label t) (ho : label.isOwn = true) : t.work < s.work := by
  cases h with
  | submit _ _ _ _ => cases ho
  | cancel _ => cases ho
  | @processCancelled key cancels hp h =>
    have hlen : s.cancels.length = cancels.length + 1 := by rw [h]; rfl
    unfold processCancelledTask
    cases s.abortHandles.get? key with
    | none =>
      simp only [work]
      omega
    | some id =>
      have := work_abort id s.running
      simp only [work]
      omega
  | @startTask _ plan tasks host hp h ht =>
    have hlen : s.tasks.length = tasks.length + 1 := by rw [h]; rfl
    have := work_startTask ht
    simp only [work] at this ⊢
    omega
  | @startFails plan tasks err host hp h ht =>
    have hlen : s.tasks.length = tasks.length + 1 := by rw [h]; rfl
    simp only [work]
    omega
  | @exit index task status h ht =>
    have := sum_map_set (b := { task with join := .exited status }) (fun t => t.join.work) h
    have hw : task.join.work = 2 := by rw [ht]; rfl
    change _ + task.join.work = _ + 1 at this
    simp only [work]
    omega
  | @waitFails index task err h ht =>
    have := sum_map_set (b := { task with join := .waitFailed err }) (fun t => t.join.work) h
    have hw : task.join.work = 2 := by rw [ht]; rfl
    change _ + task.join.work = _ + 1 at this
    simp only [work]
    omega
  | @processFinished index task status transferred stderr hp h ht =>
    have := sum_map_eraseIdx (fun t => t.join.work) h
    have hw : task.join.work = 1 := by rw [ht]; rfl
    simp only [work, processFinishedTask]
    omega
  | @joinFails index task err hp h ht =>
    have := sum_map_eraseIdx (fun t => t.join.work) h
    have hw : task.join.work = 1 := by
      cases hj : task.join with
      | running =>
        rw [hj] at ht
        cases ht
      | _ => rfl
    simp only [work]
    omega

end SubprocessExecutor

end Tierkreis
