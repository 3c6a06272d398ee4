import Tierkreis.Executor.Interface
import Tierkreis.Lib.Run

/-!
# The in-memory executor

One loop takes tasks, cancel requests and finished tasks in any order. A task
runs on the blocking pool, where it can be aborted only before it begins. Any
thread may send to the two queues.
-/

namespace Tierkreis

open Lib Lib.Run

/-- Where the blocking task behind a join handle is. -/
inductive JoinState where
  | waiting
  | started
  | finished (output : Result (HashMap String Bytes))
  | panicked
  | aborted

/-- How many steps a blocking task still takes. -/
def JoinState.work : JoinState → Nat
  | .waiting => 3
  | .started => 2
  | _ => 1

/-- A spawned task. `id` is what an abort handle refers to. -/
structure BlockingTask where
  id : Nat
  key : TaskKey
  outputStorageName : String
  taskName : String
  inputs : HashMap String Bytes
  join : JoinState

/-- `submitted` lists the tasks that `execute` has sent. `panicked` is the end of the loop. -/
structure InMemoryExecutor where
  outputStorageName : String
  tasks : List (TaskPlan × String) := []
  cancels : List TaskKey := []
  running : List BlockingTask := []
  abortHandles : HashMap TaskKey Nat := ∅
  nextId : Nat := 0
  events : List RuntimeEvent := []
  submitted : List TaskKey := []
  panicked : Bool := false

namespace InMemoryExecutor

inductive Label where
  | submit (plan : TaskPlan)
  | cancel (key : TaskKey)
  | processCancelled
  /-- `loaded` is what `load_assets` gives. -/
  | startTask (loaded : Result (HashMap String Bytes))
  /-- A thread of the pool takes a task. -/
  | begin (index : Nat)
  | finish (index : Nat)
  /-- `saved` is what `save_assets` gives. -/
  | processFinished (index : Nat) (saved : Result Specs)
  | joinFails (index : Nat)

/-- The steps of the loop and of the pool. -/
def Label.isOwn : Label → Bool
  | submit _ | cancel _ => false
  | _ => true

/-- An abort stops a task that has not begun. -/
def abort (id : Nat) (t : BlockingTask) : BlockingTask :=
  match t.join with
  | .waiting => if t.id = id then { t with join := .aborted } else t
  | _ => t

def processCancelledTask (s : InMemoryExecutor) (key : TaskKey) : InMemoryExecutor :=
  match s.abortHandles.get? key with
  | some id =>
    { s with
      abortHandles := s.abortHandles.erase key
      running := s.running.map (abort id)
      events := s.events ++ [sendCancelled key] }
  | none => s

def startTask (s : InMemoryExecutor) (plan : TaskPlan) (outputStorageName : String)
    (loaded : Result (HashMap String Bytes)) : InMemoryExecutor :=
  let s := { s with events := s.events ++ [sendRunning plan.key] }
  match loaded with
  | .error err => { s with events := s.events ++ [sendError plan.key err] }
  | .ok inputs =>
    { s with
      running := s.running ++ [{
        id := s.nextId
        key := plan.key
        outputStorageName := outputStorageName
        taskName := plan.taskName
        inputs := inputs
        join := .waiting }]
      abortHandles := s.abortHandles.insert plan.key s.nextId
      nextId := s.nextId + 1 }

/-- The events of a finished task. -/
def finishedEvent (key : TaskKey) (output : Result (HashMap String Bytes)) (saved : Result Specs) :
    RuntimeEvent :=
  match output with
  | .error err => sendError key err
  | .ok _ =>
    match saved with
    | .ok outputs => sendComplete key outputs
    | .error err => sendError key err

def processFinishedTask (s : InMemoryExecutor) (index : Nat) (t : BlockingTask)
    (output : Result (HashMap String Bytes)) (saved : Result Specs) : InMemoryExecutor :=
  { s with
    running := s.running.eraseIdx index
    abortHandles := s.abortHandles.erase t.key
    events := s.events ++ [finishedEvent t.key output saved] }

/-- What the blocking closure leaves. A panic is caught by the join handle. -/
def joined : Result (HashMap String Bytes) → JoinState
  | .error (.panic _) => .panicked
  | output => .finished output

variable (runBuiltin : String → HashMap String Bytes → Result (HashMap String Bytes))

inductive Step : InMemoryExecutor → Label → InMemoryExecutor → Prop
  | submit {s : InMemoryExecutor} (plan : TaskPlan) (hp : s.panicked = false) :
      Step s (.submit plan)
        { s with
          tasks := s.tasks ++ [(plan, plan.outputStorageName.getD s.outputStorageName)]
          submitted := s.submitted ++ [plan.key] }
  | cancel {s : InMemoryExecutor} (key : TaskKey) :
      Step s (.cancel key) { s with cancels := s.cancels ++ [key] }
  | processCancelled {s : InMemoryExecutor} {key : TaskKey} {cancels : List TaskKey}
      (hp : s.panicked = false) (h : s.cancels = key :: cancels) :
      Step s .processCancelled ({ s with cancels := cancels }.processCancelledTask key)
  | startTask {s : InMemoryExecutor} {plan : TaskPlan} {outputStorageName : String}
      {tasks : List (TaskPlan × String)} (loaded : Result (HashMap String Bytes))
      (hp : s.panicked = false) (h : s.tasks = (plan, outputStorageName) :: tasks) :
      Step s (.startTask loaded)
        ({ s with tasks := tasks }.startTask plan outputStorageName loaded)
  | begin {s : InMemoryExecutor} (index : Nat) {t : BlockingTask}
      (h : s.running[index]? = some t) (ht : t.join = .waiting) :
      Step s (.begin index) { s with running := s.running.set index { t with join := .started } }
  | finish {s : InMemoryExecutor} (index : Nat) {t : BlockingTask}
      (h : s.running[index]? = some t) (ht : t.join = .started) :
      Step s (.finish index)
        { s with
          running := s.running.set index { t with join := joined (runBuiltin t.taskName t.inputs) } }
  | processFinished {s : InMemoryExecutor} (index : Nat) {t : BlockingTask}
      {output : Result (HashMap String Bytes)} (saved : Result Specs) (hp : s.panicked = false)
      (h : s.running[index]? = some t) (ht : t.join = .finished output) :
      Step s (.processFinished index saved) (s.processFinishedTask index t output saved)
  | joinFails {s : InMemoryExecutor} (index : Nat) {t : BlockingTask} (hp : s.panicked = false)
      (h : s.running[index]? = some t) (ht : t.join = .aborted ∨ t.join = .panicked) :
      Step s (.joinFails index)
        { s with running := s.running.eraseIdx index, panicked := true }

/-- No request finds a task to abort, and no builtin panics on its inputs. -/
def CarefulStep (s : InMemoryExecutor) (label : Label) (t : InMemoryExecutor) : Prop :=
  Step runBuiltin s label t ∧
    match label with
    | .processCancelled => ∀ key ∈ s.cancels.head?, s.abortHandles.get? key = none
    | .finish index => ∀ t ∈ s.running[index]?, ∀ text,
        runBuiltin t.taskName t.inputs ≠ .error (.panic text)
    | _ => True

/-- The tasks that have had no terminal event by right. -/
def pending (s : InMemoryExecutor) : List TaskKey :=
  s.tasks.map (fun t => t.1.key) ++ s.running.map BlockingTask.key

/-- Nothing but a new task or request can make a step. -/
def AtRest (s : InMemoryExecutor) : Prop := ∀ label t, Step runBuiltin s label t → label.isOwn = false

/-- How many steps of its own the executor can make at most. -/
def work (s : InMemoryExecutor) : Nat :=
  s.cancels.length + 4 * s.tasks.length + (s.running.map fun t => t.join.work).sum

variable {runBuiltin} {s t : InMemoryExecutor} {label : Label}

/-! ## Careful runs -/

structure Inv (s : InMemoryExecutor) : Prop where
  noPanic : s.panicked = false
  balanced : Balanced s.submitted s.pending.count s.events
  joins : ∀ t ∈ s.running, t.join ≠ .aborted ∧ t.join ≠ .panicked

theorem pending_finish {index : Nat} {task : BlockingTask} (h : s.running[index]? = some task) :
    s.pending.Perm (task.key :: (s.tasks.map (fun t => t.1.key) ++
      (s.running.eraseIdx index).map BlockingTask.key)) :=
  ((map_eraseIdx_perm BlockingTask.key h).append_left _).trans List.perm_middle

theorem Inv.startTask (hs : Inv s) {plan : TaskPlan} {outputStorageName : String}
    {tasks : List (TaskPlan × String)} (h : s.tasks = (plan, outputStorageName) :: tasks)
    (loaded : Result (HashMap String Bytes)) :
    Inv ({ s with tasks := tasks }.startTask plan outputStorageName loaded) := by
  have hp : s.pending = plan.key ::
      (tasks.map (fun t => t.1.key) ++ s.running.map BlockingTask.key) := by
    rw [pending, h]
    rfl
  have hb : Balanced s.submitted s.pending.count (s.events ++ [sendRunning plan.key]) :=
    hs.balanced.report rfl
  cases loaded with
  | error err => exact ⟨hs.noPanic, hb.finish (count_of_perm_cons (.of_eq hp)) rfl, hs.joins⟩
  | ok inputs =>
    refine ⟨hs.noPanic, hb.congr fun k => (List.Perm.count_eq ?_ k), fun t ht => ?_⟩
    · rw [hp]
      change (tasks.map (fun t => t.1.key) ++ (s.running ++ [_]).map BlockingTask.key).Perm _
      rw [List.map_append, ← List.append_assoc]
      exact List.perm_append_singleton _ _
    · rcases List.mem_append.1 ht with ht | ht
      · exact hs.joins t ht
      · rw [List.mem_singleton.1 ht]
        exact ⟨nofun, nofun⟩

theorem Inv.joined (hs : Inv s) {index : Nat} {task : BlockingTask}
    (h : s.running[index]? = some task) {join : JoinState}
    (hj : join ≠ .aborted ∧ join ≠ .panicked) :
    Inv { s with running := s.running.set index { task with join := join } } where
  noPanic := hs.noPanic
  balanced := by
    have hk := map_set_eq (b := { task with join := join }) BlockingTask.key h rfl
    simp only [pending, hk]
    exact hs.balanced
  joins t ht := by
    rcases List.mem_or_eq_of_mem_set ht with ht | rfl
    · exact hs.joins t ht
    · exact hj

theorem Inv.step (hs : Inv s) (h : CarefulStep runBuiltin s label t) : Inv t := by
  obtain ⟨h, hc⟩ := h
  cases h with
  | submit plan hp =>
    refine ⟨hp, hs.balanced.submit (count_of_perm_cons ?_), hs.joins⟩
    rw [pending, List.map_append, List.append_assoc]
    exact List.perm_middle
  | cancel key => exact ⟨hs.noPanic, hs.balanced, hs.joins⟩
  | @processCancelled key cancels hp h =>
    have hn : s.abortHandles.get? key = none := hc key (by rw [h]; rfl)
    rw [processCancelledTask]
    dsimp only
    rw [hn]
    exact ⟨hp, hs.balanced, hs.joins⟩
  | startTask loaded hp h => exact hs.startTask h loaded
  | begin index h ht => exact hs.joined h ⟨nofun, nofun⟩
  | @finish index task h ht =>
    refine hs.joined h ?_
    have hno := hc task (by rw [h]; rfl)
    cases hr : runBuiltin task.taskName task.inputs with
    | ok outputs => exact ⟨nofun, nofun⟩
    | error f =>
      cases f with
      | panic text => exact absurd hr (hno text)
      | err report => exact ⟨nofun, nofun⟩
      | outOfFuel => exact ⟨nofun, nofun⟩
  | @processFinished index task output saved hp h ht =>
    refine ⟨hp, ?_, fun t ht => hs.joins t (List.mem_of_mem_eraseIdx ht)⟩
    have hevent : ∃ status, finishedEvent task.key output saved = nodeEvent task.key status ∧
        status.isTerminal = true := by
      cases output <;> cases saved <;> exact ⟨_, rfl, rfl⟩
    obtain ⟨status, he, hterm⟩ := hevent
    have hb := hs.balanced.finish (count_of_perm_cons (pending_finish h)) hterm
    rwa [← he] at hb
  | joinFails index hp h ht =>
    have hj := hs.joins _ (List.mem_of_getElem? h)
    rcases ht with ht | ht
    · exact absurd ht hj.1
    · exact absurd ht hj.2

theorem Inv.steps {labels : List Label} (h : Steps (CarefulStep runBuiltin) s labels t)
    (hs : Inv s) : Inv t := by
  induction h with
  | nil => exact hs
  | cons h _ ih => exact ih (hs.step h)

/-- An executor that is not at rest can go on. -/
theorem pending_of_atRest (hp : s.panicked = false) (h : s.AtRest runBuiltin) : s.pending = [] := by
  have htasks : s.tasks = [] := by
    cases ht : s.tasks with
    | nil => rfl
    | cons task tasks => cases h _ _ (.startTask (.ok ∅) hp ht)
  have hrunning : s.running = [] := by
    cases hr : s.running with
    | nil => rfl
    | cons task running =>
      have h0 : s.running[0]? = some task := by rw [hr]; rfl
      cases hj : task.join with
      | waiting => cases h _ _ (.begin 0 h0 hj)
      | started => cases h _ _ (.finish 0 h0 hj)
      | finished output => cases h _ _ (.processFinished 0 (.ok ∅) hp h0 hj)
      | panicked => cases h _ _ (.joinFails 0 hp h0 (.inr hj))
      | aborted => cases h _ _ (.joinFails 0 hp h0 (.inl hj))
  rw [pending, htasks, hrunning]
  rfl

theorem exactlyOnce_of_careful {name : String} {labels : List Label}
    (h : Steps (CarefulStep runBuiltin) { outputStorageName := name } labels s) :
    ExactlyOnce s.submitted s.events s.panicked (s.AtRest runBuiltin) := by
  have hs : Inv s := .steps h ⟨rfl, .nil, nofun⟩
  exact hs.balanced.exactlyOnce hs.noPanic fun hr key => by
    rw [pending_of_atRest hs.noPanic hr, List.count_nil]

/-! ## The executor comes to rest -/

theorem work_abort (id : Nat) (l : List BlockingTask) :
    ((l.map (abort id)).map fun t => t.join.work).sum ≤
      (l.map fun t => t.join.work).sum := by
  induction l with
  | nil => exact Nat.le_refl _
  | cons task l ih =>
    have ht : (abort id task).join.work ≤ task.join.work := by
      unfold abort
      split
      · rename_i hj
        split_ifs
        · rw [hj]
          exact Nat.le_add_left 1 2
        · exact Nat.le_refl _
      · exact Nat.le_refl _
    simp only [List.map_cons, List.sum_cons]
    omega

/-- Every step of its own brings the executor closer to rest. -/
theorem work_lt (h : Step runBuiltin s label t) (ho : label.isOwn = true) : t.work < s.work := by
  cases h with
  | submit _ _ => cases ho
  | cancel _ => cases ho
  | @processCancelled key cancels hp h =>
    have hlen : s.cancels.length = cancels.length + 1 := by rw [h]; rfl
    unfold processCancelledTask
    cases s.abortHandles.get? key with
    | none =>
      simp only [work]
      omega
    | some id =>
      have := work_abort id s.running
      simp only [work]
      omega
  | @startTask plan outputStorageName tasks loaded hp h =>
    have hlen : s.tasks.length = tasks.length + 1 := by rw [h]; rfl
    cases loaded with
    | error err =>
      simp only [work, startTask]
      omega
    | ok inputs =>
      simp only [work, startTask, List.map_append, List.map_cons, List.map_nil, List.sum_append,
        List.sum_cons, List.sum_nil, JoinState.work]
      omega
  | @begin index task h ht =>
    have := sum_map_set (b := { task with join := .started }) (fun t => t.join.work) h
    have hw : task.join.work = 3 := by rw [ht]; rfl
    change _ + task.join.work = _ + 2 at this
    simp only [work]
    omega
  | @finish index task h ht =>
    have := sum_map_set (b := { task with join := joined (runBuiltin task.taskName task.inputs) })
      (fun t => t.join.work) h
    have hj : (joined (runBuiltin task.taskName task.inputs)).work = 1 := by
      unfold joined
      split <;> rfl
    have hw : task.join.work = 2 := by rw [ht]; rfl
    change _ + task.join.work = _ + (joined (runBuiltin task.taskName task.inputs)).work at this
    simp only [work]
    omega
  | @processFinished index task output saved hp h ht =>
    have := sum_map_eraseIdx (fun t => t.join.work) h
    have hw : task.join.work = 1 := by rw [ht]; rfl
    simp only [work, processFinishedTask]
    omega
  | @joinFails index task hp h ht =>
    have := sum_map_eraseIdx (fun t => t.join.work) h
    have hj : task.join.work = 1 := by rcases ht with ht | ht <;> rw [ht] <;> rfl
    simp only [work]
    omega

end InMemoryExecutor

end Tierkreis
