import Tierkreis.Executor.Subprocess

/-!
# One terminal event for each task

Both executors keep the account of their tasks as long as no cancel request
finds a task to abort: an aborted task is reported as cancelled, and the loop
still reads its join handle.
-/

namespace Tierkreis

open Lib Lib.Run

/-- While no request aborts a task, no builtin panics and workers can be started, the loops of
the in-memory and of the subprocess executor run on, no task has two terminal events, and once
an executor has come to rest each has had one. Its own steps bring it to rest. -/
theorem one_terminal_event (runBuiltin : String → HashMap String Bytes → Result (HashMap String Bytes))
    (name : String) :
    ((∀ labels s,
      Steps (InMemoryExecutor.CarefulStep runBuiltin) { outputStorageName := name } labels s →
        ExactlyOnce s.submitted s.events s.panicked (s.AtRest runBuiltin)) ∧
      ∀ s label t, InMemoryExecutor.Step runBuiltin s label t → label.isOwn = true →
        t.work < s.work) ∧
    (∀ labels s, Steps SubprocessExecutor.CarefulStep { outputStorageName := name } labels s →
        ExactlyOnce s.submitted s.events s.panicked s.AtRest) ∧
      ∀ s label t, SubprocessExecutor.Step s label t → label.isOwn = true → t.work < s.work :=
  ⟨⟨fun _ _ h => InMemoryExecutor.exactlyOnce_of_careful h,
      fun _ _ _ h ho => InMemoryExecutor.work_lt h ho⟩,
    fun _ _ h => SubprocessExecutor.exactlyOnce_of_careful h,
    fun _ _ _ h ho => SubprocessExecutor.work_lt h ho⟩

/-! ## One task, finished or cancelled -/

def workerTask : TaskPlan where
  run := (0, 0)
  loc := [.node 0]
  executionContext := none
  workerName := "worker"
  taskName := "task"
  inputs := ∅
  outputs := []
  outputStorageName := none
  resources := ∅
  environment := ∅
  taskHandle := none

/-- A host where workers start as process 1. -/
def plainHost : Host where
  identity _ := .error (.miette "Could not read subprocess status")
  kill _ := .error (.miette "No such file or directory")
  spawnWorker _ _ := .ok (some 1)
  childIdentity pid := .ok (pid, 0)

def noOutputs (_ : String) (_ : HashMap String Bytes) : Result (HashMap String Bytes) := .ok ∅

theorem inMemory_finished : ∃ labels s,
    Steps (InMemoryExecutor.CarefulStep noOutputs) { outputStorageName := "memory" } labels s ∧
      s.submitted = [workerTask.key] ∧ terminals workerTask.key s.events = 1 :=
  ⟨_, _,
    .cons ⟨.submit workerTask rfl, trivial⟩ <|
    .cons ⟨.startTask (.ok ∅) rfl rfl, trivial⟩ <|
    .cons ⟨.begin 0 rfl rfl, trivial⟩ <|
    .cons ⟨.finish 0 rfl rfl, fun _ _ _ => nofun⟩ <|
    .cons ⟨.processFinished 0 (.ok ∅) rfl rfl rfl, trivial⟩ (.nil _),
    rfl, by decide⟩

theorem subprocess_finished : ∃ labels s,
    Steps SubprocessExecutor.CarefulStep { outputStorageName := "memory" } labels s ∧
      s.submitted = [workerTask.key] ∧ terminals workerTask.key s.events = 1 := by
  refine ⟨_, _,
    .cons ⟨.submit workerTask ∅ rfl rfl, trivial⟩ <|
    .cons ⟨.startTask plainHost rfl rfl rfl, fun plan hplan => ?_⟩ <|
    .cons ⟨.exit 0 ⟨true, ""⟩ rfl rfl, trivial⟩ <|
    .cons ⟨.processFinished 0 (.ok ∅) none rfl rfl rfl, trivial⟩ (.nil _),
    rfl, by decide⟩
  cases hplan
  exact ⟨nofun, fun child hc => ⟨1, (1, 0), (Except.ok.inj hc).symm, rfl⟩⟩

/-- One task in each executor that runs to its end. -/
theorem one_terminal_event_oneTask :
    (∃ s : InMemoryExecutor, s.submitted = [workerTask.key] ∧ terminals workerTask.key s.events = 1 ∧
      ExactlyOnce s.submitted s.events s.panicked (s.AtRest noOutputs)) ∧
    ∃ s : SubprocessExecutor, s.submitted = [workerTask.key] ∧ terminals workerTask.key s.events = 1 ∧
      ExactlyOnce s.submitted s.events s.panicked s.AtRest := by
  obtain ⟨labels, s, h, hs, ht⟩ := inMemory_finished
  obtain ⟨labels', s', h', hs', ht'⟩ := subprocess_finished
  exact ⟨⟨s, hs, ht, (one_terminal_event noOutputs "memory").1.1 labels s h⟩,
    s', hs', ht', (one_terminal_event noOutputs "memory").2.1 labels' s' h'⟩

/-- A cancelled task in memory runs on to its own terminal event, or ends the loop when it had
not begun. A cancelled subprocess is reported as failed besides. -/
theorem two_terminal_events :
    (¬ ∀ labels s, Steps (InMemoryExecutor.Step noOutputs) { outputStorageName := "memory" } labels s →
      ExactlyOnce s.submitted s.events s.panicked (s.AtRest noOutputs)) ∧
    (¬ ∀ labels s, Steps (InMemoryExecutor.Step noOutputs) { outputStorageName := "memory" } labels s →
      s.panicked = false) ∧
    ¬ ∀ labels s, Steps SubprocessExecutor.Step { outputStorageName := "memory" } labels s →
      ExactlyOnce s.submitted s.events s.panicked s.AtRest := by
  refine ⟨fun hall => ?_, fun hall => ?_, fun hall => ?_⟩
  · have h := hall _ _ (
      .cons (.submit workerTask rfl) <|
      .cons (.startTask (.ok ∅) rfl rfl) <|
      .cons (.begin 0 rfl rfl) <|
      .cons (.cancel workerTask.key) <|
      .cons (.processCancelled rfl rfl) <|
      .cons (.finish 0 rfl rfl) <|
      .cons (.processFinished 0 (.ok ∅) rfl rfl rfl) (.nil _))
    exact absurd (h.atMostOnce workerTask.key) (by decide)
  · have h := hall _ _ (
      .cons (.submit workerTask rfl) <|
      .cons (.startTask (.ok ∅) rfl rfl) <|
      .cons (.cancel workerTask.key) <|
      .cons (.processCancelled rfl rfl) <|
      .cons (.joinFails 0 rfl rfl (.inl rfl)) (.nil _))
    cases h
  · have h := hall _ _ (
      .cons (.submit workerTask ∅ rfl rfl) <|
      .cons (.startTask plainHost rfl rfl rfl) <|
      .cons (.cancel workerTask.key) <|
      .cons (.processCancelled rfl rfl) <|
      .cons (.joinFails 0 rfl rfl rfl) (.nil _))
    exact absurd (h.atMostOnce workerTask.key) (by decide)

end Tierkreis
