import Tierkreis.Executor.Nexus
import Tierkreis.Executor.Qrmi

/-!
# Remote tasks end once

Both executors for remote services account for every task until a call fails
where its error is reported although the task is still followed, or until a loop
waits for itself.
-/

namespace Tierkreis

open Lib Lib.Run

namespace NexusExecutor

structure Sound (s : NexusExecutor) : Prop where
  endsOnce : AllEndOnce s
  exactlyOnce : ExactlyOnce s.submitted s.events s.panicked s.AtRest

theorem sound_iff {s : NexusExecutor} : Sound s ↔ AllEndOnce s :=
  ⟨fun h => h.endsOnce, fun h => ⟨h, h.account.exactlyOnce h.noPanic fun hr key => by
    rw [pending_of_atRest ⟨h.noPanic, h.notBlocked⟩ hr, List.count_nil]⟩⟩

end NexusExecutor

namespace QrmiExecutor

structure Sound (s : QrmiExecutor) : Prop where
  endsOnce : AllEndOnce s
  exactlyOnce : ExactlyOnce s.submitted s.events s.panicked s.AtRest

theorem sound_iff {s : QrmiExecutor} : Sound s ↔ AllEndOnce s :=
  ⟨fun h => h.endsOnce, fun h => ⟨h, h.account.exactlyOnce h.noPanic fun hr =>
    pending_of_atRest ⟨h.noPanic, h.notBlocked⟩ hr⟩⟩

end QrmiExecutor

/-- In a run of the Nexus executor every task is accounted for and the loop goes on exactly when
the service cancels what it is asked to, no future fails and the requests fit into the channel.
In a run of the QRMI executor it is so exactly when the resource stops what it is asked to, and
no future is calling the resource at that time. -/
theorem remote_tasks_end_once (labels : List NexusExecutor.Label) (s : NexusExecutor)
    (labels' : List QrmiExecutor.Label) (s' : QrmiExecutor) :
    (Steps (fun s label t => NexusExecutor.Step s label t ∧ NexusExecutor.Sound t) {} labels s ↔
        Steps (fun s label t => NexusExecutor.Step s label t ∧ NexusExecutor.Careful s label) {}
          labels s) ∧
      (Steps (fun s label t => QrmiExecutor.Step s label t ∧ QrmiExecutor.Sound t) {} labels' s' ↔
        Steps (fun s label t => QrmiExecutor.Step s label t ∧ QrmiExecutor.Careful s label) {}
          labels' s') := by
  constructor
  · simp only [NexusExecutor.sound_iff]
    exact NexusExecutor.steps_iff_careful
  · simp only [QrmiExecutor.sound_iff]
    exact QrmiExecutor.steps_iff_careful

/-! ## Calls that fail, and a loop that waits for its future -/

def nexusTask : NexusExecutor.BackgroundTaskPlan where
  key := ((0, 0), [.node 0])
  jobId := "1"
  outputs := ∅

/-- The job has failed. -/
def failedJob : NexusExecutor.Client where
  refreshTokens := .ok ()
  getJob := .ok { status := .error, statusMessage := "", items := [] }
  results _ := .ok []
  save _ _ := .ok ()

def qrmiTask : QrmiExecutor.BackgroundTask where
  key := ((0, 0), [.node 0])
  taskId := "1"
  output := memorySpec

/-- A status stream that breaks off gives a second terminal event, and so does a task that is
not stopped. A job that is not cancelled ends the loop. A request that is processed while a
future waits for a status is the last thing the loop does. -/
theorem remote_tasks_fail :
    (¬ ∀ labels s, Steps NexusExecutor.Step {} labels s →
      ∀ key, terminals key s.events ≤ s.submitted.count key) ∧
    (¬ ∀ labels s, Steps NexusExecutor.Step {} labels s → s.panicked = false) ∧
    (¬ ∀ labels s, Steps QrmiExecutor.Step {} labels s →
      ∀ key, terminals key s.events ≤ s.submitted.count key) ∧
    ¬ ∀ labels s, Steps QrmiExecutor.Step {} labels s → s.AtRest →
      ∀ key, terminals key s.events = s.submitted.count key := by
  refine ⟨fun hall => ?_, fun hall => ?_, fun hall => ?_, fun hall => ?_⟩
  · have h := hall _ _ (
      .cons (.submit nexusTask) <|
      .cons (.monitor ⟨rfl, rfl⟩ rfl) <|
      .cons (.listen 0 (.error (.miette "Connection refused")) rfl rfl) <|
      .cons (.finish 0 failedJob ⟨rfl, rfl⟩ rfl rfl) (.nil _))
    exact absurd (h nexusTask.key) (by decide)
  · have h := hall _ _ (
      .cons (.submit nexusTask) <|
      .cons (.monitor ⟨rfl, rfl⟩ rfl) <|
      .cons (.cancel nexusTask.key) <|
      .cons (.processCancelled (.error (.miette "Connection refused")) ⟨rfl, rfl⟩ rfl) (.nil _))
    cases h
  · have h := hall _ _ (
      .cons (.submit qrmiTask) <|
      .cons (.register (.ok ()) ⟨rfl, rfl⟩ rfl) <|
      .cons (.cancel qrmiTask.key) <|
      .cons (.processCancelled (.error (.miette "Connection refused")) ⟨rfl, rfl⟩ rfl) <|
      .cons (.start 0 ⟨rfl, rfl⟩ rfl rfl) <|
      .cons (.status 0 (.ok .cancelled) ⟨rfl, rfl⟩ rfl rfl) (.nil _))
    exact absurd (h qrmiTask.key) (by decide)
  · have h := hall _ _ (
      .cons (.submit qrmiTask) <|
      .cons (.register (.ok ()) ⟨rfl, rfl⟩ rfl) <|
      .cons (.start 0 ⟨rfl, rfl⟩ rfl rfl) <|
      .cons (.cancel qrmiTask.key) <|
      .cons (.processCancelled (.ok ()) ⟨rfl, rfl⟩ rfl) (.nil _))
    refine absurd (h (fun label t hstep => ?_) qrmiTask.key) (by decide)
    cases hstep with
    | submit | cancel => rfl
    | processCancelled _ hr | register _ hr | start _ hr | wake _ hr | status _ _ hr
    | result _ _ _ hr | logs _ _ hr | finish _ hr => cases hr.2

end Tierkreis
