import Tierkreis.Event
import Tierkreis.Graph
import Mathlib.Data.Finset.Basic

/-!
# Run state interface

The state of one node as both stores fold it from the events, and the traits
that the orchestrator and the runtime use a store through.
-/

namespace Tierkreis

open Lib

abbrev Time := Nat

abbrev Uuid := Nat

/-- A run and its attempt. -/
abbrev RunAttempt := Uuid × Nat

structure NodeState where
  name : Option String := none
  scheduledTime : Option Time := none
  queuedTime : Option Time := none
  pausedTime : Option Time := none
  unpausedTime : Option Time := none
  runningTime : Option Time := none
  completeTime : Option Time := none
  cancelledTime : Option Time := none
  errorTime : Option Time := none
  outputs : Option Specs := none
  cond : Option Bool := none
  loopIndex : Option Nat := none
  mapCompleted : Option (List Bool) := none
  error : Option String := none
  errorDetail : Option String := none
  handle : Option TaskHandle := none
  executionContext : Option String := none

namespace NodeState

def isPaused (s : NodeState) : Bool := s.pausedTime.isSome && s.unpausedTime.isNone

end NodeState

abbrev NodeStates := HashMap Location NodeState

structure WorkflowRunStateSummary where
  runId : Uuid
  attempt : Nat
  workflowId : Uuid
  name : Option String
  startedTime : Option Time
  queuedTime : Option Time
  completeTime : Option Time
  cancelledTime : Option Time
  errorTime : Option Time
  pausedLocations : List Location
  erroredLocations : List Location

/-- The runs currently being executed. -/
structure RuntimeWatchState where
  activeRuns : Finset RunAttempt

namespace RuntimeWatchState

/-- A write takes a stopped run out of the active runs, and puts any other in. -/
def update (w : RuntimeWatchState) (run : RunAttempt) (stopped : Bool) : RuntimeWatchState :=
  if stopped then ⟨w.activeRuns.erase run⟩ else ⟨insert run w.activeRuns⟩

theorem mem_update {w : RuntimeWatchState} {run r : RunAttempt} {stopped : Bool} :
    r ∈ (w.update run stopped).activeRuns ↔
      if r = run then stopped = false else r ∈ w.activeRuns := by
  cases stopped <;> by_cases h : r = run <;> simp [update, h]

end RuntimeWatchState

/-- The part of `WorkflowRunState` that a planning pass reads, for a store of type `σ`
and one attempt of it. -/
class WorkflowRunState (σ : Type) where
  read : σ → RunAttempt → Location → Result NodeState
  readMany : σ → RunAttempt → List Location → Result NodeStates
  loadNamedInputFromLocation : σ → RunAttempt → Location → String → Result AssetSpec

end Tierkreis
