import Tierkreis.Asset
import Tierkreis.Location

/-!
# Events

What executors and the orchestrator report about nodes and about the run.
-/

namespace Tierkreis

abbrev TaskHandle := String

inductive RunningStateUpdate where
  | switching (cond : Bool)
  | evalling (inputs : Specs)
  | looping (index : Nat) (inputs : Specs)
  | mapStarted (inputSets : List Specs)
  | mapElemComplete (bits : List Bool)

inductive NodeStatus where
  | scheduled (executionContext : Option String)
  | queued (handle : Option TaskHandle)
  | running (stateUpdate : Option RunningStateUpdate)
  | paused
  | complete (outputs : Specs)
  | cancelled
  | error (error : String) (detail : Option String)

namespace NodeStatus

/-- The task is over with this status. -/
def isTerminal : NodeStatus → Bool
  | .complete _ | .cancelled | .error .. => true
  | _ => false

/-- What an executor says of a task while it runs and when it ends. -/
def isReport : NodeStatus → Bool
  | .queued _ | .running none | .complete _ | .cancelled | .error .. => true
  | _ => false

end NodeStatus

structure NodeEvent where
  loc : Location
  name : Option String
  status : NodeStatus

inductive WorkflowRunEvent where
  | started
  | paused
  | cancelled
  | errored
  | completed
  | queued
  | nodeEvents (events : List NodeEvent)

/-- A run by its id and attempt, with one event of it. -/
structure RuntimeEvent where
  workflowRunId : Nat
  attempt : Nat
  event : WorkflowRunEvent

end Tierkreis
