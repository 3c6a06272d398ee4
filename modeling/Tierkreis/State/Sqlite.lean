import Tierkreis.State.Tables

/-!
# The SQLite run state

A batch of node events becomes one row update for each event, the rows of the
subgraph inputs they carry and the rows of the outputs they carry. The inputs
are inserted first, each by a statement of its own, and the rest in one
transaction.
-/

namespace Tierkreis.Sql

open Lib Lib.Txn

/-- The columns an event sets. -/
def eventColumns (K : Crates) (now : Time) (e : NodeEvent) : Result NodeRow :=
  let row : NodeRow := { name := e.name }
  match e.status with
  | .scheduled executionContext =>
    .ok { row with scheduledTime := some now, executionContext := executionContext }
  | .queued handle => .ok { row with queuedTime := some now, handle := handle }
  | .paused => .ok { row with pausedTime := some now }
  | .running none => .ok { row with runningTime := some now }
  | .running (some (.switching cond)) =>
    .ok { row with runningTime := some now, cond := some cond }
  | .running (some (.evalling _)) => .ok { row with runningTime := some now }
  | .running (some (.looping index _)) =>
    (toI32 index).map fun i => { row with runningTime := some now, loopIndex := some i }
  | .running (some (.mapStarted inputSets)) =>
    (toI32 inputSets.length).map fun size =>
      { row with
        runningTime := some now
        mapSize := some size
        mapCompleted := some (K.intoVec (List.replicate inputSets.length false)) }
  | .running (some (.mapElemComplete bits)) =>
    .ok { row with runningTime := some now, mapCompleted := some (K.intoVec bits) }
  | .complete _ => .ok { row with completeTime := some now }
  | .cancelled => .ok { row with cancelledTime := some now }
  | .error error detail =>
    .ok { row with errorTime := some now, error := some error, errorDetail := detail }

def eventRow (K : Crates) (now : Time) (e : NodeEvent) : Result NodeUpdate :=
  (eventColumns K now e).map fun row => (e.loc, row)

/-- The input rows of one input set, stored at `loc`. -/
def inputRows (loc : Location) (inputs : Specs) : List NewInput :=
  inputs.toList.map fun i => { location := loc, name := i.1, row := .ofSpec i.2 }

/-- The subgraph inputs an event carries, whatever the state of its node. -/
def eventInputs (e : NodeEvent) : List NewInput :=
  match e.status with
  | .running (some (.evalling inputs)) => inputRows e.loc inputs
  | .running (some (.looping index inputs)) => inputRows (e.loc.withLoopIndex index) inputs
  | .running (some (.mapStarted inputSets)) =>
    (inputSets.mapIdx fun index inputs => inputRows (e.loc.withMapIndex index) inputs).flatten
  | _ => []

def eventOutputs (e : NodeEvent) : List NewOutput :=
  match e.status with
  | .complete outputs =>
    outputs.toList.map fun o => { location := e.loc, name := o.1, row := .ofSpec o.2 }
  | _ => []

/-- Take a connection from the pool. -/
def getConn : Program Unit := .stmt fun db => .ok ((), db)

/-- The rows of a batch: inputs one by one, then the rest in a transaction. -/
def writeRows (run : Uuid) (attempt : Int) (updates : List NodeUpdate) (inputs : List NewInput)
    (outputs : List NewOutput) : Program Unit :=
  ((insertWorkflowRunInputs run attempt inputs).mapError
    (.wrapErr "Failed to insert subgraph inputs")).andThen fun _ =>
  (updateNodeState run attempt updates outputs).mapError (.wrapErr "Failed to update node state")

def handleNodeEvents (K : Crates) (now : Time) (run : Uuid) (attempt : Nat)
    (events : List NodeEvent) : Program Unit :=
  (Prog.lift (toI32 attempt)).andThen fun attempt =>
  (Prog.lift (events.mapM (eventRow K now))).andThen fun updates =>
  (getConn.mapError (.wrapErr "Error acquiring connection from pool")).andThen fun _ =>
  writeRows run attempt updates (events.flatMap eventInputs) (events.flatMap eventOutputs)

/-- The timing a workflow event sets, and whether the event stops the attempt. -/
def workflowUpdate (now : Time) : WorkflowRunEvent → AttemptRow × Bool
  | .started => ({ startedTime := some now }, false)
  | .paused => ({}, true)
  | .queued => ({ queuedTime := some now }, false)
  | .cancelled => ({ cancelledTime := some now }, true)
  | .errored => ({ errorTime := some now }, true)
  | .completed => ({ completeTime := some now }, true)
  | .nodeEvents _ => ({}, false)

/-- The database part of `write`. -/
def writeProg (K : Crates) (now : Time) (run : Uuid) (attempt : Nat) :
    WorkflowRunEvent → Program Unit
  | .nodeEvents events =>
    (handleNodeEvents K now run attempt events).mapError (.wrapErr "Failed to handle Node event")
  | event =>
    (Prog.lift (toI32 attempt)).andThen fun attempt =>
    getConn.andThen fun _ =>
    (updateWorkflowRun run attempt (workflowUpdate now event).1)

/-- The database part of `unpause`. -/
def unpauseProg (now : Time) (run : Uuid) (attempt : Nat) (locations : List Location) :
    Program Unit :=
  getConn.andThen fun _ =>
  (Prog.lift (toI32 attempt)).andThen fun attempt =>
  (updateNodeState run attempt
    (locations.map fun loc => (loc, { unpausedTime := some now })) []).mapError
    (.wrapErr "Failed to update node state")

end Tierkreis.Sql

namespace Tierkreis

open Lib Lib.Txn Sql

structure SqliteRuntimeState where
  db : Db
  watch : RuntimeWatchState

namespace SqliteRuntimeState

variable (K : Crates) (st : SqliteRuntimeState) (r : RunAttempt)

/-- Run a program in a session of its own. -/
def exec {α : Type} (faults : Nat → Option Failure) (p : Program α) :
    Result α × SqliteRuntimeState :=
  let out := p faults ⟨st.db, 0⟩
  (out.1, { st with db := out.2.db })

/-- The active runs change only when the database part succeeded. -/
def write (faults : Nat → Option Failure) (now : Time) (event : WorkflowRunEvent) :
    Result Unit × SqliteRuntimeState :=
  match st.exec faults (writeProg K now r.1 r.2 event) with
  | (.ok (), st') =>
    (.ok (), { st' with watch := st'.watch.update r (workflowUpdate now event).2 })
  | (.error f, st') => (.error f, st')

def unpause (faults : Nat → Option Failure) (now : Time) (locations : List Location) :
    Result Unit × SqliteRuntimeState :=
  match st.exec faults (unpauseProg now r.1 r.2 locations) with
  | (.ok (), st') =>
    (.ok (), if locations = [] then st' else { st' with watch := st'.watch.update r false })
  | (.error f, st') => (.error f, st')

theorem db_write (faults : Nat → Option Failure) (now : Time) (event : WorkflowRunEvent) :
    (st.write K r faults now event).2.db =
      (writeProg K now r.1 r.2 event faults ⟨st.db, 0⟩).2.db := by
  unfold write exec
  rcases writeProg K now r.1 r.2 event faults ⟨st.db, 0⟩ with ⟨_ | _, s'⟩ <;> rfl

theorem db_unpause (faults : Nat → Option Failure) (now : Time) (locations : List Location) :
    (st.unpause r faults now locations).2.db =
      (unpauseProg now r.1 r.2 locations faults ⟨st.db, 0⟩).2.db := by
  unfold unpause exec
  rcases unpauseProg now r.1 r.2 locations faults ⟨st.db, 0⟩ with ⟨_ | _, s'⟩
  · rfl
  · by_cases h : locations = [] <;> simp [h]

def read (loc : Location) : Result NodeState := do
  let attempt ← toI32 r.2
  readNodeState K st.db r.1 attempt loc

def readMany (locations : List Location) : Result NodeStates := do
  let attempt ← toI32 r.2
  readNodeStates K st.db r.1 attempt locations

def readByName (name : String) : Result NodeStates := do
  let attempt ← toI32 r.2
  readNodeStatesByName K st.db r.1 attempt name

def loadNamedInputFromLocation (loc : Location) (name : String) : Result AssetSpec := do
  let attempt ← toI32 r.2
  readWorkflowRunInputFromLocation K st.db r.1 attempt loc name

def summaryOf (attempt : Int) (workflowId : Uuid) (row : AttemptRow) :
    WorkflowRunStateSummary where
  runId := r.1
  attempt := r.2
  workflowId := workflowId
  name := (st.db.workflowNames.get? workflowId).bind id
  startedTime := row.startedTime
  queuedTime := row.queuedTime
  completeTime := row.completeTime
  cancelledTime := row.cancelledTime
  errorTime := row.errorTime
  pausedLocations := locationsWhere st.db r.1 attempt fun row =>
    row.pausedTime.isSome && row.unpausedTime.isNone
  erroredLocations := locationsWhere st.db r.1 attempt fun row => row.errorTime.isSome

def summary : Result WorkflowRunStateSummary := do
  let attempt ← toI32 r.2
  let workflowId ← okOr (st.db.workflowRuns.get? r.1) "Failed to list workflow runs"
  let row ← okOr (st.db.attempts.get? (r.1, attempt)) "Failed to list workflow runs"
  pure (st.summaryOf r attempt workflowId row)

/-- The attempts with no terminal time, which a new process takes up again. -/
def listActiveRuns (db : Db) : List RunAttempt :=
  db.attempts.toList.filterMap fun e =>
    if e.2.completeTime.isNone && e.2.cancelledTime.isNone && e.2.errorTime.isNone then
      some (e.1.1, e.1.2.toNat)
    else none

/-- A new process on the same database. -/
def tryNew (db : Db) : SqliteRuntimeState :=
  { db := db, watch := ⟨(listActiveRuns db).toFinset⟩ }

/-- The database part of `new_workflow_run_state`: run, attempt and inputs together. -/
def newWorkflowRunProg (now : Time) (runId workflowId : Uuid) (inputs : Specs) : Program Unit :=
  getConn.andThen fun _ =>
  (Prog.transaction <|
    (Prog.stmt fun db : Db =>
      if db.workflowRuns.contains runId then .error (.miette "Record not found")
      else if db.workflowNames.contains workflowId then
        .ok ((), { db with workflowRuns := db.workflowRuns.insert runId workflowId })
      else .error (.miette "FOREIGN KEY constraint failed")).andThen fun _ =>
    (Prog.stmt fun db : Db =>
      if db.attempts.contains (runId, 0) then
        .error (.miette ("UNIQUE constraint failed: workflow_run_attempts.workflow_run_id, " ++
          "workflow_run_attempts.attempt"))
      else
        .ok ((), { db with
          attempts := db.attempts.insert (runId, 0) { startedTime := some now } })).andThen fun _ =>
    insertWorkflowRunInputs runId 0 (inputRows Location.root inputs)).mapError
    (.wrapErr "Failed to insert new workflow run")

def newWorkflowRunState (faults : Nat → Option Failure) (now : Time) (runId workflowId : Uuid)
    (inputs : Specs) : Result Unit × SqliteRuntimeState :=
  match st.exec faults (newWorkflowRunProg now runId workflowId inputs) with
  | (.ok (), st') => (.ok (), { st' with watch := st'.watch.update (runId, 0) false })
  | (.error f, st') => (.error f, st')

/-- A database with one workflow and a run of it that has just begun. -/
def startedRun : SqliteRuntimeState where
  db :=
    { workflowNames := .ofList [(0, none)]
      workflowRuns := .ofList [(0, 0)]
      attempts := .ofList [((0, 0), { startedTime := some 0 })]
      nodeStates := ∅
      nodeOutputs := ∅
      inputs := ∅ }
  watch := ⟨{(0, 0)}⟩

end SqliteRuntimeState

end Tierkreis
