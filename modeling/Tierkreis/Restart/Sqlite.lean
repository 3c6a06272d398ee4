import Tierkreis.Restart.Filter
import Tierkreis.State.Sqlite

/-!
# Restarts in SQLite

The rows of an attempt are copied in one transaction, each with its outputs and
with the inputs stored at its own location. A row that the new attempt already
has makes the whole copy fail.
-/

namespace Tierkreis.Sql

open Lib Lib.Txn

/-- Whether a database has the rows of a run and of an attempt. -/
def hasAttempt (db : Db) (r : RunAttempt) : Bool :=
  decide (r.2 < 2 ^ 31) && db.workflowRuns.contains r.1 && db.attempts.contains (r.1, (r.2 : Int))

/-- The row of a run and of one of its attempts. -/
def readWorkflowRun (db : Db) (r : RunAttempt) : Result (Uuid × AttemptRow) := do
  let attempt ← toI32 r.2
  let workflowId ← okOr (db.workflowRuns.get? r.1) "Failed to query workflow run"
  let row ← okOr (db.attempts.get? (r.1, attempt)) "Failed to query workflow run"
  pure (workflowId, row)

theorem readWorkflowRun_isOk {db : Db} {r : RunAttempt} :
    (∃ x, readWorkflowRun db r = .ok x) ↔ hasAttempt db r = true := by
  simp only [readWorkflowRun, Result.bind_eq_ok, okOr_eq_ok, hasAttempt, Bool.and_eq_true,
    decide_eq_true_eq, HashMap.contains, Option.isSome_iff_exists, toI32]
  constructor
  · rintro ⟨x, attempt, ha, workflowId, hw, row, hr, -⟩
    split_ifs at ha with hlt
    cases ha
    exact ⟨⟨hlt, workflowId, hw⟩, row, hr⟩
  · rintro ⟨⟨hlt, workflowId, hw⟩, row, hr⟩
    exact ⟨_, _, if_pos hlt, workflowId, hw, row, hr, rfl⟩

/-- The highest attempt of a run. -/
def maxAttempt (db : Db) (run : Uuid) : Option Int :=
  ((db.attempts.toList.filter fun e => e.1.1 == run).map fun e => e.1.2).max?

/-- A new attempt row, if the one before it exists and this one does not. -/
def insertWorkflowRunAttempt (now : Time) (run : Uuid) (attempt : Int) : Program Unit :=
  (Prog.query fun db : Db =>
    if db.attempts.contains (run, attempt - 1) then .ok ()
    else .error (.miette "Record not found")).andThen fun _ =>
  .stmt fun db =>
    if db.attempts.contains (run, attempt) then
      .error (.miette ("UNIQUE constraint failed: workflow_run_attempts.workflow_run_id, " ++
        "workflow_run_attempts.attempt"))
    else .ok ((), db.putAttempt run attempt { startedTime := some now })

/-- `INSERT … SELECT` of the inputs stored at one location. -/
def copyInputs (run : Uuid) (source dest : Int) (loc : Location) : Program Unit :=
  .stmt fun db =>
    let rows := Db.rowsAt db.inputs (run, source, loc)
    let stored := Db.rowsAt db.inputs (run, dest, loc)
    if rows.toList.isEmpty then .ok ((), db)
    else if rows.toList.any fun e => stored.contains e.1 then
      .error (.miette ("UNIQUE constraint failed: workflow_run_inputs.workflow_run_id, " ++
        "workflow_run_inputs.attempt, workflow_run_inputs.location, workflow_run_inputs.name"))
    else .ok ((), { db with inputs := db.inputs.insert (run, dest, loc) (stored.extend rows) })

/-- An `i32` sum as release builds compute it. -/
def wrapI32 (i : Int) : Int := if i < 2 ^ 31 then i else i - 2 ^ 32

/-- The database part of `new_attempt`, which returns the attempt. -/
def newAttemptProg (now : Time) (run : Uuid) : Program Nat :=
  getConn.andThen fun _ =>
  (Prog.query fun db : Db =>
    okOr (maxAttempt db run) s!"No existing run found for run_id: {run}").andThen fun last =>
  (Prog.lift (toU32 last)).andThen fun lastAttempt =>
  (Prog.lift (toU32 (wrapI32 (last + 1)))).andThen fun nextAttempt =>
  (Prog.query fun db : Db => readWorkflowRun db (run, lastAttempt)).andThen fun lastRun =>
  if lastRun.2.cancelledTime.isNone && lastRun.2.errorTime.isNone &&
      lastRun.2.completeTime.isNone then
    .fail (.miette "Cannot create a new attempt for a run that is still active")
  else
    (insertWorkflowRunAttempt now run (wrapI32 (last + 1))).andThen fun _ =>
    (copyInputs run last (wrapI32 (last + 1)) Location.root).andThen fun _ => .ok nextAttempt

/-- The row that is inserted for a copied one. The map bits go along only when some are
reset. -/
def copiedRow (K : Crates) (f : NodeCopyFilter) (loc : Location) (row : NodeRow) : NodeRow :=
  let loopIndex := ((f.resetLoopIndex.get? loc).map fun index => (index : Int)).or row.loopIndex
  let mapCompleted := (f.resetMapElems.get? loc).bind fun bits =>
    row.mapCompleted.map fun existing => K.intoVec (bitxorAssign (fromSlice existing) bits)
  if loc ∈ f.truncateExact then
    { name := row.name
      cond := row.cond
      loopIndex := loopIndex
      mapSize := row.mapSize
      mapCompleted := mapCompleted
      executionContext := row.executionContext }
  else { row with loopIndex := loopIndex, mapCompleted := mapCompleted }

/-- A truncated row loses its outputs. -/
def copyOutputs (run : Uuid) (source dest : Int) (f : NodeCopyFilter) (loc : Location) :
    Program Unit :=
  if loc ∈ f.truncateExact then .ok ()
  else .stmt fun db => .ok ((), { db with
    nodeOutputs :=
      db.nodeOutputs.insert (run, dest, loc) (Db.rowsAt db.nodeOutputs (run, source, loc)) })

/-- Copy one row with its outputs and inputs. -/
def copyRow (K : Crates) (run : Uuid) (source dest : Int) (f : NodeCopyFilter)
    (e : Location × NodeRow) : Program Unit :=
  if f.clears e.1 then .ok ()
  else
    (Prog.stmt fun db : Db =>
      if ((f.resetLoopIndex.get? e.1).getD 0) ≥ 2 ^ 31 then
        .error (.panic "Failed to convert to signed integer")
      else if db.nodeStates.contains (run, dest, e.1) then
        .error (.miette "UNIQUE constraint failed: node_states")
      else if db.attempts.contains (run, dest) then
        .ok ((), { db with
          nodeStates := db.nodeStates.insert (run, dest, e.1) (copiedRow K f e.1 e.2) })
      else .error (.miette "FOREIGN KEY constraint failed")).andThen fun _ =>
    (copyOutputs run source dest f e.1).andThen fun _ => copyInputs run source dest e.1

/-- The node rows of an attempt, by location. -/
def rowsOf (db : Db) (run : Uuid) (attempt : Int) : List (Location × NodeRow) :=
  (db.nodeStates.toList.filter fun e => e.1.1 == run && e.1.2.1 == attempt).map
    fun e => (e.1.2.2, e.2)

def copyNodeStatesProg (K : Crates) (run : Uuid) (source dest : Int) (f : NodeCopyFilter) :
    Program Unit :=
  (Prog.transaction <|
    (Prog.query fun db : Db => .ok (rowsOf db run source)).andThen fun rows =>
    .each rows (copyRow K run source dest f)).mapError
    (.wrapErr "Failed to copy node states to new attempt")

end Tierkreis.Sql

namespace Tierkreis.SqliteRuntimeState

open Lib Lib.Txn Sql

variable (K : Crates) (st : SqliteRuntimeState)

def newAttempt (faults : Nat → Option Failure) (now : Time) (runId : Uuid) :
    Result RunAttempt × SqliteRuntimeState :=
  match st.exec faults (newAttemptProg now runId) with
  | (.ok attempt, st') =>
    (.ok (runId, attempt), { st' with watch := st'.watch.update (runId, attempt) false })
  | (.error f, st') => (.error f, st')

/-- Copy from an attempt of the same run. -/
def copyNodeStatesFrom (faults : Nat → Option Failure) (target : RunAttempt) (source : Nat)
    (f : NodeCopyFilter) : Result Unit × SqliteRuntimeState :=
  st.exec faults <|
    getConn.andThen fun _ =>
    (Prog.lift (toI32 source)).andThen fun source =>
    (Prog.lift (toI32 target.2)).andThen fun dest =>
    copyNodeStatesProg K target.1 source dest f

end Tierkreis.SqliteRuntimeState
