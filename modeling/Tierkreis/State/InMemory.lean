import Tierkreis.State.Interface

/-!
# The in-memory run state

Each event updates the state of its node; the first event of a kind sets its
time and the fields that go with it, and later ones of that kind leave them.
-/

namespace Tierkreis

open Lib

structure RunAttemptState where
  workflowId : Uuid := 0
  inputs : HashMap Location Specs := ∅
  nodes : HashMap Location NodeState := ∅
  startedTime : Option Time := none
  queuedTime : Option Time := none
  pausedTime : Option Time := none
  completeTime : Option Time := none
  cancelledTime : Option Time := none
  errorTime : Option Time := none

/-- `bitor_assign`: bits past the end of either operand are left alone. -/
def bitorAssign : List Bool → List Bool → List Bool
  | x :: xs, y :: ys => (x || y) :: bitorAssign xs ys
  | xs, _ => xs

/-- `bitxor_assign`, in the same way. -/
def bitxorAssign : List Bool → List Bool → List Bool
  | x :: xs, y :: ys => (x ^^ y) :: bitxorAssign xs ys
  | xs, _ => xs

@[simp] theorem length_bitorAssign : ∀ xs ys, (bitorAssign xs ys).length = xs.length
  | [], _ => by simp [bitorAssign]
  | _ :: _, [] => by simp [bitorAssign]
  | x :: xs, y :: ys => by simp [bitorAssign, length_bitorAssign xs ys]

theorem getElem?_bitorAssign :
    ∀ (xs ys : List Bool) (i : Nat),
      (bitorAssign xs ys)[i]? = xs[i]?.map fun x => x || (ys[i]?.getD false)
  | [], ys, i => by simp [bitorAssign]
  | x :: xs, [], i => by
    rw [show bitorAssign (x :: xs) [] = x :: xs from rfl]
    simp
  | x :: xs, y :: ys, 0 => by simp [bitorAssign]
  | x :: xs, y :: ys, i + 1 => by simp [bitorAssign, getElem?_bitorAssign xs ys i]

theorem getElem?_bitxorAssign :
    ∀ (xs ys : List Bool) (i : Nat),
      (bitxorAssign xs ys)[i]? = xs[i]?.map fun x => x ^^ (ys[i]?.getD false)
  | [], ys, i => by simp [bitxorAssign]
  | x :: xs, [], i => by
    rw [show bitxorAssign (x :: xs) [] = x :: xs from rfl]
    simp
  | x :: xs, y :: ys, 0 => by simp [bitxorAssign]
  | x :: xs, y :: ys, i + 1 => by simp [bitxorAssign, getElem?_bitxorAssign xs ys i]

@[simp] theorem length_bitxorAssign : ∀ xs ys, (bitxorAssign xs ys).length = xs.length
  | [], _ => by simp [bitxorAssign]
  | _ :: _, [] => by simp [bitxorAssign]
  | x :: xs, y :: ys => by simp [bitxorAssign, length_bitxorAssign xs ys]

namespace InMemory

/-- `if x.is_none() { x = Some(now) }`. -/
def setOnce (x : Option Time) (now : Time) : Option Time := x.or (some now)

@[simp] theorem isSome_setOnce (x : Option Time) (now : Time) : (setOnce x now).isSome = true := by
  cases x <;> rfl

/-- A name is only ever replaced by a name. -/
def rename (s : NodeState) (name : Option String) : NodeState :=
  if name.isSome then { s with name := name } else s

/-- The effect of a status: the new state of the node, and the inputs to store, by
location. -/
def foldStatus (now : Time) (loc : Location) (s : NodeState) (status : NodeStatus) :
    NodeState × List (Location × Specs) :=
  match status with
  | .scheduled executionContext =>
    ({ s with
        scheduledTime := setOnce s.scheduledTime now
        executionContext :=
          if executionContext.isSome then executionContext else s.executionContext }, [])
  | .queued handle => ({ s with handle := handle, queuedTime := setOnce s.queuedTime now }, [])
  | .paused => ({ s with pausedTime := setOnce s.pausedTime now }, [])
  | .running none => ({ s with runningTime := setOnce s.runningTime now }, [])
  | .running (some (.switching cond)) =>
    if s.runningTime.isNone then ({ s with runningTime := some now, cond := some cond }, [])
    else (s, [])
  | .running (some (.evalling inputs)) =>
    if s.runningTime.isNone then ({ s with runningTime := some now }, [(loc, inputs)])
    else (s, [])
  | .running (some (.looping index inputs)) =>
    let s := { s with runningTime := setOnce s.runningTime now }
    if s.loopIndex ≠ some index then
      ({ s with loopIndex := some index }, [(loc.withLoopIndex index, inputs)])
    else (s, [])
  | .running (some (.mapStarted inputSets)) =>
    if s.runningTime.isNone then
      ({ s with
          runningTime := some now
          mapCompleted := some (List.replicate inputSets.length false) },
        inputSets.mapIdx fun index inputs => (loc.withMapIndex index, inputs))
    else (s, [])
  | .running (some (.mapElemComplete bits)) =>
    ({ s with mapCompleted := s.mapCompleted.map fun m => bitorAssign m bits }, [])
  | .complete outputs =>
    if s.completeTime.isNone then
      ({ s with completeTime := some now, outputs := some outputs }, [])
    else (s, [])
  | .cancelled => ({ s with cancelledTime := setOnce s.cancelledTime now }, [])
  | .error error detail =>
    if s.errorTime.isNone then
      ({ s with errorTime := some now, error := some error, errorDetail := detail }, [])
    else (s, [])

/-- One turn of the loop over node events. -/
def foldNodeEvent (now : Time) (s : NodeState) (e : NodeEvent) :
    NodeState × List (Location × Specs) :=
  foldStatus now e.loc (rename s e.name) e.status

end InMemory

namespace RunAttemptState

def read (run : RunAttemptState) (loc : Location) : NodeState := (run.nodes.get? loc).getD {}

def insertInputs (run : RunAttemptState) (inputs : List (Location × Specs)) : RunAttemptState :=
  { run with inputs := inputs.foldl (fun m e => m.insert e.1 e.2) run.inputs }

def handleNodeEvent (now : Time) (run : RunAttemptState) (e : NodeEvent) : RunAttemptState :=
  let r := InMemory.foldNodeEvent now (run.read e.loc) e
  { run with nodes := run.nodes.insert e.loc r.1 }.insertInputs r.2

def handleNodeEvents (now : Time) (run : RunAttemptState) (events : List NodeEvent) :
    RunAttemptState :=
  events.foldl (handleNodeEvent now) run

/-- The part of `write` that changes the attempt itself. -/
def writeEvent (now : Time) (run : RunAttemptState) : WorkflowRunEvent → RunAttemptState
  | .started => { run with startedTime := InMemory.setOnce run.startedTime now }
  | .queued => { run with queuedTime := InMemory.setOnce run.queuedTime now }
  | .paused => { run with pausedTime := InMemory.setOnce run.pausedTime now }
  | .cancelled => { run with cancelledTime := InMemory.setOnce run.cancelledTime now }
  | .errored => { run with errorTime := InMemory.setOnce run.errorTime now }
  | .completed => { run with completeTime := InMemory.setOnce run.completeTime now }
  | .nodeEvents events => handleNodeEvents now run events

/-- The part of `unpause` that changes the attempt itself. -/
def unpause (now : Time) (run : RunAttemptState) (locations : List Location) : RunAttemptState :=
  locations.foldl
    (fun run loc =>
      { run with nodes := run.nodes.insert loc { run.read loc with unpausedTime := some now } })
    run

def readMany (run : RunAttemptState) (locations : List Location) : NodeStates :=
  HashMap.ofList (locations.map fun loc => (loc, run.read loc))

def readByName (run : RunAttemptState) (name : String) : NodeStates :=
  run.nodes.filterMap fun _ s => if s.name = some name then some s else none

def loadNamedInput (run : RunAttemptState) (loc : Location) (name : String) : Result AssetSpec := do
  let inputs ← okOr (run.inputs.get? loc) s!"Inputs not found for location: `{loc.toText}`"
  okOr (inputs.get? name) s!"Input not found with name: `{name}` at location: {loc.toText}"

/-! ## What an event leaves alone -/

@[simp] theorem read_insertInputs (run : RunAttemptState) (inputs : List (Location × Specs))
    (loc : Location) : (run.insertInputs inputs).read loc = run.read loc := rfl

@[simp] theorem nodes_insertInputs (run : RunAttemptState) (inputs : List (Location × Specs)) :
    (run.insertInputs inputs).nodes = run.nodes := rfl

theorem read_handleNodeEvent (now : Time) (run : RunAttemptState) (e : NodeEvent)
    (loc : Location) :
    (handleNodeEvent now run e).read loc =
      if loc = e.loc then (InMemory.foldNodeEvent now (run.read e.loc) e).1 else run.read loc := by
  rw [handleNodeEvent, read_insertInputs]
  simp only [read, HashMap.get?_insert]
  split <;> rfl

/-- Node events change nodes and inputs only. -/
theorem handleNodeEvents_frame (now : Time) {events : List NodeEvent} :
    ∀ (run : RunAttemptState), run.handleNodeEvents now events =
      { run with
        nodes := (run.handleNodeEvents now events).nodes
        inputs := (run.handleNodeEvents now events).inputs } := by
  induction events with
  | nil => exact fun _ => rfl
  | cons e events ih =>
    intro run
    rw [handleNodeEvents, List.foldl_cons, ← handleNodeEvents, ih]
    rfl

/-- Unpausing changes nodes only. -/
theorem unpause_frame (now : Time) {locations : List Location} :
    ∀ (run : RunAttemptState), run.unpause now locations =
      { run with nodes := (run.unpause now locations).nodes } := by
  induction locations with
  | nil => exact fun _ => rfl
  | cons loc locations ih =>
    intro run
    rw [unpause, List.foldl_cons, ← unpause, ih]

theorem read_unpause (now : Time) (loc : Location) {locations : List Location} :
    ∀ (run : RunAttemptState), (run.unpause now locations).read loc =
      if loc ∈ locations then { run.read loc with unpausedTime := some now } else run.read loc := by
  induction locations with
  | nil => simp [unpause]
  | cons l ls ih =>
    intro run
    rw [unpause, List.foldl_cons, ← unpause, ih]
    by_cases hl : loc = l
    · subst hl
      split <;> simp [read]
    · simp [read, HashMap.get?_insert, hl]

end RunAttemptState

structure InMemoryRuntimeState where
  workflows : HashMap Uuid (Option String × WorkflowGraph)
  runs : HashMap RunAttempt RunAttemptState
  watch : RuntimeWatchState

namespace InMemoryRuntimeState

variable (st : InMemoryRuntimeState) (r : RunAttempt)

/-- The entry of an attempt, which is created when it is first used. -/
def run : RunAttemptState := (st.runs.get? r).getD {}

def getRunState : Result RunAttemptState :=
  okOr (st.runs.get? r) s!"Run Attempt with id {r.1} and attempt {r.2} not found"

/-- Whether an event takes its attempt out of the active runs. -/
def stops : WorkflowRunEvent → Bool
  | .paused | .cancelled | .errored | .completed => true
  | _ => false

def write (now : Time) (event : WorkflowRunEvent) : InMemoryRuntimeState :=
  { st with
    runs := st.runs.insert r ((st.run r).writeEvent now event)
    watch := st.watch.update r (stops event) }

def unpause (now : Time) (locations : List Location) : InMemoryRuntimeState :=
  { st with
    runs := st.runs.insert r ((st.run r).unpause now locations)
    watch := if locations = [] then st.watch else st.watch.update r false }

def read (loc : Location) : Result NodeState :=
  (st.getRunState r).map fun run => run.read loc

def readMany (locations : List Location) : Result NodeStates :=
  (st.getRunState r).map fun run => run.readMany locations

def readByName (name : String) : Result NodeStates :=
  (st.getRunState r).map fun run => run.readByName name

instance : WorkflowRunState InMemoryRuntimeState where
  read := read
  readMany := readMany
  loadNamedInputFromLocation st r loc name := do
    let run ← okOr (st.runs.get? r) "Workflow run not found"
    run.loadNamedInput loc name

def summaryOf (run : RunAttemptState) : WorkflowRunStateSummary where
  runId := r.1
  attempt := r.2
  workflowId := run.workflowId
  name := (st.workflows.get? run.workflowId).bind Prod.fst
  startedTime := run.startedTime
  queuedTime := run.queuedTime
  completeTime := run.completeTime
  cancelledTime := run.cancelledTime
  errorTime := run.errorTime
  pausedLocations := (run.nodes.toList.filter fun e => e.2.isPaused).map Prod.fst
  erroredLocations := (run.nodes.toList.filter fun e => e.2.errorTime.isSome).map Prod.fst

def summary : Result WorkflowRunStateSummary :=
  (okOr (st.runs.get? r) "Workflow run not found").map (st.summaryOf r)

/-- A new attempt with its inputs, taken into the active runs. -/
def startAttempt (now : Time) (workflowId : Uuid) (inputs : Specs) : InMemoryRuntimeState :=
  { st with
    runs := st.runs.insert r
      { st.run r with
        workflowId := workflowId
        inputs := (∅ : HashMap Location Specs).insert Location.root inputs
        startedTime := some now }
    watch := st.watch.update r false }

/-- `runId` is a fresh id. -/
def newWorkflowRunState (now : Time) (runId workflowId : Uuid) (inputs : Specs) :
    InMemoryRuntimeState :=
  st.startAttempt (runId, 0) now workflowId inputs

/-- A store with a run that has just begun. -/
def startedRun : InMemoryRuntimeState :=
  { workflows := ∅, runs := ∅, watch := ⟨∅⟩ : InMemoryRuntimeState }.newWorkflowRunState 0 0 0 ∅

@[simp] theorem run_write (now : Time) (event : WorkflowRunEvent) :
    (st.write r now event).run r = (st.run r).writeEvent now event := by
  simp [write, run]

theorem run_write_of_ne {r r' : RunAttempt} (h : r' ≠ r) (now : Time) (event : WorkflowRunEvent) :
    (st.write r now event).run r' = st.run r' := by
  simp [write, run, HashMap.get?_insert_ne _ _ h]

@[simp] theorem run_unpause (now : Time) (locations : List Location) :
    (st.unpause r now locations).run r = (st.run r).unpause now locations := by
  simp [unpause, run]

theorem mem_activeRuns_write {r' : RunAttempt} (now : Time) (event : WorkflowRunEvent) :
    r' ∈ (st.write r now event).watch.activeRuns ↔
      if r' = r then stops event = false else r' ∈ st.watch.activeRuns :=
  RuntimeWatchState.mem_update

end InMemoryRuntimeState

end Tierkreis
