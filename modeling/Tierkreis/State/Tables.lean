import Tierkreis.State.Interface
import Tierkreis.Lib.Txn

/-!
# SQLite tables and queries

The tables of the schema as finite maps, keyed by their unique constraints, and
the queries on them as statement programs. The rows of `node_outputs` hang off
a node row, so they are kept under its key; the same is done for the inputs of
a location. Locations and asset keys are kept as values, as their texts read
back as what was written.

Foreign keys are enforced: the bundled SQLite is built with them on.
-/

namespace Tierkreis.Sql

open Lib Lib.Txn

abbrev Byte := BitVec 8

/-- Lowest bit first. -/
def byteBits (b : Byte) : List Bool := (List.range 8).map b.getLsbD

def fromSlice (bytes : List Byte) : List Bool := bytes.flatMap byteBits

/-- What the queries use of `bitvec` and `url`. The bits of the last byte past the end
of a `BitVec` are unspecified. -/
structure Crates where
  intoVec : List Bool → List Byte
  take_fromSlice : ∀ bits, (fromSlice (intoVec bits)).take bits.length = bits
  /-- The scheme and the path of a url. -/
  parseUrl : String → Except String (String × String)

def byteOf (bits : List Bool) : Byte := (BitVec.ofBoolListLE bits).setWidth 8

theorem take_byteBits (bits : List Bool) (h : bits.length ≤ 8) :
    (byteBits (byteOf bits)).take bits.length = bits := by
  refine List.ext_getElem (by simp [byteBits]; omega) fun i h₁ h₂ => ?_
  have hi : i < 8 := by omega
  simp [byteBits, byteOf, hi, h₂, -BitVec.getLsbD_eq_getElem]

/-- Whole bytes, the last one filled up with zeros. -/
def packBytes : Nat → List Bool → List Byte
  | 0, _ => []
  | n + 1, bits => if bits = [] then [] else byteOf (bits.take 8) :: packBytes n (bits.drop 8)

theorem take_packBytes : ∀ (n : Nat) (bits : List Bool), bits.length ≤ n →
    (fromSlice (packBytes n bits)).take bits.length = bits
  | 0, bits, h => by
    rw [List.length_eq_zero_iff.1 (by omega : bits.length = 0)]
    rfl
  | n + 1, bits, h => by
    unfold packBytes
    split_ifs with hb
    · rw [hb]; rfl
    · have hl : (byteBits (byteOf (bits.take 8))).length = 8 := by simp [byteBits]
      have hpos := List.length_pos_iff.2 hb
      have hd := take_packBytes n (bits.drop 8) (by simp; omega)
      have ht := take_byteBits (bits.take 8) (by simp)
      rw [fromSlice, List.flatMap_cons, ← fromSlice]
      by_cases h8 : 8 ≤ bits.length
      · rw [List.length_take, Nat.min_eq_left h8, List.take_of_length_le (by omega)] at ht
        rw [List.take_append, hl, List.take_of_length_le (by omega), ← List.length_drop, hd, ht,
          List.take_append_drop]
      · rw [List.take_append_of_le_length (by omega)]
        rwa [List.take_of_length_le (by omega : bits.length ≤ 8)] at ht ⊢

/-- Zeros in the unspecified bits, and the two urls that kinds are written as. -/
def Crates.zeroFill : Crates where
  intoVec bits := packBytes bits.length bits
  take_fromSlice bits := take_packBytes bits.length bits (Nat.le_refl _)
  parseUrl s :=
    if s = "memory://process" then .ok ("memory", "")
    else if s.toList.take 7 = "file://".toList then .ok ("file", String.ofList (s.toList.drop 7))
    else .error "relative URL without a base"

structure AssetRow where
  assetKind : String
  storageName : String
  assetKey : AssetKey
  deriving DecidableEq, Repr

def kindToText : AssetKind → String
  | .memory => "memory://process"
  | .file root => s!"file://{root}"

def kindFromText (K : Crates) (s : String) : Result AssetKind :=
  match K.parseUrl s with
  | .error e => .error (.miette e)
  | .ok (scheme, path) =>
    if scheme = "memory" then .ok .memory
    else if scheme = "file" then .ok (.file path)
    else .error (.miette s!"Unknown scheme: {scheme}")

namespace AssetRow

def ofSpec (spec : AssetSpec) : AssetRow :=
  { assetKind := kindToText spec.kind, storageName := spec.storageName, assetKey := spec.assetKey }

def toSpec (K : Crates) (row : AssetRow) : Result AssetSpec :=
  (kindFromText K row.assetKind).map fun kind =>
    { kind := kind, storageName := row.storageName, assetKey := row.assetKey }

def parseError? (K : Crates) (row : AssetRow) : Option Failure :=
  match row.toSpec K with
  | .error f => some f
  | .ok _ => none

/-- Read every row, or the error of the first that does not parse. -/
def toSpecs (K : Crates) (rows : HashMap String AssetRow) : Result Specs :=
  match rows.toList.findSome? fun e => e.2.parseError? K with
  | some f => .error f
  | none => .ok (rows.filterMap fun _ row => (row.toSpec K).toOption)

end AssetRow

/-- The columns of `node_states` next to its key. -/
structure NodeRow where
  name : Option String := none
  scheduledTime : Option Time := none
  pausedTime : Option Time := none
  unpausedTime : Option Time := none
  queuedTime : Option Time := none
  runningTime : Option Time := none
  completeTime : Option Time := none
  cancelledTime : Option Time := none
  errorTime : Option Time := none
  cond : Option Bool := none
  loopIndex : Option Int := none
  mapSize : Option Int := none
  mapCompleted : Option (List Byte) := none
  error : Option String := none
  errorDetail : Option String := none
  handle : Option TaskHandle := none
  executionContext : Option String := none

/-- The timings of `workflow_run_attempts` that are read back. -/
structure AttemptRow where
  startedTime : Option Time := none
  queuedTime : Option Time := none
  completeTime : Option Time := none
  cancelledTime : Option Time := none
  errorTime : Option Time := none

/-- A location of an attempt of a run, the unique key of `node_states`. -/
abbrev NodeKey := Uuid × Int × Location

structure Db where
  workflowNames : HashMap Uuid (Option String)
  workflowRuns : HashMap Uuid Uuid
  attempts : HashMap (Uuid × Int) AttemptRow
  nodeStates : HashMap NodeKey NodeRow
  nodeOutputs : HashMap NodeKey (HashMap String AssetRow)
  inputs : HashMap NodeKey (HashMap String AssetRow)

abbrev Program (α : Type) := Prog Db Failure α

def toI32 (n : Nat) : Result Int :=
  if n < 2 ^ 31 then .ok n else .error (.miette "out of range integral type conversion attempted")

theorem toI32_eq_ok {n : Nat} {i : Int} : toI32 n = .ok i ↔ n < 2 ^ 31 ∧ i = n := by
  unfold toI32
  split_ifs with h
  · exact ⟨fun he => ⟨h, (Except.ok.inj he).symm⟩, fun he => congrArg _ he.2.symm⟩
  · exact ⟨fun he => (by cases he), fun he => absurd he.1 h⟩

def toU32 (i : Int) : Result Nat :=
  if 0 ≤ i then .ok i.toNat
  else .error (.miette "out of range integral type conversion attempted")

/-- `COALESCE(x, y)`. -/
abbrev coalesce {α : Type} (x y : Option α) : Option α := x.or y

namespace Db

def rowsAt (rows : HashMap NodeKey (HashMap String AssetRow)) (key : NodeKey) :
    HashMap String AssetRow := (rows.get? key).getD ∅

end Db

/-- A row of `workflow_run_inputs` for a given run and attempt. -/
structure NewInput where
  location : Location
  name : String
  row : AssetRow

/-- A row of `node_outputs` for a node of a given run and attempt. -/
structure NewOutput where
  location : Location
  name : String
  row : AssetRow

/-- Whether an input row of that location and name is stored. -/
def Db.hasInput (db : Db) (run : Uuid) (attempt : Int) (i : NewInput) : Bool :=
  (rowsAt db.inputs (run, attempt, i.location)).contains i.name

def Db.addInput (db : Db) (run : Uuid) (attempt : Int) (i : NewInput) : Db :=
  let key : NodeKey := (run, attempt, i.location)
  { db with inputs := db.inputs.insert key ((rowsAt db.inputs key).insert i.name i.row) }

def insertInput (run : Uuid) (attempt : Int) (new : NewInput) (db : Db) : Result (Unit × Db) :=
  if db.hasInput run attempt new then
    .error (.miette ("UNIQUE constraint failed: workflow_run_inputs.workflow_run_id, " ++
      "workflow_run_inputs.attempt, workflow_run_inputs.location, workflow_run_inputs.name"))
  else if db.attempts.contains (run, attempt) then
    .ok ((), db.addInput run attempt new)
  else .error (.miette "FOREIGN KEY constraint failed")

def insertWorkflowRunInputs (run : Uuid) (attempt : Int) (inputs : List NewInput) : Program Unit :=
  .each inputs fun new => .stmt (insertInput run attempt new)

/-- The columns of an upsert on a row that exists. The two pause times are not set. -/
def NodeRow.onConflict (old new : NodeRow) : NodeRow :=
  { old with
    name := coalesce old.name new.name
    scheduledTime := coalesce old.scheduledTime new.scheduledTime
    queuedTime := coalesce old.queuedTime new.queuedTime
    runningTime := coalesce old.runningTime new.runningTime
    completeTime := coalesce old.completeTime new.completeTime
    cancelledTime := coalesce old.cancelledTime new.cancelledTime
    errorTime := coalesce old.errorTime new.errorTime
    cond := coalesce old.cond new.cond
    loopIndex := coalesce new.loopIndex old.loopIndex
    mapSize := coalesce old.mapSize new.mapSize
    mapCompleted := coalesce new.mapCompleted old.mapCompleted
    handle := coalesce new.handle old.handle
    executionContext := coalesce new.executionContext old.executionContext
    error := coalesce old.error new.error
    errorDetail := coalesce old.errorDetail new.errorDetail }

abbrev NodeUpdate := Location × NodeRow

/-- The row of a node after an upsert. -/
def NodeRow.upsert (old : Option NodeRow) (new : NodeRow) : NodeRow :=
  match old with
  | some old => old.onConflict new
  | none => new

def upsertRow (table : HashMap NodeKey NodeRow) (key : NodeKey) (row : NodeRow) :
    HashMap NodeKey NodeRow :=
  table.insert key (.upsert (table.get? key) row)

def Db.upsert (db : Db) (run : Uuid) (attempt : Int) (u : NodeUpdate) : Db :=
  { db with nodeStates := upsertRow db.nodeStates (run, attempt, u.1) u.2 }

def upsertNodeState (run : Uuid) (attempt : Int) (update : NodeUpdate) (db : Db) :
    Result (Unit × Db) :=
  if db.nodeStates.contains (run, attempt, update.1) || db.attempts.contains (run, attempt) then
    .ok ((), db.upsert run attempt update)
  else .error (.miette "FOREIGN KEY constraint failed")

/-- Bytewise `|=` of the bytes both blobs have. -/
def orBytes : List Byte → List Byte → List Byte
  | x :: xs, y :: ys => (x ||| y) :: orBytes xs ys
  | xs, _ => xs

/-- Or the stored map bits into those of an update. -/
def NodeRow.mergeBits (existing : Option (List Byte)) (row : NodeRow) : NodeRow :=
  match row.mapCompleted, existing with
  | some new, some existing => { row with mapCompleted := some (orBytes new existing) }
  | _, _ => row

def storedBits (table : HashMap NodeKey NodeRow) (key : NodeKey) : Option (List Byte) :=
  (table.get? key).bind NodeRow.mapCompleted

def mergeMapComplete (db : Db) (run : Uuid) (attempt : Int) (update : NodeUpdate) : NodeUpdate :=
  (update.1, update.2.mergeBits (storedBits db.nodeStates (run, attempt, update.1)))

/-- The stored bits are those from before the batch. -/
def mergeMapCompleteFields (run : Uuid) (attempt : Int) (updates : List NodeUpdate) :
    Program (List NodeUpdate) :=
  if updates.all fun u => u.2.mapCompleted.isNone then .ok updates
  else .query fun db => .ok (updates.map (mergeMapComplete db run attempt))

/-- The first row of a name stays. -/
def addOutputRow (table : HashMap NodeKey (HashMap String AssetRow)) (key : NodeKey)
    (name : String) (row : AssetRow) : HashMap NodeKey (HashMap String AssetRow) :=
  if (Db.rowsAt table key).contains name then table
  else table.insert key ((Db.rowsAt table key).insert name row)

def Db.addOutput (db : Db) (run : Uuid) (attempt : Int) (o : NewOutput) : Db :=
  { db with nodeOutputs := addOutputRow db.nodeOutputs (run, attempt, o.location) o.name o.row }

def insertOutputs (run : Uuid) (attempt : Int) (outputs : List NewOutput) : Program Unit :=
  if outputs.isEmpty then .ok ()
  else
    (Prog.query fun db : Db =>
      if outputs.all fun new => db.nodeStates.contains (run, attempt, new.location) then .ok ()
      else .error (.panic "called `Option::unwrap()` on a `None` value")).andThen fun _ =>
    .each outputs fun new => .stmt fun db => .ok ((), db.addOutput run attempt new)

def updateNodeState (run : Uuid) (attempt : Int) (updates : List NodeUpdate)
    (outputs : List NewOutput) : Program Unit :=
  .transaction <|
    (mergeMapCompleteFields run attempt updates).andThen fun updates =>
    (Prog.each updates fun u => .stmt (upsertNodeState run attempt u)).andThen fun _ =>
    insertOutputs run attempt outputs

def AttemptRow.coalesce (row update : AttemptRow) : AttemptRow where
  startedTime := Sql.coalesce row.startedTime update.startedTime
  queuedTime := Sql.coalesce row.queuedTime update.queuedTime
  completeTime := Sql.coalesce row.completeTime update.completeTime
  cancelledTime := Sql.coalesce row.cancelledTime update.cancelledTime
  errorTime := Sql.coalesce row.errorTime update.errorTime

def Db.putAttempt (db : Db) (run : Uuid) (attempt : Int) (row : AttemptRow) : Db :=
  { db with attempts := db.attempts.insert (run, attempt) row }

/-- Set timings that are not set yet. An attempt without a row is not an error. -/
def updateWorkflowRun (run : Uuid) (attempt : Int) (update : AttemptRow) : Program Unit :=
  .stmt fun db =>
    match db.attempts.get? (run, attempt) with
    | none => .ok ((), db)
    | some row =>
      .ok ((), db.putAttempt run attempt (row.coalesce update))

/-! ## Reading back -/

def readLoopIndex (row : NodeRow) : Result (Option Nat) :=
  match row.loopIndex with
  | none => .ok none
  | some idx => (toU32 idx).map some

def readMapCompleted (row : NodeRow) : Result (Option (List Bool)) :=
  match row.mapCompleted with
  | none => .ok none
  | some bytes => do
    let size ← okOr row.mapSize "Could not get map size from node state"
    let size ← toU32 size
    pure (some ((fromSlice bytes).take size))

/-- A node has outputs once it is complete, possibly none. -/
def readOutputs (K : Crates) (row : NodeRow) (outputs : HashMap String AssetRow) :
    Result (Option Specs) :=
  if row.completeTime.isSome then (AssetRow.toSpecs K outputs).map some else .ok none

def toNodeState (K : Crates) (row : NodeRow) (outputs : HashMap String AssetRow) :
    Result NodeState := do
  let loopIndex ← readLoopIndex row
  let mapCompleted ← readMapCompleted row
  let outputs ← readOutputs K row outputs
  pure
    { name := row.name
      scheduledTime := row.scheduledTime
      queuedTime := row.queuedTime
      pausedTime := row.pausedTime
      unpausedTime := row.unpausedTime
      runningTime := row.runningTime
      completeTime := row.completeTime
      cancelledTime := row.cancelledTime
      errorTime := row.errorTime
      outputs := outputs
      cond := row.cond
      loopIndex := loopIndex
      mapCompleted := mapCompleted
      error := row.error
      errorDetail := row.errorDetail
      handle := row.handle
      executionContext := row.executionContext }

def readNodeState (K : Crates) (db : Db) (run : Uuid) (attempt : Int) (loc : Location) :
    Result NodeState :=
  match db.nodeStates.get? (run, attempt, loc) with
  | none => .ok {}
  | some row => toNodeState K row (Db.rowsAt db.nodeOutputs (run, attempt, loc))

/-- The locations of an attempt that have a row which passes `p`. -/
def locationsWhere (db : Db) (run : Uuid) (attempt : Int) (p : NodeRow → Bool) : List Location :=
  (db.nodeStates.toList.filter fun e => e.1.1 == run && e.1.2.1 == attempt && p e.2).map
    fun e => e.1.2.2

/-- Read the rows at some locations; a location without a row has no entry. -/
def readRows (K : Crates) (db : Db) (run : Uuid) (attempt : Int) :
    List Location → Result NodeStates
  | [] => .ok ∅
  | loc :: locs => do
    let s ← readNodeState K db run attempt loc
    let states ← readRows K db run attempt locs
    pure (states.insert loc s)

def readNodeStates (K : Crates) (db : Db) (run : Uuid) (attempt : Int) (locations : List Location) :
    Result NodeStates :=
  readRows K db run attempt
    ((locationsWhere db run attempt fun _ => true).filter fun loc => loc ∈ locations)

def readNodeStatesByName (K : Crates) (db : Db) (run : Uuid) (attempt : Int) (name : String) :
    Result NodeStates :=
  readRows K db run attempt (locationsWhere db run attempt fun row => row.name == some name)

theorem mem_locationsWhere {db : Db} {run : Uuid} {attempt : Int} {p : NodeRow → Bool} {loc : Location} :
    loc ∈ locationsWhere db run attempt p ↔
      ∃ row, db.nodeStates.get? (run, attempt, loc) = some row ∧ p row = true := by
  unfold locationsWhere
  simp only [List.mem_map, List.mem_filter, Bool.and_eq_true, beq_iff_eq]
  constructor
  · rintro ⟨⟨⟨x, y, z⟩, row⟩, ⟨hm, ⟨rfl, rfl⟩, hp⟩, rfl⟩
    exact ⟨row, HashMap.get?_eq_some_iff.2 hm, hp⟩
  · rintro ⟨row, hrow, hp⟩
    exact ⟨_, ⟨HashMap.get?_eq_some_iff.1 hrow, ⟨rfl, rfl⟩, hp⟩, rfl⟩

theorem readRows_spec {K : Crates} {db : Db} {run : Uuid} {attempt : Int} (loc : Location) :
    ∀ {locations : List Location} {nodeStates : NodeStates},
      readRows K db run attempt locations = .ok nodeStates →
      if loc ∈ locations then
        ∃ s, readNodeState K db run attempt loc = .ok s ∧ nodeStates.get? loc = some s
      else nodeStates.get? loc = none
  | [], nodeStates, h => by
    cases h
    rfl
  | l :: locations, nodeStates, h => by
    rw [readRows, Result.bind_eq_ok] at h
    obtain ⟨s, hs, h⟩ := h
    rw [Result.bind_eq_ok] at h
    obtain ⟨rest, hr, h⟩ := h
    cases h
    have ih := readRows_spec loc hr
    by_cases e : loc = l
    · subst e
      simpa using hs
    · simpa [HashMap.get?_insert_ne _ _ e, e] using ih

/-- A state that is read along with others is what is read at its location. -/
theorem readNodeStates_spec {K : Crates} {db : Db} {run : Uuid} {attempt : Int} {loc : Location}
    {locations : List Location} {nodeStates : NodeStates}
    (h : readNodeStates K db run attempt locations = .ok nodeStates) (hl : loc ∈ locations) :
    readNodeState K db run attempt loc = .ok ((nodeStates.get? loc).getD {}) := by
  have := readRows_spec loc h
  split_ifs at this with hm
  · obtain ⟨s, hs, hg⟩ := this
    rw [hs, hg]
    rfl
  · rw [this]
    have hrow : db.nodeStates.get? (run, attempt, loc) = none := by
      by_contra hne
      obtain ⟨row, hrow⟩ := Option.ne_none_iff_exists'.1 hne
      exact hm (List.mem_filter.2 ⟨mem_locationsWhere.2 ⟨row, hrow, rfl⟩, decide_eq_true hl⟩)
    rw [readNodeState, hrow]
    rfl

def readWorkflowRunInputFromLocation (K : Crates) (db : Db) (run : Uuid) (attempt : Int)
    (loc : Location) (name : String) : Result AssetSpec := do
  let row ← okOr ((Db.rowsAt db.inputs (run, attempt, loc)).get? name) "Record not found"
  row.toSpec K

end Tierkreis.Sql
