import Tierkreis.Restart.Attempts
import Tierkreis.State.Batch

/-!
# The attempts of a run in SQLite

The same histories on the database, next to their ledger. The metadata column of
`workflow_run_attempts` is kept beside the other columns, and nothing fails from
outside.
-/

namespace Tierkreis

open Lib Lib.Txn Lib.Run Sql

/-- The SQLite store with the metadata of its attempts. -/
structure SqliteWithMetadata where
  state : SqliteRuntimeState
  metadata : HashMap (Uuid × Int) Metadata

namespace SqliteWithMetadata

open SqliteRuntimeState (noFaults)

variable (K : Crates) (st : SqliteWithMetadata)

/-- A database with some workflows and no run. -/
def empty (workflowNames : HashMap Uuid (Option String)) : SqliteWithMetadata where
  state :=
    { db :=
        { workflowNames := workflowNames
          workflowRuns := ∅
          attempts := ∅
          nodeStates := ∅
          nodeOutputs := ∅
          inputs := ∅ }
      watch := ⟨∅⟩ }
  metadata := ∅

def metadataOf (key : Uuid × Int) : Metadata := (st.metadata.get? key).getD ∅

def newWorkflowRunState (now : Time) (runId workflowId : Uuid) (inputs : Specs)
    (metadata : Metadata) : Result Unit × SqliteWithMetadata :=
  match st.state.newWorkflowRunState noFaults now runId workflowId inputs with
  | (.ok (), state) =>
    (.ok (), { state := state, metadata := st.metadata.insert (runId, 0) metadata })
  | (.error f, state) => (.error f, { st with state := state })

/-- The metadata are copied along with the row of the new attempt. -/
def newAttempt (now : Time) (runId : Uuid) : Result RunAttempt × SqliteWithMetadata :=
  let out := st.state.newAttempt noFaults now runId
  match maxAttempt st.state.db runId with
  | none => (out.1, { st with state := out.2 })
  | some last =>
    let next := wrapI32 (last + 1)
    if out.2.db.attempts.contains (runId, next) then
      (out.1, { state := out.2
                metadata := st.metadata.insert (runId, next) (st.metadataOf (runId, next - 1)) })
    else (out.1, { st with state := out.2 })

/-- An update of a row that is not there changes nothing. -/
def addMetadata (r : RunAttempt) (metadata : Metadata) : SqliteWithMetadata :=
  match toI32 r.2 with
  | .error _ => st
  | .ok attempt =>
    if st.state.db.attempts.contains (r.1, attempt) then
      { st with metadata :=
          st.metadata.insert (r.1, attempt) ((st.metadataOf (r.1, attempt)).extend metadata) }
    else st

/-- A call, and the ledger of what has been made. -/
def step (p : SqliteWithMetadata × Ledger) : HistoryCall → SqliteWithMetadata × Ledger
  | .newRun now runId workflowId inputs metadata =>
    match p.1.newWorkflowRunState now runId workflowId inputs metadata with
    | (.ok (), st) => (st, p.2.newRun runId ⟨workflowId, inputs, metadata⟩)
    | (.error _, st) => (st, p.2)
  | .load _ => p
  | .newAttempt now runId =>
    match p.1.newAttempt now runId with
    | (.ok _, st) => (st, p.2.newAttempt runId)
    | (.error _, st) => (st, p.2)
  | .addMetadata r metadata => (p.1.addMetadata r metadata, p.2.addMetadata r metadata)
  | .write r now event => ({ p.1 with state := (p.1.state.write K r noFaults now event).2 }, p.2)
  | .unpause r now locations =>
    ({ p.1 with state := (p.1.state.unpause r noFaults now locations).2 }, p.2)
  | .copyNodeStates target source f =>
    ({ p.1 with state := (p.1.state.copyNodeStatesFrom K noFaults target source f).2 }, p.2)

/-- What a caller can ask for: the ids of runs are fresh, and an attempt is in hand once it
has been made. -/
def Allowed (p : SqliteWithMetadata × Ledger) (c : HistoryCall) : Prop :=
  c.Nested ∧
  match c with
  | .newRun _ runId _ _ _ => p.1.state.db.workflowRuns.contains runId = false
  | .addMetadata r _ | .write r _ _ | .unpause r _ _ | .copyNodeStates r _ _ => p.2.has r
  | _ => True

end SqliteWithMetadata

/-! ## Calls that stay below the root -/

namespace Sql

/-- Input rows belong to attempts, and no node is at the root. -/
structure Sound (db : Db) : Prop where
  inputs : ∀ run i loc, db.attempts.contains (run, i) = false →
    ∀ name, (Db.rowsAt db.inputs (run, i, loc)).get? name = none
  rootless : ∀ run i, db.nodeStates.get? (run, i, Location.root) = none

/-- `db` has the runs, the attempts and the root inputs of `db₀`. -/
structure KeepsRoots (db₀ db : Db) : Prop where
  runs : db.workflowRuns = db₀.workflowRuns
  attempts : ∀ key, db.attempts.contains key = db₀.attempts.contains key
  roots : ∀ run i, Db.rowsAt db.inputs (run, i, Location.root) =
    Db.rowsAt db₀.inputs (run, i, Location.root)
  sound : Sound db

namespace KeepsRoots

variable {db₀ db : Db}

theorem refl (h : Sound db₀) : KeepsRoots db₀ db₀ := ⟨rfl, fun _ => rfl, fun _ _ => rfl, h⟩

theorem putInputs (h : KeepsRoots db₀ db) {run : Uuid} {i : Int} {loc : Location}
    {rows : HashMap String AssetRow} (hl : loc ≠ Location.root)
    (ha : db.attempts.contains (run, i) = true) :
    KeepsRoots db₀ { db with inputs := db.inputs.insert (run, i, loc) rows } where
  runs := h.runs
  attempts := h.attempts
  roots run' i' := by
    rw [← h.roots, Db.rowsAt, HashMap.get?_insert_ne _ _ fun e => ?_, Db.rowsAt]
    exact hl (Prod.mk.inj (Prod.mk.inj e).2).2.symm
  sound :=
    { inputs := fun run' i' loc' hn name => by
        rw [Db.rowsAt, HashMap.get?_insert_ne _ _ fun e => ?_]
        · exact h.sound.inputs run' i' loc' hn name
        · cases e
          rw [ha] at hn
          cases hn
      rootless := h.sound.rootless }

theorem putNode (h : KeepsRoots db₀ db) {run : Uuid} {i : Int} {loc : Location} {row : NodeRow}
    (hl : loc ≠ Location.root) :
    KeepsRoots db₀ { db with nodeStates := db.nodeStates.insert (run, i, loc) row } where
  runs := h.runs
  attempts := h.attempts
  roots := h.roots
  sound :=
    { inputs := h.sound.inputs
      rootless := fun run' i' => by
        rw [HashMap.get?_insert_ne _ _ fun e => ?_]
        · exact h.sound.rootless run' i'
        · exact hl (Prod.mk.inj (Prod.mk.inj e).2).2.symm }

theorem putOutputs (h : KeepsRoots db₀ db) (outputs : HashMap NodeKey (HashMap String AssetRow)) :
    KeepsRoots db₀ { db with nodeOutputs := outputs } :=
  ⟨h.runs, h.attempts, h.roots, ⟨h.sound.inputs, h.sound.rootless⟩⟩

theorem putAttempt (h : KeepsRoots db₀ db) {run : Uuid} {i : Int} {row : AttemptRow}
    (ha : db.attempts.contains (run, i) = true) : KeepsRoots db₀ (db.putAttempt run i row) := by
  have hc : ∀ key, (db.putAttempt run i row).attempts.contains key = db.attempts.contains key := by
    intro key
    rw [Db.putAttempt, HashMap.contains_insert]
    by_cases e : key = (run, i)
    · rw [e, ha, Bool.or_true]
    · simp [e]
  exact ⟨h.runs, fun key => (hc key).trans (h.attempts key), h.roots,
    ⟨fun run' i' loc hn name => h.sound.inputs run' i' loc ((hc _).symm.trans hn) name,
      h.sound.rootless⟩⟩

end KeepsRoots

section Programs

variable {db₀ : Db} {run : Uuid} {attempt : Int}

theorem keepsRoots_getConn : Keeps (KeepsRoots db₀) getConn :=
  .stmt fun _ _ _ h hr => by cases hr; exact h

theorem keepsRoots_insertInputs {inputs : List NewInput}
    (hi : ∀ i ∈ inputs, i.location ≠ Location.root) :
    Keeps (KeepsRoots db₀) (insertWorkflowRunInputs run attempt inputs) := by
  refine .each fun i hm => .stmt fun db _ db' h hr => ?_
  obtain ⟨⟨ha, -⟩, rfl⟩ := insertInput_eq_ok.1 hr
  exact h.putInputs (hi i hm) ha

theorem keepsRoots_updateNodeState {updates : List NodeUpdate}
    (hu : ∀ u ∈ updates, u.1 ≠ Location.root) (outputs : List NewOutput) :
    Keeps (KeepsRoots db₀) (updateNodeState run attempt updates outputs) := by
  have hupsert : ∀ us : List NodeUpdate, (∀ u ∈ us, u.1 ≠ Location.root) → Keeps (KeepsRoots db₀)
      (Prog.each us fun u => .stmt (upsertNodeState run attempt u)) := by
    refine fun us hus => .each fun u hm => .stmt fun db _ db' h hr => ?_
    unfold upsertNodeState at hr
    split_ifs at hr
    cases hr
    exact h.putNode (hus u hm)
  have houtputs : Keeps (KeepsRoots db₀) (insertOutputs run attempt outputs) := by
    unfold insertOutputs
    split_ifs
    · exact .ok _
    · refine (Keeps.query _).andThen fun _ => .each fun o _ => .stmt fun db _ db' h hr => ?_
      cases hr
      exact h.putOutputs _
  refine Keeps.transaction ?_
  unfold mergeMapCompleteFields
  split_ifs
  · have hrest : Keeps (KeepsRoots db₀) ((Prog.each updates fun u =>
        .stmt (upsertNodeState run attempt u)).andThen fun _ => insertOutputs run attempt outputs) :=
      (hupsert _ hu).andThen fun _ => houtputs
    exact hrest
  · refine Keeps.query_andThen fun db us _ hus => ?_
    cases hus
    refine (hupsert _ fun u hm => ?_).andThen fun _ => houtputs
    obtain ⟨v, hv, rfl⟩ := List.mem_map.1 hm
    exact hu v hv

theorem eventInputs_location {e : NodeEvent} (h : e.loc ≠ Location.root) :
    ∀ i ∈ eventInputs e, i.location ≠ Location.root := by
  intro i hi
  unfold eventInputs inputRows at hi
  split at hi
  · obtain ⟨x, -, rfl⟩ := List.mem_map.1 hi
    exact h
  · obtain ⟨x, -, rfl⟩ := List.mem_map.1 hi
    exact List.append_ne_nil_of_right_ne_nil _ (List.cons_ne_nil _ _)
  · obtain ⟨l, hl, hi⟩ := List.mem_flatten.1 hi
    obtain ⟨j, hj, rfl⟩ := List.mem_mapIdx.1 hl
    obtain ⟨x, -, rfl⟩ := List.mem_map.1 hi
    exact List.append_ne_nil_of_right_ne_nil _ (List.cons_ne_nil _ _)
  · cases hi

theorem keepsRoots_writeProg (K : Crates) (now : Time) (n : Nat) {e : WorkflowRunEvent}
    (he : ∀ events, e = .nodeEvents events → ∀ x ∈ events, x.loc ≠ Location.root) :
    Keeps (KeepsRoots db₀) (writeProg K now run n e) := by
  have hevent : ∀ row : AttemptRow, Keeps (KeepsRoots db₀)
      ((Prog.lift (toI32 n)).andThen fun attempt => getConn.andThen fun _ =>
        updateWorkflowRun run attempt row) := by
    refine fun row => (Keeps.lift _).andThen fun attempt => keepsRoots_getConn.andThen fun _ => ?_
    refine .stmt fun db _ db' h hr => ?_
    cases hrow : db.attempts.get? (run, attempt) with
    | none =>
      simp only [hrow, Except.ok.injEq, Prod.mk.injEq] at hr
      exact hr.2 ▸ h
    | some old =>
      simp only [hrow, Except.ok.injEq, Prod.mk.injEq] at hr
      exact hr.2 ▸ h.putAttempt (by rw [HashMap.contains, hrow]; rfl)
  cases e with
  | nodeEvents events =>
    have hnested := he events rfl
    refine Keeps.mapError ((Keeps.lift _).andThen fun attempt => ?_) _
    cases hu : events.mapM (eventRow K now) with
    | error f => exact fun _ _ h => h
    | ok updates =>
      have hrest : Keeps (KeepsRoots db₀)
          ((getConn.mapError (.wrapErr "Error acquiring connection from pool")).andThen fun _ =>
            writeRows run attempt updates (events.flatMap eventInputs)
              (events.flatMap eventOutputs)) := by
        refine (keepsRoots_getConn.mapError _).andThen fun _ => Keeps.andThen
          ((keepsRoots_insertInputs fun i hi => ?_).mapError _)
          fun _ => (keepsRoots_updateNodeState (fun u hm => ?_) _).mapError _
        · obtain ⟨x, hx, hi⟩ := List.mem_flatMap.1 hi
          exact eventInputs_location (hnested x hx) i hi
        · have hm : u.1 ∈ updates.map Prod.fst := List.mem_map_of_mem hm
          rw [fst_eventRows hu] at hm
          obtain ⟨x, hx, hloc⟩ := List.mem_map.1 hm
          exact hloc ▸ hnested x hx
      exact hrest
  | _ => exact hevent _

theorem keepsRoots_unpauseProg (now : Time) (n : Nat) {locations : List Location}
    (h : Location.root ∉ locations) : Keeps (KeepsRoots db₀) (unpauseProg now run n locations) := by
  refine keepsRoots_getConn.andThen fun _ => (Keeps.lift _).andThen fun _ =>
    (keepsRoots_updateNodeState (fun u hu => ?_) _).mapError _
  obtain ⟨loc, hloc, rfl⟩ := List.mem_map.1 hu
  exact fun e => h (e ▸ hloc)

theorem keepsRoots_copyInputs {source dest : Int} {loc : Location} (hl : loc ≠ Location.root)
    (hd : db₀.attempts.contains (run, dest) = true) :
    Keeps (KeepsRoots db₀) (copyInputs run source dest loc) := by
  refine .stmt fun db _ db' h hr => ?_
  dsimp only at hr
  split_ifs at hr <;> cases hr
  · exact h
  · exact h.putInputs hl ((h.attempts _).trans hd)

theorem keepsRoots_copyNodeStatesProg (K : Crates) {source dest : Int} (f : NodeCopyFilter)
    (hd : db₀.attempts.contains (run, dest) = true) :
    Keeps (KeepsRoots db₀) (copyNodeStatesProg K run source dest f) := by
  refine Keeps.mapError (Keeps.transaction (Keeps.query_andThen fun db rows h hrows => ?_)) _
  cases hrows
  refine .each fun e he => ?_
  -- the rows that are copied are those of nodes
  have hl : e.1 ≠ Location.root := by
    obtain ⟨x, hx, rfl⟩ := List.mem_map.1 he
    obtain ⟨hx, -⟩ := List.mem_filter.1 hx
    intro hroot
    have hget : db.nodeStates.get? x.1 = some x.2 := HashMap.get?_eq_some_iff.2 hx
    have hnone := h.sound.rootless x.1.1 x.1.2.1
    rw [← hroot] at hnone
    rw [hnone] at hget
    cases hget
  rw [copyRow]
  by_cases hcl : f.clears e.1 = true
  · rw [if_pos hcl]
    exact .ok _
  · rw [if_neg hcl]
    refine Keeps.andThen ?_ fun _ => Keeps.andThen ?_ fun _ => keepsRoots_copyInputs hl hd
    · refine .stmt fun db _ db' h hr => ?_
      split_ifs at hr
      cases hr
      exact h.putNode hl
    · unfold copyOutputs
      split_ifs
      · exact .ok _
      · refine .stmt fun db _ db' h hr => ?_
        cases hr
        exact h.putOutputs _

end Programs

/-- Input rows of one location, on top of those that are stored there. -/
theorem rowsAt_addInputs {run : Uuid} {attempt : Int} {loc : Location}
    {l : List (String × AssetSpec)} (hl : (l.map Prod.fst).Nodup) (name : String) :
    ∀ db : Db, (Db.rowsAt (db.addInputs run attempt (l.map fun i =>
        { location := loc, name := i.1, row := .ofSpec i.2 })).inputs (run, attempt, loc)).get? name =
      ((l.find? fun i => i.1 = name).map fun i => AssetRow.ofSpec i.2).or
        ((Db.rowsAt db.inputs (run, attempt, loc)).get? name) := by
  induction l with
  | nil => exact fun _ => rfl
  | cons i l ih =>
    intro db
    rw [List.map_cons, List.nodup_cons] at hl
    rw [List.map_cons, Db.addInputs, List.foldl_cons, ← Db.addInputs, ih hl.2, List.find?_cons]
    have hrow : (Db.rowsAt (db.addInput run attempt
        { location := loc, name := i.1, row := .ofSpec i.2 }).inputs (run, attempt, loc)).get? name =
          if name = i.1 then some (.ofSpec i.2)
          else (Db.rowsAt db.inputs (run, attempt, loc)).get? name := by
      rw [Db.addInput, Db.rowsAt, HashMap.get?_insert_self, Option.getD_some, HashMap.get?_insert]
    rw [hrow]
    by_cases e : i.1 = name
    · have hnone : l.find? (fun j => j.1 = name) = none := by
        rw [List.find?_eq_none]
        intro j hj hje
        exact hl.1 (e ▸ of_decide_eq_true hje ▸ List.mem_map_of_mem hj)
      simp [e, hnone]
    · simp [e, Ne.symm e]

theorem rowsAt_inputRows {run : Uuid} {attempt : Int} {loc : Location} (specs : Specs) (db : Db)
    (name : String) :
    (Db.rowsAt (db.addInputs run attempt (inputRows loc specs)).inputs (run, attempt, loc)).get?
        name =
      ((specs.get? name).map AssetRow.ofSpec).or
        ((Db.rowsAt db.inputs (run, attempt, loc)).get? name) := by
  rw [inputRows, rowsAt_addInputs specs.nodup_toList, ← HashMap.find?_toList specs,
    Option.map_map]
  rfl

theorem rowsAt_addInputs_of_ne {run : Uuid} {attempt : Int} {key : NodeKey}
    {inputs : List NewInput} (h : ∀ i ∈ inputs, key ≠ (run, attempt, i.location)) :
    ∀ db : Db, Db.rowsAt (db.addInputs run attempt inputs).inputs key = Db.rowsAt db.inputs key := by
  induction inputs with
  | nil => exact fun _ => rfl
  | cons i is ih =>
    intro db
    rw [List.forall_mem_cons] at h
    rw [Db.addInputs, List.foldl_cons, ← Db.addInputs, ih h.2, Db.addInput, Db.rowsAt,
      HashMap.get?_insert_ne _ _ h.1, Db.rowsAt]

end Sql

namespace SqliteWithMetadata

open SqliteRuntimeState (noFaults newWorkflowRunProg)

/-- The rows of the attempts in the ledger have what those were made with, and there are no
other attempts. -/
structure Recorded (p : SqliteWithMetadata × Ledger) : Prop where
  attempts : ∀ run i, p.1.state.db.attempts.contains (run, i) = true ↔
    ∃ a : Nat, i = a ∧ p.2.has (run, a)
  entry : ∀ r record, p.2.record? r = some record →
    (∀ name, (Db.rowsAt p.1.state.db.inputs (r.1, (r.2 : Int), Location.root)).get? name =
      (record.inputs.get? name).map AssetRow.ofSpec) ∧
    p.1.state.db.workflowRuns.get? r.1 = some record.workflowId ∧
    p.1.metadataOf (r.1, (r.2 : Int)) = record.metadata
  uniform : p.2.Uniform
  sound : Sound p.1.state.db
  small : ∀ run, (p.2 run).length ≤ 2 ^ 31

theorem recorded_empty (workflowNames : HashMap Uuid (Option String)) :
    Recorded (empty workflowNames, fun _ => []) where
  attempts run i := by simp [empty, HashMap.contains, Ledger.has]
  entry r record h := by simp [Ledger.record?] at h
  uniform run i j a b ha := by simp [Ledger.record?] at ha
  sound := ⟨fun _ _ _ _ _ => rfl, fun _ _ => rfl⟩
  small run := by simp

theorem Recorded.keepsRoots {p : SqliteWithMetadata × Ledger} (h : Recorded p)
    {state : SqliteRuntimeState} (hb : KeepsRoots p.1.state.db state.db) :
    Recorded ({ p.1 with state := state }, p.2) where
  attempts run i := by
    rw [← h.attempts]
    exact iff_of_eq (congrArg (· = true) (hb.attempts _))
  entry r record hr := by
    obtain ⟨hi, hw, hm⟩ := h.entry r record hr
    refine ⟨fun name => ?_, ?_, hm⟩
    · rw [← hi]
      exact congrArg (·.get? name) (hb.roots _ _)
    · rw [← hw]
      exact congrArg (·.get? r.1) hb.runs
  uniform := h.uniform
  sound := hb.sound
  small := h.small

/-- What a new run adds. -/
theorem newWorkflowRunProg_effect {now : Time} {runId workflowId : Uuid} {inputs : Specs}
    {db : Db} {s' : Session Db}
    (h : newWorkflowRunProg now runId workflowId inputs noFaults ⟨db, 0⟩ = (.ok (), s')) :
    db.attempts.contains (runId, 0) = false ∧
      s'.db = { db with
        workflowRuns := db.workflowRuns.insert runId workflowId
        attempts := db.attempts.insert (runId, 0) { startedTime := some now } : Db }.addInputs
          runId 0 (inputRows Location.root inputs) := by
  unfold newWorkflowRunProg at h
  rw [Prog.andThen_eq_ok] at h
  obtain ⟨⟨⟩, s₁, hc, h⟩ := h
  have hc := Prog.stmt_ok hc
  obtain ⟨t, t', ht, h, hdb⟩ := Prog.transaction_ok (Prog.mapError_ok h)
  rw [Prog.andThen_eq_ok] at h
  obtain ⟨⟨⟩, s₂, hr, h⟩ := h
  rw [Prog.andThen_eq_ok] at h
  obtain ⟨⟨⟩, s₃, ha, hi⟩ := h
  have hr := Prog.stmt_ok hr
  have ha := Prog.stmt_ok ha
  have hi := runAll_insertInput_eq (Prog.each_stmt_ok hi)
  have ht : t.db = db := ht.trans (Prod.mk.inj (Except.ok.inj hc)).2.symm
  rw [ht] at hr
  split_ifs at hr with h₁ h₂
  have hr := (Prod.mk.inj (Except.ok.inj hr)).2
  rw [← hr] at ha
  split_ifs at ha with h₃
  have ha := (Prod.mk.inj (Except.ok.inj ha)).2
  exact ⟨by simpa using h₃, by rw [hdb, hi, ← ha]⟩

theorem atomic_newWorkflowRunProg (now : Time) (runId workflowId : Uuid) (inputs : Specs) :
    Atomic (newWorkflowRunProg now runId workflowId inputs) :=
  Atomic.andThen (fun d => .stmt fun db _ db' h hr => by cases hr; exact h) fun _ =>
    (Atomic.transaction _).mapError _

/-- The database after the next attempt of a run has been made with `record`. -/
structure Makes (db db' : Db) (run : Uuid) (n : Nat) (record : AttemptRecord) : Prop where
  attempts : ∀ key, db'.attempts.contains key = (decide (key = (run, (n : Int))) ||
    db.attempts.contains key)
  runs : ∀ r w, db.workflowRuns.get? r = some w → db'.workflowRuns.get? r = some w
  workflow : db'.workflowRuns.get? run = some record.workflowId
  root : ∀ name, (Db.rowsAt db'.inputs (run, (n : Int), Location.root)).get? name =
    (record.inputs.get? name).map AssetRow.ofSpec
  inputs : ∀ key, key ≠ (run, (n : Int), Location.root) →
    Db.rowsAt db'.inputs key = Db.rowsAt db.inputs key
  nodes : db'.nodeStates = db.nodeStates

theorem Recorded.makes {p : SqliteWithMetadata × Ledger} (h : Recorded p)
    (state : SqliteRuntimeState) (L : Ledger) {run : Uuid} {record : AttemptRecord}
    (hm : Makes p.1.state.db state.db run (p.2 run).length record)
    (hL : ∀ r, L.record? r = if r = (run, (p.2 run).length) then some record else p.2.record? r)
    (hu : L.Uniform) (hs : ∀ run, (L run).length ≤ 2 ^ 31) :
    Recorded ({ state := state
                metadata := p.1.metadata.insert (run, ((p.2 run).length : Int)) record.metadata },
      L) where
  attempts run' i := by
    have hold := h.attempts run' i
    rw [hm.attempts, Bool.or_eq_true, decide_eq_true_eq, hold]
    simp only [Ledger.has_iff, hL, Prod.mk.injEq]
    constructor
    · rintro (⟨rfl, rfl⟩ | ⟨a, rfl, rec', hrec'⟩)
      · exact ⟨_, rfl, record, if_pos ⟨rfl, rfl⟩⟩
      · by_cases e : run' = run ∧ a = (p.2 run).length
        · exact ⟨a, rfl, record, if_pos e⟩
        · exact ⟨a, rfl, rec', (if_neg e).trans hrec'⟩
    · rintro ⟨a, rfl, rec', hrec'⟩
      split_ifs at hrec' with e
      · exact .inl ⟨e.1, congrArg _ e.2⟩
      · exact .inr ⟨a, rfl, rec', hrec'⟩
  entry r rec' hr := by
    rw [hL] at hr
    rw [metadataOf, HashMap.get?_insert]
    split_ifs at hr with e
    · cases hr
      subst e
      exact ⟨hm.root, hm.workflow, by rw [if_pos rfl]; rfl⟩
    · obtain ⟨hi, hw, hmeta⟩ := h.entry r rec' hr
      have hne : (r.1, (r.2 : Int)) ≠ (run, ((p.2 run).length : Int)) := by
        intro he
        obtain ⟨he₁, he₂⟩ := Prod.mk.inj he
        exact e (Prod.ext he₁ (Int.natCast_inj.1 he₂))
      refine ⟨fun name => ?_, hm.runs _ _ hw, ?_⟩
      · rw [hm.inputs _ fun he => hne ?_]
        · exact hi name
        · obtain ⟨he₁, he₂⟩ := Prod.mk.inj he
          exact Prod.ext he₁ (Prod.mk.inj he₂).1
      · rw [if_neg hne]
        exact hmeta
  uniform := hu
  sound :=
    { inputs := fun run' i loc hn name => by
        rw [hm.attempts, Bool.or_eq_false_iff, decide_eq_false_iff_not] at hn
        rw [hm.inputs _ fun he => hn.1 ?_]
        · exact h.sound.inputs run' i loc hn.2 name
        · obtain ⟨he₁, he₂⟩ := Prod.mk.inj he
          exact Prod.ext he₁ (Prod.mk.inj he₂).1
      rootless := fun run' i => by
        rw [hm.nodes]
        exact h.sound.rootless run' i }
  small := hs

theorem Recorded.newRun {p : SqliteWithMetadata × Ledger} (h : Recorded p) {now : Time}
    {runId workflowId : Uuid} {inputs : Specs} {metadata : Metadata}
    (hfresh : p.1.state.db.workflowRuns.contains runId = false) (K : Crates) :
    Recorded (step K p (.newRun now runId workflowId inputs metadata)) := by
  cases hp : newWorkflowRunProg now runId workflowId inputs noFaults ⟨p.1.state.db, 0⟩ with
  | mk res s' =>
    cases res with
    | error f =>
      have hdb := atomic_newWorkflowRunProg now runId workflowId inputs _ _ _ _ hp
      have hstep : step K p (.newRun now runId workflowId inputs metadata) =
          ({ p.1 with state := { p.1.state with db := s'.db } }, p.2) := by
        simp [step, newWorkflowRunState, SqliteRuntimeState.newWorkflowRunState,
          SqliteRuntimeState.exec, hp]
      rw [hstep]
      exact h.keepsRoots (hdb ▸ .refl h.sound)
    | ok u =>
      obtain ⟨hattempt, hdb⟩ := newWorkflowRunProg_effect hp
      have hstep : step K p (.newRun now runId workflowId inputs metadata) =
          ({ state := { db := s'.db, watch := p.1.state.watch.update (runId, 0) false }
             metadata := p.1.metadata.insert (runId, 0) metadata },
            p.2.newRun runId ⟨workflowId, inputs, metadata⟩) := by
        simp [step, newWorkflowRunState, SqliteRuntimeState.newWorkflowRunState,
          SqliteRuntimeState.exec, hp]
      have hempty : p.2 runId = [] := by
        by_contra hne
        obtain ⟨record, hrec⟩ := Ledger.has_iff.1
          (show p.2.has (runId, 0) from List.length_pos_iff.2 hne)
        have hw := (h.entry _ _ hrec).2.1
        rw [HashMap.contains, hw] at hfresh
        cases hfresh
      have hlen : (p.2 runId).length = 0 := by rw [hempty]; rfl
      have hmakes : Makes p.1.state.db s'.db runId (p.2 runId).length
          ⟨workflowId, inputs, metadata⟩ := by
        rw [hlen, hdb, addInputs_frame]
        refine ⟨fun key => ?_, fun r w hw => ?_, HashMap.get?_insert_self _ _ _, fun name => ?_,
          fun key hkey => ?_, rfl⟩
        · exact HashMap.contains_insert _ _ _ _
        · refine (HashMap.get?_insert_ne _ _ ?_).trans hw
          rintro rfl
          rw [HashMap.contains, hw] at hfresh
          cases hfresh
        · refine (rowsAt_inputRows inputs _ name).trans ?_
          rw [show (Db.rowsAt _ _).get? name = none from h.sound.inputs _ _ _ hattempt name,
            Option.or_none]
        · refine rowsAt_addInputs_of_ne (fun i hi => ?_) _
          obtain ⟨x, -, rfl⟩ := List.mem_map.1 hi
          exact hkey
      rw [hstep]
      have hr := h.makes { db := s'.db, watch := p.1.state.watch.update (runId, 0) false }
        (p.2.newRun runId ⟨workflowId, inputs, metadata⟩) hmakes (fun r => ?_)
        (h.uniform.newRun _ _) fun run => ?_
      · rw [hlen] at hr
        exact hr
      · rw [Ledger.record?_newRun, hlen]
        by_cases e : r.1 = runId
        · by_cases e0 : r.2 = 0
          · rw [if_pos e, if_pos e0, if_pos (Prod.ext e e0)]
          · rw [if_pos e, if_neg e0, if_neg fun he => e0 (congrArg Prod.snd he), Ledger.record?, e,
              hempty]
            rfl
        · rw [if_neg e, if_neg fun he => e (congrArg Prod.fst he)]
      · unfold Ledger.newRun
        by_cases e : run = runId
        · rw [e, Function.update_self]
          simp
        · rw [Function.update_of_ne e]
          exact h.small run

/-! ## New attempts -/

/-- The attempt has the time of a terminal event. -/
def ended (row : AttemptRow) : Bool :=
  !(row.cancelledTime.isNone && row.errorTime.isNone && row.completeTime.isNone)

theorem Recorded.maxAttempt_eq {p : SqliteWithMetadata × Ledger} (h : Recorded p) {run : Uuid}
    {n : Nat} (hn : (p.2 run).length = n + 1) : maxAttempt p.1.state.db run = some (n : Int) := by
  have hmem : ∀ i : Int, i ∈ (p.1.state.db.attempts.toList.filter fun e => e.1.1 == run).map
      (fun e => e.1.2) ↔ ∃ a : Nat, i = a ∧ p.2.has (run, a) := by
    intro i
    rw [← h.attempts run i, HashMap.contains, Option.isSome_iff_exists]
    simp only [List.mem_map, List.mem_filter, beq_iff_eq]
    constructor
    · rintro ⟨⟨⟨x, y⟩, row⟩, ⟨hm, rfl⟩, rfl⟩
      exact ⟨row, HashMap.get?_eq_some_iff.2 hm⟩
    · rintro ⟨row, hrow⟩
      exact ⟨_, ⟨HashMap.get?_eq_some_iff.1 hrow, rfl⟩, rfl⟩
  rw [maxAttempt, List.max?_eq_some_iff]
  refine ⟨(hmem _).2 ⟨n, rfl, ?_⟩, fun b hb => ?_⟩
  · rw [Ledger.has, hn]
    exact Nat.lt_succ_self n
  · obtain ⟨a, rfl, ha⟩ := (hmem b).1 hb
    rw [Ledger.has, hn] at ha
    dsimp only at ha
    omega

theorem Recorded.maxAttempt_none {p : SqliteWithMetadata × Ledger} (h : Recorded p) {run : Uuid}
    (hn : p.2 run = []) : maxAttempt p.1.state.db run = none := by
  rw [maxAttempt, List.max?_eq_none_iff, List.map_eq_nil_iff, List.filter_eq_nil_iff]
  rintro ⟨⟨x, i⟩, row⟩ hm hx
  obtain rfl : x = run := by simpa using hx
  have hc : p.1.state.db.attempts.contains (x, i) = true := by
    rw [HashMap.contains, HashMap.get?_eq_some_iff.2 hm]
    rfl
  obtain ⟨a, -, ha⟩ := (h.attempts x i).1 hc
  rw [Ledger.has, hn] at ha
  exact absurd ha (Nat.not_lt_zero a)

/-- The row of an attempt that has been made. -/
theorem Recorded.row {p : SqliteWithMetadata × Ledger} (h : Recorded p) {r : RunAttempt}
    (hr : p.2.has r) : ∃ row, p.1.state.db.attempts.get? (r.1, (r.2 : Int)) = some row :=
  Option.isSome_iff_exists.1 ((h.attempts r.1 r.2).2 ⟨r.2, rfl, hr⟩)

/-- The contents with the next attempt, which has the root inputs of the one before. -/
def withAttempt (db : Db) (now : Time) (run : Uuid) (n : Nat) : Db :=
  let rows := Db.rowsAt db.inputs (run, (n : Int), Location.root)
  let made := db.putAttempt run (n + 1) { startedTime := some now }
  if rows.toList.isEmpty then made
  else
    let stored := Db.rowsAt db.inputs (run, (n : Int) + 1, Location.root)
    { made with inputs := db.inputs.insert (run, (n : Int) + 1, Location.root) (stored.extend rows) }

section NewAttempt

variable {p : SqliteWithMetadata × Ledger} {now : Time} {run : Uuid} {n : Nat}

theorem Recorded.next_free (h : Recorded p) (hn : (p.2 run).length = n + 1) (i : Int)
    (hi : i < 0 ∨ (n : Int) < i) : p.1.state.db.attempts.contains (run, i) = false := by
  rw [Bool.eq_false_iff]
  intro hc
  obtain ⟨a, rfl, ha⟩ := (h.attempts run i).1 hc
  rw [Ledger.has, hn] at ha
  dsimp only at ha
  omega

theorem Recorded.readWorkflowRun_eq (h : Recorded p) (hn : (p.2 run).length = n + 1)
    {row : AttemptRow} (hrow : p.1.state.db.attempts.get? (run, (n : Int)) = some row) :
    ∃ w, readWorkflowRun p.1.state.db (run, n) = .ok (w, row) := by
  obtain ⟨record, hrec⟩ := Ledger.has_iff.1
    (show p.2.has (run, n) by rw [Ledger.has, hn]; exact Nat.lt_succ_self n)
  have hsmall := h.small run
  refine ⟨record.workflowId, ?_⟩
  rw [readWorkflowRun, toI32, if_pos (show n < 2 ^ 31 by omega)]
  simp [(h.entry _ _ hrec).2.1, hrow, okOr, bind, Except.bind, pure, Except.pure]

theorem toU32_natCast (n : Nat) : toU32 (n : Int) = .ok n := if_pos (Int.natCast_nonneg n)

theorem wrapI32_of_lt {i : Int} (h : i < 2 ^ 31) : wrapI32 i = i := if_pos h

theorem toU32_wrapI32 {i : Int} (h : i = 2 ^ 31) : ∃ f, toU32 (wrapI32 i) = .error f := by
  subst h
  exact ⟨_, rfl⟩

theorem newAttempt_error
    (hp : ∃ f s', newAttemptProg now run noFaults ⟨p.1.state.db, 0⟩ = (.error f, s') ∧
      s'.db = p.1.state.db)
    (hfree : ∀ last, maxAttempt p.1.state.db run = some last →
      p.1.state.db.attempts.contains (run, wrapI32 (last + 1)) = false) :
    ∃ f, p.1.newAttempt now run = (.error f, p.1) := by
  obtain ⟨f, s', hp, hdb⟩ := hp
  have hst : p.1.state.newAttempt noFaults now run = (.error f, p.1.state) := by
    simp [SqliteRuntimeState.newAttempt, SqliteRuntimeState.exec, hp, hdb]
  refine ⟨f, ?_⟩
  rw [newAttempt, hst]
  cases hm : maxAttempt p.1.state.db run with
  | none => rfl
  | some last => simp [hfree last hm]

/-- The program once the last attempt is known. -/
theorem newAttemptProg_eq {db : Db} {next : Int} (hmax : maxAttempt db run = some (n : Int))
    (hnext : wrapI32 ((n : Int) + 1) = next) :
    newAttemptProg now run noFaults ⟨db, 0⟩ =
      ((Prog.lift (toU32 next)).andThen fun nextAttempt =>
        (Prog.query fun db : Db => readWorkflowRun db (run, n)).andThen fun lastRun =>
        if lastRun.2.cancelledTime.isNone && lastRun.2.errorTime.isNone &&
            lastRun.2.completeTime.isNone then
          .fail (.miette "Cannot create a new attempt for a run that is still active")
        else
          (insertWorkflowRunAttempt now run next).andThen fun _ =>
          (copyInputs run n next Location.root).andThen fun _ => .ok nextAttempt)
        noFaults ⟨db, 2⟩ := by
  have hq : (Prog.query fun db : Db => okOr (maxAttempt db run)
      s!"No existing run found for run_id: {run}") noFaults ⟨db, 1⟩ = (.ok (n : Int), ⟨db, 2⟩) := by
    simp [Prog.query, Prog.stmt, noFaults, hmax, okOr, Except.map]
  unfold newAttemptProg
  rw [Prog.andThen, show getConn noFaults ⟨db, 0⟩ = (.ok (), ⟨db, 1⟩) from rfl]
  dsimp only
  rw [Prog.andThen, hq]
  dsimp only
  rw [toU32_natCast, hnext]
  rfl

theorem Recorded.newAttempt_refused (h : Recorded p) (now : Time)
    (hr : p.2 run = [] ∨ ∃ n row, (p.2 run).length = n + 1 ∧
      p.1.state.db.attempts.get? (run, (n : Int)) = some row ∧
      (n + 1 = 2 ^ 31 ∨ ended row = false)) :
    ∃ f, p.1.newAttempt now run = (.error f, p.1) := by
  rcases hr with hr | ⟨n, row, hn, hrow, hr⟩
  · have hmax := h.maxAttempt_none hr
    refine newAttempt_error ?_ fun last hl => ?_
    · simp [newAttemptProg, getConn, Prog.andThen, Prog.stmt, Prog.query, noFaults, hmax, okOr,
        Except.map]
    · rw [hmax] at hl
      cases hl
  · have hmax := h.maxAttempt_eq hn
    have hsmall := h.small run
    refine newAttempt_error ?_ fun last hl => ?_
    · by_cases hlt : n + 1 = 2 ^ 31
      · obtain ⟨f, hnext⟩ := toU32_wrapI32 (show (n : Int) + 1 = 2 ^ 31 by omega)
        rw [newAttemptProg_eq hmax rfl, hnext]
        exact ⟨f, _, rfl, rfl⟩
      · obtain ⟨w, hw⟩ := h.readWorkflowRun_eq hn hrow
        have hover : (row.cancelledTime.isNone && row.errorTime.isNone &&
            row.completeTime.isNone) = true := by
          rcases hr with hr | hr
          · exact absurd hr hlt
          · simpa [ended] using hr
        have hnext : wrapI32 ((n : Int) + 1) = ((n + 1 : Nat) : Int) := wrapI32_of_lt (by omega)
        rw [newAttemptProg_eq hmax hnext, toU32_natCast]
        simp only [Prog.andThen, Prog.stmt, Prog.query, noFaults, Except.map, Prog.lift, Prog.ok,
          Prog.fail, hw, hover, if_true]
        exact ⟨_, _, rfl, rfl⟩
    · rw [hmax] at hl
      cases hl
      refine h.next_free hn _ ?_
      unfold wrapI32
      split_ifs <;> omega

theorem Recorded.newAttempt_made (h : Recorded p) (now : Time) (hn : (p.2 run).length = n + 1)
    {row : AttemptRow} (hrow : p.1.state.db.attempts.get? (run, (n : Int)) = some row)
    (hover : ended row = true) (hlt : n + 1 < 2 ^ 31) :
    p.1.newAttempt now run = (.ok (run, n + 1),
      { state :=
          { db := withAttempt p.1.state.db now run n
            watch := p.1.state.watch.update (run, n + 1) false }
        metadata := p.1.metadata.insert (run, (n : Int) + 1) (p.1.metadataOf (run, (n : Int))) }) := by
  have hmax := h.maxAttempt_eq hn
  obtain ⟨w, hw⟩ := h.readWorkflowRun_eq hn hrow
  have hnext : wrapI32 ((n : Int) + 1) = ((n + 1 : Nat) : Int) := wrapI32_of_lt (by omega)
  have hfree : p.1.state.db.attempts.contains (run, ((n + 1 : Nat) : Int)) = false :=
    h.next_free hn _ (by omega)
  have hlast : p.1.state.db.attempts.contains (run, ((n + 1 : Nat) : Int) - 1) = true := by
    rw [show ((n + 1 : Nat) : Int) - 1 = n by omega, HashMap.contains, hrow]
    rfl
  have hactive : (row.cancelledTime.isNone && row.errorTime.isNone &&
      row.completeTime.isNone) = false := by
    rw [ended, Bool.not_eq_true'] at hover
    exact hover
  have hany : ((Db.rowsAt p.1.state.db.inputs (run, (n : Int), Location.root)).toList.any fun e =>
      (Db.rowsAt p.1.state.db.inputs (run, ((n + 1 : Nat) : Int), Location.root)).contains e.1) =
        false := by
    rw [List.any_eq_false]
    intro e _
    rw [HashMap.contains, h.sound.inputs _ _ _ hfree]
    exact Bool.false_ne_true
  have hclean : Clean (copyInputs run n ((n + 1 : Nat) : Int) Location.root)
      (p.1.state.db.putAttempt run ((n + 1 : Nat) : Int) { startedTime := some now }) ()
      (withAttempt p.1.state.db now run n) 1 := by
    refine Clean.stmt ?_
    unfold withAttempt
    dsimp only [Db.putAttempt]
    by_cases he : (Db.rowsAt p.1.state.db.inputs (run, (n : Int), Location.root)).toList.isEmpty
    · rw [if_pos he, if_pos he]
      rfl
    · rw [if_neg he, if_neg he, if_neg (by rw [hany]; exact Bool.false_ne_true)]
      rfl
  have hcopy : ∀ sent, copyInputs run n ((n + 1 : Nat) : Int) Location.root noFaults
      ⟨p.1.state.db.putAttempt run ((n + 1 : Nat) : Int) { startedTime := some now }, sent⟩ =
        (.ok (), ⟨withAttempt p.1.state.db now run n, sent + 1⟩) :=
    fun sent => (hclean noFaults sent).1 fun _ _ => rfl
  have hprog : ∃ sent, newAttemptProg now run noFaults ⟨p.1.state.db, 0⟩ =
      (.ok (n + 1), ⟨withAttempt p.1.state.db now run n, sent⟩) := by
    rw [newAttemptProg_eq hmax hnext, toU32_natCast]
    simp only [Prog.andThen, Prog.stmt, Prog.query, noFaults, Except.map, Prog.lift, Prog.ok, hw,
      hactive, insertWorkflowRunAttempt, hlast, hfree, if_true, hcopy, Bool.false_eq_true,
      if_false]
    exact ⟨_, rfl⟩
  obtain ⟨sent, hprog⟩ := hprog
  have hst : p.1.state.newAttempt noFaults now run = (.ok (run, n + 1),
      { db := withAttempt p.1.state.db now run n
        watch := p.1.state.watch.update (run, n + 1) false }) := by
    simp [SqliteRuntimeState.newAttempt, SqliteRuntimeState.exec, hprog]
  have hmade : (withAttempt p.1.state.db now run n).attempts.contains
      (run, ((n + 1 : Nat) : Int)) = true := by
    unfold withAttempt
    dsimp only
    split_ifs <;> exact (HashMap.contains_insert _ _ _ _).trans (by simp)
  rw [newAttempt, hst, hmax]
  simp only [hnext, hmade, if_true]
  rw [show ((n + 1 : Nat) : Int) - 1 = n by omega]
  rfl

theorem makes_withAttempt (h : Recorded p) (now : Time) (hn : (p.2 run).length = n + 1)
    {record : AttemptRecord} (hrec : p.2.record? (run, n) = some record) :
    Makes p.1.state.db (withAttempt p.1.state.db now run n) run (n + 1) record := by
  obtain ⟨hroot, hw, -⟩ := h.entry _ _ hrec
  have hfree : ∀ name, (Db.rowsAt p.1.state.db.inputs
      (run, (n : Int) + 1, Location.root)).get? name = none :=
    h.sound.inputs _ _ _ (h.next_free hn _ (by omega))
  unfold withAttempt
  dsimp only [Db.putAttempt]
  split_ifs with he
  · refine ⟨fun key => HashMap.contains_insert _ _ _ _, fun _ _ h => h, hw, fun name => ?_,
      fun _ _ => rfl, rfl⟩
    · rw [← hroot]
      refine (hfree name).trans ?_
      rw [← HashMap.find?_toList, List.isEmpty_iff.1 he]
      rfl
  · refine ⟨fun key => HashMap.contains_insert _ _ _ _, fun _ _ h => h, hw, fun name => ?_,
      fun key hk => ?_, rfl⟩
    · rw [← hroot, Db.rowsAt]
      refine (congrArg (fun rows => HashMap.get? (Option.getD rows ∅) name)
        (HashMap.get?_insert_self _ _ _)).trans ?_
      rw [Option.getD_some, HashMap.get?_extend, hfree, Option.or_none]
    · exact congrArg (Option.getD · ∅) (HashMap.get?_insert_ne _ _ hk)

/-- The run has `n + 1` attempts, of which the last is over and is not the last number. -/
def Continues (p : SqliteWithMetadata × Ledger) (run : Uuid) (n : Nat) : Prop :=
  (p.2 run).length = n + 1 ∧ n + 1 < 2 ^ 31 ∧
    ∃ row, p.1.state.db.attempts.get? (run, (n : Int)) = some row ∧ ended row = true

theorem Recorded.newAttempt_cases (h : Recorded p) (now : Time) (run : Uuid) :
    (∃ n, Continues p run n) ∨ ∃ f, p.1.newAttempt now run = (.error f, p.1) := by
  cases hl : (p.2 run).length with
  | zero => exact .inr (h.newAttempt_refused now (.inl (List.length_eq_zero_iff.1 hl)))
  | succ n =>
    obtain ⟨row, hrow⟩ := h.row (show p.2.has (run, n) by rw [Ledger.has, hl]; exact n.lt_succ_self)
    have hsmall := h.small run
    by_cases hbad : n + 1 = 2 ^ 31 ∨ ended row = false
    · exact .inr (h.newAttempt_refused now (.inr ⟨n, row, hl, hrow, hbad⟩))
    · rw [not_or, Bool.not_eq_false] at hbad
      exact .inl ⟨n, hl, by omega, row, hrow, hbad.2⟩

theorem Recorded.newAttempt (h : Recorded p) (K : Crates) (now : Time) (run : Uuid) :
    Recorded (step K p (.newAttempt now run)) := by
  rcases h.newAttempt_cases now run with ⟨n, hn, hlt, row, hrow, hover⟩ | ⟨f, hf⟩
  · obtain ⟨records, last, hrec, hlast⟩ := Ledger.exists_last hn
    have hmade := h.newAttempt_made now hn hrow hover hlt
    have hmakes := makes_withAttempt h now hn hlast
    rw [← hn] at hmakes
    have hr := h.makes { db := withAttempt p.1.state.db now run n
                         watch := p.1.state.watch.update (run, n + 1) false }
      (p.2.newAttempt run) hmakes (Ledger.record?_newAttempt hrec) (h.uniform.newAttempt hrec)
      fun run' => ?_
    · simp only [step, hmade]
      rw [(h.entry _ _ hlast).2.2]
      rw [hn] at hr
      exact hr
    · unfold Ledger.newAttempt
      by_cases e : run' = run
      · rw [e, Function.update_self, List.length_append]
        have hlen : ((p.2 run).getLast?.toList).length = 1 := by rw [hrec]; simp
        omega
      · rw [Function.update_of_ne e]
        exact h.small run'
  · simp only [step, hf]
    exact h

theorem Recorded.addMetadata (h : Recorded p) (K : Crates) (r : RunAttempt) (metadata : Metadata)
    (hr : p.2.has r) : Recorded (step K p (.addMetadata r metadata)) := by
  have hlt : r.2 < 2 ^ 31 := Nat.lt_of_lt_of_le hr (h.small r.1)
  have hc := (h.attempts r.1 r.2).2 ⟨r.2, rfl, hr⟩
  have hstep : step K p (.addMetadata r metadata) =
      (⟨p.1.state, p.1.metadata.insert (r.1, (r.2 : Int))
        ((p.1.metadataOf (r.1, (r.2 : Int))).extend metadata)⟩, p.2.addMetadata r metadata) := by
    simp only [step, SqliteWithMetadata.addMetadata, toI32, if_pos hlt, hc, if_true]
  have hrecord := fun r' => Ledger.record?_addMetadata (L := p.2) r r' metadata
  rw [hstep]
  refine ⟨fun run i => ?_, fun r' record hr' => ?_, h.uniform.addMetadata _ _, h.sound,
    fun run => ?_⟩
  · refine (h.attempts run i).trans (exists_congr fun a => and_congr_right fun _ => ?_)
    exact iff_of_eq (congrArg (a < ·) (Ledger.length_addMetadata r metadata run).symm)
  · obtain ⟨old, hold, rfl⟩ := Option.map_eq_some_iff.1 ((hrecord r').symm.trans hr')
    obtain ⟨hi, hw, hm⟩ := h.entry r' old hold
    change _ ∧ _ ∧ ((p.1.metadata.insert (r.1, (r.2 : Int)) _).get? _).getD ∅ = _
    rw [HashMap.get?_insert]
    by_cases e : r' = r
    · subst e
      rw [if_pos rfl, if_pos rfl]
      exact ⟨hi, hw, by rw [← hm]; rfl⟩
    · have hne : (r'.1, (r'.2 : Int)) ≠ (r.1, (r.2 : Int)) := fun he =>
        e (Prod.ext (Prod.mk.inj he).1 (Int.natCast_inj.1 (Prod.mk.inj he).2))
      rw [if_neg hne, if_neg e]
      exact ⟨hi, hw, hm⟩
  · exact (Ledger.length_addMetadata r metadata run).trans_le (h.small run)

/-- Every call keeps the database and the ledger together. -/
theorem Recorded.step (h : Recorded p) (K : Crates) {c : HistoryCall} (ha : Allowed p c) :
    Recorded (step K p c) := by
  obtain ⟨hn, ha⟩ := ha
  have hexec : ∀ prog : Program Unit, Keeps (KeepsRoots p.1.state.db) prog →
      KeepsRoots p.1.state.db (prog noFaults ⟨p.1.state.db, 0⟩).2.db :=
    fun prog hk => hk _ _ (.refl h.sound)
  cases c with
  | newRun now runId workflowId inputs metadata => exact h.newRun ha K
  | load r => exact h
  | newAttempt now runId => exact h.newAttempt K now runId
  | addMetadata r metadata => exact h.addMetadata K r metadata ha
  | write r now event =>
    refine h.keepsRoots ?_
    rw [SqliteRuntimeState.db_write]
    refine hexec _ (keepsRoots_writeProg K now r.2 fun events he => ?_)
    subst he
    exact hn
  | unpause r now locations =>
    refine h.keepsRoots ?_
    rw [SqliteRuntimeState.db_unpause]
    exact hexec _ (keepsRoots_unpauseProg now r.2 hn)
  | copyNodeStates target source f =>
    refine h.keepsRoots (hexec _ ?_)
    refine keepsRoots_getConn.andThen fun _ => (Keeps.lift _).andThen fun i => ?_
    have hlt : target.2 < 2 ^ 31 := Nat.lt_of_lt_of_le ha (h.small target.1)
    rw [toI32, if_pos hlt]
    exact keepsRoots_copyNodeStatesProg K f ((h.attempts _ _).2 ⟨_, rfl, ha⟩)

end NewAttempt

end SqliteWithMetadata

end Tierkreis
