import Tierkreis.State.Agree
import Tierkreis.Lib.Run

/-!
# Both stores, call by call

The same calls go to an attempt of both stores. As long as every call is one
that both fold alike, the two hold agreeing nodes and timings, and every read
of one returns what the same read of the other does.
-/

namespace Tierkreis

open Lib Lib.Run Sql

/-! ## A batch -/

/-- The nodes of an attempt in memory, and its node rows and outputs in the database. -/
structure NodesAgree (K : Crates) (run : Uuid) (attempt : Int) (nodes : HashMap Location NodeState)
    (states : HashMap NodeKey NodeRow) (outputs : HashMap NodeKey (HashMap String AssetRow)) :
    Prop where
  known : ∀ loc, (states.get? (run, attempt, loc)).isSome = (nodes.get? loc).isSome
  row : ∀ loc, RowAgrees K ((nodes.get? loc).getD {}) ((states.get? (run, attempt, loc)).getD {})
    (Db.rowsAt outputs (run, attempt, loc))

namespace Sql

/-- The row of a node after an update whose map bits are merged into `bits`. -/
def upsertMerged (bits : Option (List Byte)) (table : HashMap NodeKey NodeRow) (key : NodeKey)
    (row : NodeRow) : HashMap NodeKey NodeRow :=
  upsertRow table key (row.mergeBits bits)

def addEventOutputs (run : Uuid) (attempt : Int)
    (table : HashMap NodeKey (HashMap String AssetRow)) (e : NodeEvent) :
    HashMap NodeKey (HashMap String AssetRow) :=
  (eventOutputs e).foldl (fun t o => addOutputRow t (run, attempt, o.location) o.name o.row) table

theorem rowsAt_addOutputRow (table : HashMap NodeKey (HashMap String AssetRow)) (key key' : NodeKey)
    (o : String × AssetSpec) :
    Db.rowsAt (addOutputRow table key o.1 (.ofSpec o.2)) key' =
      if key' = key then addRow (Db.rowsAt table key) o else Db.rowsAt table key' := by
  unfold addOutputRow addRow
  by_cases hk : key' = key
  · subst hk
    rw [if_pos rfl]
    split_ifs <;> simp [Db.rowsAt]
  · rw [if_neg hk]
    split_ifs
    · rfl
    · simp [Db.rowsAt, HashMap.get?_insert, hk]

theorem rowsAt_addEventOutputs {run : Uuid} {attempt : Int} {e : NodeEvent} {loc : Location}
    (table : HashMap NodeKey (HashMap String AssetRow)) :
    Db.rowsAt (addEventOutputs run attempt table e) (run, attempt, loc) =
      if loc = e.loc then addOutputs (Db.rowsAt table (run, attempt, loc)) e
      else Db.rowsAt table (run, attempt, loc) := by
  unfold addEventOutputs eventOutputs addOutputs
  cases e.status with
  | complete outputs =>
    simp only [List.foldl_map]
    generalize outputs.toList = l
    induction l generalizing table with
    | nil => simp
    | cons o l ih =>
      rw [List.foldl_cons, ih, rowsAt_addOutputRow]
      by_cases h : loc = e.loc <;> simp [h]
  | _ => simp

theorem applyBatch_tables (run : Uuid) (attempt : Int) (updates : List NodeUpdate)
    (events : List NodeEvent) (db : Db) :
    db.applyBatch run attempt updates (events.flatMap eventOutputs) =
      { db with
        nodeStates := updates.foldl (fun t u =>
          upsertMerged (storedBits db.nodeStates (run, attempt, u.1)) t (run, attempt, u.1) u.2)
          db.nodeStates
        nodeOutputs := events.foldl (addEventOutputs run attempt) db.nodeOutputs } := by
  have hu : ∀ (us : List NodeUpdate) (d : Db),
      us.foldl (fun db u => db.upsert run attempt u) d = { d with
        nodeStates := us.foldl (fun t u => upsertRow t (run, attempt, u.1) u.2) d.nodeStates } := by
    intro us
    induction us with
    | nil => exact fun _ => rfl
    | cons u us ih => exact fun d => by rw [List.foldl_cons, ih]; rfl
  have ho : ∀ (os : List NewOutput) (d : Db),
      os.foldl (fun db o => db.addOutput run attempt o) d = { d with
        nodeOutputs := os.foldl
          (fun t o => addOutputRow t (run, attempt, o.location) o.name o.row) d.nodeOutputs } := by
    intro os
    induction os with
    | nil => exact fun _ => rfl
    | cons o os ih => exact fun d => by rw [List.foldl_cons, ih]; rfl
  unfold Db.applyBatch
  rw [hu, ho, List.foldl_map, List.foldl_flatMap]
  rfl

end Sql

/-- Whether an event carries map bits, which the database merges with those from before
the batch. -/
def setsMapBits (e : NodeEvent) : Bool :=
  match e.status with
  | .running (some (.mapStarted _)) | .running (some (.mapElemComplete _)) => true
  | _ => false

theorem eventColumns_mapCompleted {K : Crates} {now : Time} {e : NodeEvent} {new : NodeRow}
    (h : eventColumns K now e = .ok new) (hb : setsMapBits e = false) : new.mapCompleted = none := by
  obtain ⟨loc, name, status⟩ := e
  cases status with
  | running stateUpdate =>
    cases stateUpdate with
    | none => cases h; rfl
    | some u =>
      cases u with
      | looping index inputs =>
        simp only [eventColumns] at h
        cases hi : toI32 index with
        | error f => simp [hi, Except.map] at h
        | ok i =>
          rw [hi] at h
          cases h
          rfl
      | mapStarted inputSets => cases hb
      | mapElemComplete bits => cases hb
      | _ => cases h; rfl
  | _ => cases h; rfl

/-- A batch that both stores fold alike: each event is one of these at its turn, and no
node gets map bits twice. -/
def BatchAgrees (K : Crates) (now : Time) (run : RunAttemptState) (events : List NodeEvent) :
    Prop :=
  Along (RunAttemptState.handleNodeEvent now)
    (fun run e => EventAgrees K (run.nodes.contains e.loc) (run.read e.loc) e) run events ∧
  ((events.filter setsMapBits).map NodeEvent.loc).Nodup

section Batch

variable {K : Crates} {run : Uuid} {attempt : Int} {states : HashMap NodeKey NodeRow}
  {outputs : HashMap NodeKey (HashMap String AssetRow)} {now now' : Time}

theorem NodesAgree.event {a : RunAttemptState} {e : NodeEvent} {new : NodeRow}
    (h : NodesAgree K run attempt a.nodes states outputs)
    (ha : EventAgrees K (a.nodes.contains e.loc) (a.read e.loc) e)
    (hn : eventColumns K now' e = .ok new) :
    NodesAgree K run attempt (a.handleNodeEvent now e).nodes
      (upsertMerged (storedBits states (run, attempt, e.loc)) states (run, attempt, e.loc) new)
      (addEventOutputs run attempt outputs e) := by
  have hnodes : (a.handleNodeEvent now e).nodes =
      a.nodes.insert e.loc (InMemory.foldNodeEvent now (a.read e.loc) e).1 := rfl
  constructor
  · intro loc
    rw [hnodes, upsertMerged, upsertRow, HashMap.get?_insert, HashMap.get?_insert]
    by_cases hl : loc = e.loc
    · simp [hl]
    · simpa [hl] using h.known loc
  · intro loc
    rw [hnodes, rowsAt_addEventOutputs, upsertMerged, upsertRow, HashMap.get?_insert,
      HashMap.get?_insert]
    by_cases hl : loc = e.loc
    · subst hl
      rw [HashMap.contains, ← h.known] at ha
      have := (h.row e.loc).event now ha hn
      simpa [RunAttemptState.read, storedBits] using this
    · simpa [hl] using h.row loc

/-- Events without map bits leave the stored ones. -/
theorem storedBits_upsertMerged {bits : Option (List Byte)} {key key' : NodeKey} {new : NodeRow}
    (h : key' = key → new.mapCompleted = none) :
    storedBits (upsertMerged bits states key new) key' = storedBits states key' := by
  unfold storedBits upsertMerged upsertRow
  by_cases hk : key' = key
  · subst hk
    have hm : (new.mergeBits bits) = new := by
      unfold NodeRow.mergeBits
      rw [h rfl]
    rw [HashMap.get?_insert_self, hm]
    cases states.get? key' <;> simp [NodeRow.upsert, NodeRow.onConflict, h rfl]
  · rw [HashMap.get?_insert_ne _ _ hk]

theorem NodesAgree.batch {pre : HashMap NodeKey NodeRow} {events : List NodeEvent}
    {updates : List NodeUpdate}
    (hu : List.Forall₂ (fun e u => eventRow K now' e = .ok u) events updates) :
    ∀ {a : RunAttemptState} {states : HashMap NodeKey NodeRow}
      {outputs : HashMap NodeKey (HashMap String AssetRow)},
      NodesAgree K run attempt a.nodes states outputs → BatchAgrees K now a events →
      (∀ e ∈ events, setsMapBits e = true →
        storedBits states (run, attempt, e.loc) = storedBits pre (run, attempt, e.loc)) →
      NodesAgree K run attempt (a.handleNodeEvents now events).nodes
        (updates.foldl (fun t u =>
          upsertMerged (storedBits pre (run, attempt, u.1)) t (run, attempt, u.1) u.2) states)
        (events.foldl (addEventOutputs run attempt) outputs) := by
  induction hu with
  | nil => exact fun h _ _ => h
  | @cons e u events updates heu _ ih =>
    rintro a states outputs h ⟨⟨he, hes⟩, hnd⟩ hpre
    obtain ⟨new, hn, rfl⟩ : ∃ new, eventColumns K now' e = .ok new ∧ u = (e.loc, new) := by
      unfold eventRow at heu
      cases hc : eventColumns K now' e with
      | error f => simp [hc, Except.map] at heu
      | ok new =>
        rw [hc] at heu
        cases heu
        exact ⟨new, rfl, rfl⟩
    -- only an event with map bits looks at the stored ones
    have hmerge : upsertMerged (storedBits pre (run, attempt, e.loc)) states (run, attempt, e.loc)
        new = upsertMerged (storedBits states (run, attempt, e.loc)) states (run, attempt, e.loc)
        new := by
      cases hb : setsMapBits e with
      | true => rw [hpre e (.head _) hb]
      | false =>
        unfold upsertMerged NodeRow.mergeBits
        rw [eventColumns_mapCompleted hn hb]
    simp only [List.foldl_cons, hmerge]
    have hnd' : ((events.filter setsMapBits).map NodeEvent.loc).Nodup :=
      hnd.sublist (((List.sublist_cons_self _ _).filter _).map _)
    refine ih (h.event he hn) ⟨hes, hnd'⟩ fun e' he' hb' => ?_
    rw [storedBits_upsertMerged, hpre e' (.tail _ he') hb']
    intro hk
    cases hb : setsMapBits e with
    | false => exact eventColumns_mapCompleted hn hb
    | true =>
      rw [List.filter_cons_of_pos hb, List.map_cons, List.nodup_cons] at hnd
      refine absurd (List.mem_map.2 ⟨e', List.mem_filter.2 ⟨he', hb'⟩, ?_⟩) hnd.1
      exact (Prod.mk.inj (Prod.mk.inj hk).2).2

end Batch

/-! ## Unpausing -/

section Unpause

variable {K : Crates} {run : Uuid} {attempt : Int} {now now' : Time}

/-- Both stores unpause a node that has had no event, or that is unpaused already. -/
def UnpauseAgrees (a : RunAttemptState) (locations : List Location) : Prop :=
  ∀ loc ∈ locations, a.nodes.get? loc = none ∨ (a.read loc).unpausedTime ≠ none

theorem RowAgrees.unpause {old : Option NodeState} {row : Option NodeRow}
    {rows : HashMap String AssetRow} (h : RowAgrees K (old.getD {}) (row.getD {}) rows)
    (hk : row.isSome = old.isSome) (hs : old = none ∨ (old.getD {}).unpausedTime ≠ none) :
    RowAgrees K { old.getD {} with unpausedTime := some now }
      (NodeRow.upsert row { unpausedTime := some now' }) rows := by
  cases row with
  | none =>
    cases old with
    | none => exact { h with unpausedTime := rfl }
    | some s => simp at hk
  | some row =>
    have hu := hs.resolve_left (by rintro rfl; simp at hk)
    have hrow : NodeRow.upsert (some row) { unpausedTime := some now' } = row := by
      simp [NodeRow.upsert, NodeRow.onConflict]
    rw [hrow]
    exact { h with
      unpausedTime := by
        rw [Option.isSome_some, show row.unpausedTime.isSome = _ from h.unpausedTime]
        exact Option.isSome_iff_ne_none.2 hu }

theorem NodesAgree.unpause {outputs : HashMap NodeKey (HashMap String AssetRow)}
    {locations : List Location} :
    ∀ {a : RunAttemptState} {states : HashMap NodeKey NodeRow},
      NodesAgree K run attempt a.nodes states outputs → UnpauseAgrees a locations →
      NodesAgree K run attempt (a.unpause now locations).nodes
        ((locations.map fun loc => ((loc, { unpausedTime := some now' }) : NodeUpdate)).foldl
          (fun t u => upsertRow t (run, attempt, u.1) u.2) states) outputs := by
  induction locations with
  | nil => exact fun h _ => h
  | cons l locations ih =>
    intro a states h hs
    rw [RunAttemptState.unpause, List.foldl_cons, ← RunAttemptState.unpause, List.map_cons,
      List.foldl_cons]
    refine ih ⟨fun loc => ?_, fun loc => ?_⟩ fun loc hloc => ?_
    · rw [upsertRow, HashMap.get?_insert, HashMap.get?_insert]
      by_cases hl : loc = l
      · simp [hl]
      · simpa [hl] using h.known loc
    · rw [upsertRow, HashMap.get?_insert, HashMap.get?_insert]
      by_cases hl : loc = l
      · subst hl
        simpa [RunAttemptState.read] using (h.row loc).unpause (h.known loc) (hs loc (.head _))
      · simpa [hl] using h.row loc
    · by_cases hl : loc = l
      · exact .inr (by simp [RunAttemptState.read, hl])
      · simpa [RunAttemptState.read, HashMap.get?_insert, hl] using hs loc (.tail _ hloc)

end Unpause

/-! ## Calls -/

/-- A call of an attempt of both stores, with the time at which each takes it. -/
inductive StoreCall where
  | write (now now' : Time) (event : WorkflowRunEvent)
  | unpause (now now' : Time) (locations : List Location)

/-- The same attempt in both stores. -/
structure StoresAgree (K : Crates) (r : RunAttempt) (attempt : Int) (m : InMemoryRuntimeState)
    (s : SqliteRuntimeState) : Prop where
  toI32 : toI32 r.2 = .ok attempt
  entry : m.runs.get? r = some (m.run r)
  row : ∃ row, s.db.attempts.get? (r.1, attempt) = some row ∧
    row.startedTime.isSome = (m.run r).startedTime.isSome ∧
    row.queuedTime.isSome = (m.run r).queuedTime.isSome ∧
    row.completeTime.isSome = (m.run r).completeTime.isSome ∧
    row.cancelledTime.isSome = (m.run r).cancelledTime.isSome ∧
    row.errorTime.isSome = (m.run r).errorTime.isSome
  workflow : s.db.workflowRuns.get? r.1 = some (m.run r).workflowId
  workflowName : (s.db.workflowNames.get? (m.run r).workflowId).bind id =
    (m.workflows.get? (m.run r).workflowId).bind Prod.fst
  nodes : NodesAgree K r.1 attempt (m.run r).nodes s.db.nodeStates s.db.nodeOutputs

namespace StoreCall

variable (K : Crates) (r : RunAttempt)

def apply (p : InMemoryRuntimeState × SqliteRuntimeState) :
    StoreCall → InMemoryRuntimeState × SqliteRuntimeState
  | .write now now' event =>
    (p.1.write r now event, (p.2.write K r SqliteRuntimeState.noFaults now' event).2)
  | .unpause now now' locations =>
    (p.1.unpause r now locations, (p.2.unpause r SqliteRuntimeState.noFaults now' locations).2)

/-- A call that both stores fold alike. The database also takes the input rows of a batch
only when they are new. -/
def Agrees (attempt : Int) (p : InMemoryRuntimeState × SqliteRuntimeState) : StoreCall → Prop
  | .write now _ (.nodeEvents events) =>
    BatchAgrees K now (p.1.run r) events ∧
      Storable p.2.db r.1 attempt (events.flatMap eventInputs)
  | .write _ _ _ => True
  | .unpause _ _ locations => UnpauseAgrees (p.1.run r) locations

end StoreCall

namespace SqliteRuntimeState

theorem unpause_eq_ok {st : SqliteRuntimeState} {r : RunAttempt} {now : Time} {attempt : Int}
    {locations : List Location} (ha : toI32 r.2 = .ok attempt)
    (hc : st.db.attempts.contains (r.1, attempt) = true) :
    st.unpause r noFaults now locations = (.ok (),
      { db := { st.db with
          nodeStates := (locations.map fun loc =>
            ((loc, { unpausedTime := some now }) : NodeUpdate)).foldl
            (fun t u => upsertRow t (r.1, attempt, u.1) u.2) st.db.nodeStates }
        watch := if locations = [] then st.watch else st.watch.update r false }) := by
  have hclean : Lib.Txn.Clean (unpauseProg now r.1 r.2 locations) st.db ()
      (st.db.applyBatch r.1 attempt
        (locations.map fun loc => ((loc, { unpausedTime := some now }) : NodeUpdate)) []) _ :=
    (Lib.Txn.Clean.stmt rfl).andThen
      (((ha ▸ Lib.Txn.Clean.ok attempt st.db :
          Lib.Txn.Clean (Lib.Txn.Prog.lift (toI32 r.2)) st.db attempt st.db 0)).andThen
        ((clean_updateNodeState hc (fun o ho => by cases ho)).mapError _))
  have htables := applyBatch_tables r.1 attempt
    (locations.map fun loc => ((loc, { unpausedTime := some now }) : NodeUpdate)) [] st.db
  rw [List.flatMap_nil] at htables
  unfold unpause exec
  rw [(hclean noFaults 0).1 fun _ _ => rfl, htables]
  simp only [List.foldl_map, List.foldl_nil]
  split_ifs <;> rfl

end SqliteRuntimeState

section Calls

variable {K : Crates} {r : RunAttempt} {attempt : Int}

theorem BatchAgrees.eventRows {now : Time} (now' : Time) {events : List NodeEvent} :
    ∀ {a : RunAttemptState}, BatchAgrees K now a events →
      ∃ updates, events.mapM (eventRow K now') = .ok updates := by
  induction events with
  | nil => exact fun _ => ⟨[], rfl⟩
  | cons e events ih =>
    rintro a ⟨⟨he, hes⟩, hnd⟩
    obtain ⟨updates, hu⟩ :=
      ih ⟨hes, hnd.sublist (((List.sublist_cons_self _ _).filter _).map _)⟩
    obtain ⟨new, hn⟩ := he.eventColumns now'
    refine ⟨(e.loc, new) :: updates, ?_⟩
    rw [List.mapM_cons, hu, eventRow, hn]
    rfl

theorem StoresAgree.nodeEvents {m : InMemoryRuntimeState} {s : SqliteRuntimeState}
    {events : List NodeEvent} {now now' : Time} (h : StoresAgree K r attempt m s)
    (hb : BatchAgrees K now (m.run r) events)
    (hs : Storable s.db r.1 attempt (events.flatMap eventInputs)) :
    StoresAgree K r attempt (m.write r now (.nodeEvents events))
      (s.write K r SqliteRuntimeState.noFaults now' (.nodeEvents events)).2 := by
  obtain ⟨row, hrow, htimes⟩ := h.row
  have hc : s.db.attempts.contains (r.1, attempt) = true := by rw [HashMap.contains, hrow]; rfl
  obtain ⟨updates, hu⟩ := hb.eventRows now'
  rw [(SqliteRuntimeState.write_nodeEvents_eq_ok h.toI32 hc).2 ⟨updates, hu, hs, rfl⟩]
  have hbatch := h.nodes.batch (mapM_eq_ok hu) hb fun _ _ _ => rfl
  have hrun : (m.write r now (.nodeEvents events)).run r = (m.run r).handleNodeEvents now events :=
    m.run_write r now _
  rw [addInputs_frame, applyBatch_tables]
  constructor
  · exact h.toI32
  · simp [InMemoryRuntimeState.write, InMemoryRuntimeState.run]
  · rw [hrun, RunAttemptState.handleNodeEvents_frame]
    exact ⟨row, hrow, htimes⟩
  · rw [hrun, RunAttemptState.handleNodeEvents_frame]
    exact h.workflow
  · rw [hrun, RunAttemptState.handleNodeEvents_frame]
    exact h.workflowName
  · rw [hrun]
    exact hbatch

theorem StoresAgree.workflowEvent {m : InMemoryRuntimeState} {s : SqliteRuntimeState}
    {e : WorkflowRunEvent} {now now' : Time} (h : StoresAgree K r attempt m s)
    (he : ∀ events, e ≠ .nodeEvents events) :
    StoresAgree K r attempt (m.write r now e)
      (s.write K r SqliteRuntimeState.noFaults now' e).2 := by
  obtain ⟨row, hrow, hst, hq, hco, hca, her⟩ := h.row
  rw [SqliteRuntimeState.write_workflowEvent h.toI32 hrow he]
  have hrun : (m.write r now e).run r = (m.run r).writeEvent now e := m.run_write r now e
  have hframe : ((m.run r).writeEvent now e).nodes = (m.run r).nodes ∧
      ((m.run r).writeEvent now e).workflowId = (m.run r).workflowId := by
    cases e with
    | nodeEvents events => exact absurd rfl (he events)
    | _ => exact ⟨rfl, rfl⟩
  constructor
  · exact h.toI32
  · simp [InMemoryRuntimeState.write, InMemoryRuntimeState.run]
  · rw [hrun]
    refine ⟨row.coalesce (workflowUpdate now' e).1, HashMap.get?_insert_self _ _ _, ?_⟩
    cases e with
    | nodeEvents events => exact absurd rfl (he events)
    | _ =>
      simp [RunAttemptState.writeEvent, AttemptRow.coalesce, workflowUpdate, InMemory.setOnce, hst,
        hq, hco, hca, her]
  · rw [hrun, hframe.2]
    exact h.workflow
  · rw [hrun, hframe.2]
    exact h.workflowName
  · rw [hrun, hframe.1]
    exact h.nodes

theorem StoresAgree.unpause {m : InMemoryRuntimeState} {s : SqliteRuntimeState}
    {locations : List Location} {now now' : Time} (h : StoresAgree K r attempt m s)
    (hu : UnpauseAgrees (m.run r) locations) :
    StoresAgree K r attempt (m.unpause r now locations)
      (s.unpause r SqliteRuntimeState.noFaults now' locations).2 := by
  obtain ⟨row, hrow, htimes⟩ := h.row
  rw [SqliteRuntimeState.unpause_eq_ok h.toI32 (by rw [HashMap.contains, hrow]; rfl)]
  have hrun : (m.unpause r now locations).run r = (m.run r).unpause now locations :=
    m.run_unpause r now locations
  constructor
  · exact h.toI32
  · simp [InMemoryRuntimeState.unpause, InMemoryRuntimeState.run]
  · rw [hrun, RunAttemptState.unpause_frame]
    exact ⟨row, hrow, htimes⟩
  · rw [hrun, RunAttemptState.unpause_frame]
    exact h.workflow
  · rw [hrun, RunAttemptState.unpause_frame]
    exact h.workflowName
  · rw [hrun]
    exact h.nodes.unpause hu

/-- A call that both stores fold alike leaves them agreeing. -/
theorem StoresAgree.apply {p : InMemoryRuntimeState × SqliteRuntimeState} {c : StoreCall}
    (h : StoresAgree K r attempt p.1 p.2) (hc : c.Agrees K r attempt p) :
    StoresAgree K r attempt (c.apply K r p).1 (c.apply K r p).2 := by
  cases c with
  | unpause now now' locations => exact h.unpause hc
  | write now now' event =>
    cases event with
    | nodeEvents events => exact h.nodeEvents hc.1 hc.2
    | _ => exact h.workflowEvent fun _ he => by cases he

end Calls

/-! ## Reads -/

/-- Summaries up to the values of times and the order of locations. -/
structure WorkflowRunStateSummary.Same (a b : WorkflowRunStateSummary) : Prop where
  runId : b.runId = a.runId
  attempt : b.attempt = a.attempt
  workflowId : b.workflowId = a.workflowId
  name : b.name = a.name
  startedTime : b.startedTime.isSome = a.startedTime.isSome
  queuedTime : b.queuedTime.isSome = a.queuedTime.isSome
  completeTime : b.completeTime.isSome = a.completeTime.isSome
  cancelledTime : b.cancelledTime.isSome = a.cancelledTime.isSome
  errorTime : b.errorTime.isSome = a.errorTime.isSome
  pausedLocations : b.pausedLocations.Perm a.pausedLocations
  erroredLocations : b.erroredLocations.Perm a.erroredLocations

/-- Every read of an attempt gives the same from both stores. A node without an entry
counts as one with the default state. -/
structure ReadsAgree (K : Crates) (r : RunAttempt) (m : InMemoryRuntimeState)
    (s : SqliteRuntimeState) : Prop where
  read : ∀ loc, ∃ a b, m.read r loc = .ok a ∧ s.read K r loc = .ok b ∧ a.Same b
  readMany : ∀ locations, ∃ a b, m.readMany r locations = .ok a ∧
    s.readMany K r locations = .ok b ∧
    ∀ loc, ((a.get? loc).getD {}).Same ((b.get? loc).getD {})
  readByName : ∀ name, ∃ a b, m.readByName r name = .ok a ∧ s.readByName K r name = .ok b ∧
    ∀ loc, Option.Rel NodeState.Same (a.get? loc) (b.get? loc)
  summary : ∃ a b, m.summary r = .ok a ∧ s.summary r = .ok b ∧ a.Same b

section Reads

variable {K : Crates} {r : RunAttempt} {attempt : Int} {m : InMemoryRuntimeState}
  {s : SqliteRuntimeState}

theorem NodeState.Same.refl (s : NodeState) : s.Same s := by
  constructor <;> simp

/-- The state of one node, as each store reads it. -/
theorem NodesAgree.read {run : Uuid} {nodes : HashMap Location NodeState} {db : Db}
    (h : NodesAgree K run attempt nodes db.nodeStates db.nodeOutputs) (loc : Location) :
    ∃ b, readNodeState K db run attempt loc = .ok b ∧ ((nodes.get? loc).getD {}).Same b := by
  unfold readNodeState
  have hk := h.known loc
  have hr := h.row loc
  cases hrow : db.nodeStates.get? (run, attempt, loc) with
  | none =>
    rw [hrow] at hk
    have hnone : nodes.get? loc = none := by simpa using hk.symm
    rw [hnone]
    exact ⟨{}, rfl, .refl _⟩
  | some row =>
    rw [hrow] at hr
    exact hr.toNodeState

/-- Rows that can all be read are read one by one. -/
theorem readRows_eq_ok {db : Db} {run : Uuid} {state : Location → NodeState}
    (h : ∀ loc, readNodeState K db run attempt loc = .ok (state loc)) :
    ∀ locations : List Location, ∃ b, readRows K db run attempt locations = .ok b ∧
      ∀ loc, b.get? loc = if loc ∈ locations then some (state loc) else none
  | [] => ⟨∅, rfl, fun _ => rfl⟩
  | l :: locations => by
    obtain ⟨b, hb, hg⟩ := readRows_eq_ok h locations
    refine ⟨b.insert l (state l), by rw [readRows, h, hb]; rfl, fun loc => ?_⟩
    rw [HashMap.get?_insert, hg]
    by_cases hl : loc = l <;> simp [hl]

theorem nodup_locationsWhere {db : Db} {run : Uuid} {p : NodeRow → Bool} :
    (locationsWhere db run attempt p).Nodup := by
  unfold locationsWhere
  have hn := db.nodeStates.nodup_toList
  refine List.Nodup.map_on ?_ ((List.Nodup.of_map _ hn).filter _)
  rintro ⟨⟨x, y, z⟩, row⟩ hx ⟨⟨x', y', z'⟩, row'⟩ hy hz
  simp only [List.mem_filter, Bool.and_eq_true, beq_iff_eq] at hx hy
  obtain ⟨hx, ⟨rfl, rfl⟩, -⟩ := hx
  obtain ⟨hy, ⟨rfl, rfl⟩, -⟩ := hy
  cases hz
  exact List.inj_on_of_nodup_map hn hx hy rfl

/-- The locations of a summary: nodes that pass `p` in memory, rows that pass `q`. -/
theorem NodesAgree.locations {run : Uuid} {nodes : HashMap Location NodeState} {db : Db}
    (h : NodesAgree K run attempt nodes db.nodeStates db.nodeOutputs) {p : NodeState → Bool}
    {q : NodeRow → Bool} (hpq : ∀ {s row rows}, RowAgrees K s row rows → q row = p s) :
    (locationsWhere db run attempt q).Perm
      ((nodes.toList.filter fun e => p e.2).map Prod.fst) := by
  refine (List.perm_ext_iff_of_nodup nodup_locationsWhere ?_).2 fun loc => ?_
  · exact (List.filter_sublist.map _).nodup nodes.nodup_toList
  · rw [mem_locationsWhere]
    simp only [List.mem_map, List.mem_filter, Prod.exists, exists_and_right, exists_eq_right,
      ← HashMap.get?_eq_some_iff]
    have hk := h.known loc
    have hr := h.row loc
    constructor
    · rintro ⟨row, hrow, hp⟩
      rw [hrow] at hk hr
      obtain ⟨t, ht⟩ := Option.isSome_iff_exists.1 hk.symm
      rw [ht] at hr
      exact ⟨t, ht, hpq hr ▸ hp⟩
    · rintro ⟨t, ht, hp⟩
      rw [ht] at hk hr
      obtain ⟨row, hrow⟩ := Option.isSome_iff_exists.1 hk
      rw [hrow] at hr
      exact ⟨row, hrow, (hpq hr).trans hp⟩

theorem StoresAgree.reads (h : StoresAgree K r attempt m s) : ReadsAgree K r m s := by
  have hget : m.getRunState r = .ok (m.run r) := by
    rw [InMemoryRuntimeState.getRunState, h.entry]
    rfl
  choose state hstate hsame using h.nodes.read
  constructor
  · refine fun loc => ⟨(m.run r).read loc, state loc, ?_, ?_, hsame loc⟩
    · rw [InMemoryRuntimeState.read, hget]
      rfl
    · rw [SqliteRuntimeState.read, h.toI32]
      exact hstate loc
  · intro locations
    obtain ⟨b, hb, hg⟩ := readRows_eq_ok hstate
      ((locationsWhere s.db r.1 attempt fun _ => true).filter fun loc => loc ∈ locations)
    refine ⟨(m.run r).readMany locations, b, ?_, ?_, fun loc => ?_⟩
    · rw [InMemoryRuntimeState.readMany, hget]
      rfl
    · rw [SqliteRuntimeState.readMany, h.toI32]
      exact hb
    · have hmany : ((m.run r).readMany locations).get? loc = _ :=
        HashMap.get?_ofList_map (m.run r).read locations loc
      simp only [hmany, hg, List.mem_filter, mem_locationsWhere]
      by_cases hl : loc ∈ locations
      · cases hrow : s.db.nodeStates.get? (r.1, attempt, loc) with
        | some row =>
          have hs : ((m.run r).read loc).Same (state loc) := hsame loc
          simpa [hl] using hs
        | none =>
          have hk := h.nodes.known loc
          rw [hrow] at hk
          have hnone : (m.run r).nodes.get? loc = none := by simpa using hk.symm
          simpa [hl, RunAttemptState.read, hnone] using NodeState.Same.refl {}
      · simpa [hl] using NodeState.Same.refl {}
  · intro name
    obtain ⟨b, hb, hg⟩ := readRows_eq_ok hstate
      (locationsWhere s.db r.1 attempt fun row => row.name == some name)
    refine ⟨(m.run r).readByName name, b, ?_, ?_, fun loc => ?_⟩
    · rw [InMemoryRuntimeState.readByName, hget]
      rfl
    · rw [SqliteRuntimeState.readByName, h.toI32]
      exact hb
    · have hname : ((m.run r).readByName name).get? loc = _ := HashMap.get?_filterMap _ _ _
      simp only [hname, hg, mem_locationsWhere]
      have hk := h.nodes.known loc
      have hr := h.nodes.row loc
      have hs := hsame loc
      cases hrow : s.db.nodeStates.get? (r.1, attempt, loc) with
      | none =>
        rw [hrow] at hk
        have hnone : (m.run r).nodes.get? loc = none := by simpa using hk.symm
        rw [hnone]
        exact .none
      | some row =>
        rw [hrow] at hk hr
        obtain ⟨t, ht⟩ := Option.isSome_iff_exists.1 hk.symm
        rw [ht] at hr hs ⊢
        have hn : row.name = t.name := hr.name
        by_cases hname : t.name = some name
        · simpa [hn, hname] using hs
        · simp [hn, hname]
  · obtain ⟨row, hrow, hst, hq, hco, hca, her⟩ := h.row
    refine ⟨m.summaryOf r (m.run r), s.summaryOf r attempt (m.run r).workflowId row, ?_, ?_, ?_⟩
    · rw [InMemoryRuntimeState.summary, h.entry]
      rfl
    · unfold SqliteRuntimeState.summary
      simp only [h.toI32, bind, Except.bind, h.workflow, okOr, hrow]
      rfl
    · exact
        { runId := rfl, attempt := rfl, workflowId := rfl, name := h.workflowName
          startedTime := hst, queuedTime := hq, completeTime := hco, cancelledTime := hca
          errorTime := her
          pausedLocations := h.nodes.locations (p := NodeState.isPaused)
            (q := fun row => row.pausedTime.isSome && row.unpausedTime.isNone) fun hr => by
            simp [NodeState.isPaused, hr.pausedTime, ← Option.not_isSome, hr.unpausedTime]
          erroredLocations :=
            h.nodes.locations (p := fun s => s.errorTime.isSome) fun hr => hr.errorTime }

end Reads

/-! ## Runs -/

/-- An attempt that both stores have just made, of the same workflow. -/
structure FreshAttempt (r : RunAttempt) (attempt : Int) (m : InMemoryRuntimeState)
    (s : SqliteRuntimeState) : Prop where
  toI32 : toI32 r.2 = .ok attempt
  entry : ∃ run, m.runs.get? r = some run ∧ run.nodes = ∅ ∧
    s.db.workflowRuns.get? r.1 = some run.workflowId ∧
    (s.db.workflowNames.get? run.workflowId).bind id =
      (m.workflows.get? run.workflowId).bind Prod.fst ∧
    ∃ row, s.db.attempts.get? (r.1, attempt) = some row ∧
      row.startedTime.isSome = run.startedTime.isSome ∧
      row.queuedTime.isSome = run.queuedTime.isSome ∧
      row.completeTime.isSome = run.completeTime.isSome ∧
      row.cancelledTime.isSome = run.cancelledTime.isSome ∧
      row.errorTime.isSome = run.errorTime.isSome
  nodes : ∀ loc, s.db.nodeStates.get? (r.1, attempt, loc) = none ∧
    s.db.nodeOutputs.get? (r.1, attempt, loc) = none

theorem FreshAttempt.storesAgree {K : Crates} {r : RunAttempt} {attempt : Int}
    {m : InMemoryRuntimeState} {s : SqliteRuntimeState} (h : FreshAttempt r attempt m s) :
    StoresAgree K r attempt m s := by
  obtain ⟨run, hrun, hnodes, hw, hn, hrow⟩ := h.entry
  have hm : m.run r = run := by rw [InMemoryRuntimeState.run, hrun]; rfl
  constructor
  · exact h.toI32
  · rw [hm, hrun]
  · rw [hm]
    exact hrow
  · rw [hm, hw]
  · rw [hm, hn]
  · rw [hm, hnodes]
    constructor
    · intro loc
      rw [(h.nodes loc).1]
      rfl
    · intro loc
      rw [(h.nodes loc).1, Db.rowsAt, (h.nodes loc).2]
      exact .default K

/-- From a fresh attempt, every read returns the same from both stores in each state of a
run whose calls both stores fold alike. -/
theorem stores_agree {K : Crates} {r : RunAttempt} {attempt : Int} {m : InMemoryRuntimeState}
    {s : SqliteRuntimeState} (h : FreshAttempt r attempt m s) {calls : List StoreCall}
    (hc : Along (fun p c => c.apply K r p) (fun p c => c.Agrees K r attempt p) (m, s) calls) :
    ReadsAgree K r (calls.foldl (fun p c => c.apply K r p) (m, s)).1
      (calls.foldl (fun p c => c.apply K r p) (m, s)).2 :=
  (hc.invariant (fun p => StoresAgree K r attempt p.1 p.2) (fun _ _ hp hc => hp.apply hc)
    h.storesAgree).reads

/-- A run that has just begun is fresh in both stores. -/
theorem freshAttempt_startedRun :
    FreshAttempt (0, 0) 0 InMemoryRuntimeState.startedRun SqliteRuntimeState.startedRun :=
  ⟨rfl, ⟨_, rfl, rfl, rfl, rfl, _, rfl, rfl, rfl, rfl, rfl, rfl⟩, fun _ => ⟨rfl, rfl⟩⟩

/-- A task that is scheduled and completes, in a run that completes. -/
def completedTask : List StoreCall :=
  [.write 1 1 (.nodeEvents [⟨[.node 1], some "task", .scheduled none⟩]),
    .write 2 3 (.nodeEvents [⟨[.node 1], none, .complete (.ofList [("out", memorySpec)])⟩]),
    .write 4 4 .completed]

theorem stores_agree_completedTask :
    ReadsAgree .zeroFill (0, 0)
      (completedTask.foldl (fun p c => c.apply .zeroFill (0, 0) p)
        (InMemoryRuntimeState.startedRun, SqliteRuntimeState.startedRun)).1
      (completedTask.foldl (fun p c => c.apply .zeroFill (0, 0) p)
        (InMemoryRuntimeState.startedRun, SqliteRuntimeState.startedRun)).2 := by
  refine stores_agree freshAttempt_startedRun ⟨⟨⟨⟨⟨.inr (.inl rfl), trivial⟩, trivial⟩, ?_⟩, ?_⟩,
    ⟨⟨⟨⟨.inl rfl, ?_⟩, trivial⟩, ?_⟩, ?_⟩, trivial, trivial⟩
  · exact List.nodup_nil
  · exact ⟨fun _ h => (by cases h), List.nodup_nil⟩
  · -- the output reads back as the asset it was written from
    refine StatusAgrees.complete rfl fun port spec hspec => ?_
    rw [HashMap.ofList, List.foldl_cons, List.foldl_nil, HashMap.get?_insert] at hspec
    split_ifs at hspec
    · cases hspec
      rfl
    · cases hspec
  · exact List.nodup_nil
  · exact ⟨fun _ h => (by cases h), List.nodup_nil⟩

/-- A node that is paused and then unpaused: the database keeps it paused. -/
def pausedThenUnpaused : List StoreCall :=
  [.write 1 1 (.nodeEvents [⟨[.node 1], none, .paused⟩]), .unpause 2 2 [[.node 1]]]

theorem stores_not_agree :
    ¬ReadsAgree .zeroFill (0, 0)
      (pausedThenUnpaused.foldl (fun p c => c.apply .zeroFill (0, 0) p)
        (InMemoryRuntimeState.startedRun, SqliteRuntimeState.startedRun)).1
      (pausedThenUnpaused.foldl (fun p c => c.apply .zeroFill (0, 0) p)
        (InMemoryRuntimeState.startedRun, SqliteRuntimeState.startedRun)).2 := by
  intro h
  obtain ⟨a, b, ha, hb, hs⟩ := h.read [.node 1]
  have hu := hs.unpausedTime
  cases ha
  cases hb
  cases hu

end Tierkreis
