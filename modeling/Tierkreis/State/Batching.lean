import Tierkreis.State.Equivalence

/-!
# One batch or two

What a batch of node events leaves behind, next to what its two parts leave
behind when they are written one after the other. In memory a batch is a fold,
so it makes no difference. In the database the map bits of a batch are merged
with those from before the batch, so bits that an earlier event of the batch
has set for the same node are overwritten.
-/

namespace Tierkreis

open Lib Lib.Txn Sql

/-- A node state without the values of its times. -/
def NodeState.untimed (s : NodeState) : NodeState :=
  { s with
    scheduledTime := s.scheduledTime.map fun _ => 0
    queuedTime := s.queuedTime.map fun _ => 0
    pausedTime := s.pausedTime.map fun _ => 0
    unpausedTime := s.unpausedTime.map fun _ => 0
    runningTime := s.runningTime.map fun _ => 0
    completeTime := s.completeTime.map fun _ => 0
    cancelledTime := s.cancelledTime.map fun _ => 0
    errorTime := s.errorTime.map fun _ => 0 }

namespace InMemory

theorem untimed_setOnce (x : Option Time) (now : Time) :
    (setOnce x now).map (fun _ => 0) = setOnce (x.map fun _ => 0) 0 := by
  cases x <;> rfl

theorem untimed_foldStatus (now : Time) (loc : Location) (s : NodeState) (status : NodeStatus) :
    (foldStatus now loc s status).1.untimed = (foldStatus 0 loc s.untimed status).1 := by
  cases status with
  | running stateUpdate =>
    cases stateUpdate with
    | none => simp [foldStatus, NodeState.untimed, untimed_setOnce]
    | some u =>
      cases u with
      | looping index inputs =>
        by_cases h : s.loopIndex = some index <;>
          simp [foldStatus, NodeState.untimed, untimed_setOnce, h]
      | mapElemComplete bits => rfl
      | _ => cases h : s.runningTime <;> simp [foldStatus, NodeState.untimed, h]
  | complete outputs => cases h : s.completeTime <;> simp [foldStatus, NodeState.untimed, h]
  | error error detail => cases h : s.errorTime <;> simp [foldStatus, NodeState.untimed, h]
  | _ => simp [foldStatus, NodeState.untimed, untimed_setOnce]

theorem untimed_foldNodeEvent (now : Time) (s : NodeState) (e : NodeEvent) :
    (foldNodeEvent now s e).1.untimed = (foldNodeEvent 0 s.untimed e).1 := by
  have h : (rename s e.name).untimed = rename s.untimed e.name := by
    unfold rename
    split_ifs <;> rfl
  rw [foldNodeEvent, untimed_foldStatus, h]
  rfl

end InMemory

namespace RunAttemptState

/-- The nodes of two attempts, up to the values of times. -/
def SameNodes (a b : RunAttemptState) : Prop :=
  ∀ loc, (a.nodes.get? loc).map NodeState.untimed = (b.nodes.get? loc).map NodeState.untimed

theorem untimed_read (a : RunAttemptState) (loc : Location) :
    (a.read loc).untimed = ((a.nodes.get? loc).map NodeState.untimed).getD {} := by
  rw [read]
  cases a.nodes.get? loc <;> rfl

theorem SameNodes.handleNodeEvent {a b : RunAttemptState} (h : SameNodes a b) (now now' : Time)
    (e : NodeEvent) : SameNodes (a.handleNodeEvent now e) (b.handleNodeEvent now' e) := by
  intro loc
  simp only [RunAttemptState.handleNodeEvent, nodes_insertInputs, HashMap.get?_insert]
  split_ifs
  · simp only [Option.map_some, InMemory.untimed_foldNodeEvent, untimed_read, h e.loc]
  · exact h loc

theorem SameNodes.handleNodeEvents {events : List NodeEvent} (now now' : Time) :
    ∀ {a b : RunAttemptState}, SameNodes a b →
      SameNodes (a.handleNodeEvents now events) (b.handleNodeEvents now' events) := by
  induction events with
  | nil => exact fun h => h
  | cons e events ih => exact fun h => ih (h.handleNodeEvent now now' e)

/-- In memory a batch may be cut anywhere. -/
theorem sameNodes_append (a : RunAttemptState) (t t₁ t₂ : Time) (e₁ e₂ : List NodeEvent) :
    SameNodes (a.handleNodeEvents t (e₁ ++ e₂))
      ((a.handleNodeEvents t₁ e₁).handleNodeEvents t₂ e₂) := by
  have hsplit : a.handleNodeEvents t (e₁ ++ e₂) =
      (a.handleNodeEvents t e₁).handleNodeEvents t e₂ := List.foldl_append
  rw [hsplit]
  have hfirst : SameNodes (a.handleNodeEvents t e₁) (a.handleNodeEvents t₁ e₁) :=
    SameNodes.handleNodeEvents t t₁ fun _ => rfl
  exact hfirst.handleNodeEvents t t₂

end RunAttemptState

/-! ## Rows -/

namespace Sql

/-- The columns of a row without the values of its times and without its map bits. -/
def NodeRow.plain (row : NodeRow) : NodeRow :=
  { row with
    scheduledTime := row.scheduledTime.map fun _ => 0
    pausedTime := row.pausedTime.map fun _ => 0
    unpausedTime := row.unpausedTime.map fun _ => 0
    queuedTime := row.queuedTime.map fun _ => 0
    runningTime := row.runningTime.map fun _ => 0
    completeTime := row.completeTime.map fun _ => 0
    cancelledTime := row.cancelledTime.map fun _ => 0
    errorTime := row.errorTime.map fun _ => 0
    mapCompleted := none }

/-- The row of a node after several updates. -/
def NodeRow.upserts (old : Option NodeRow) (rows : List NodeRow) : Option NodeRow :=
  rows.foldl (fun old new => some (.upsert old new)) old

/-- The last map bits of some updates. -/
def lastBits (rows : List NodeRow) : Option (List Byte) :=
  (rows.filterMap NodeRow.mapCompleted).getLast?

/-- Or bits into those of an update. -/
def mergeInto (stored : Option (List Byte)) (new : List Byte) : List Byte :=
  match stored with
  | some stored => orBytes new stored
  | none => new

theorem NodeRow.plain_upsert (old : Option NodeRow) (new : NodeRow) :
    (NodeRow.upsert old new).plain = NodeRow.upsert (old.map plain) new.plain := by
  cases old with
  | none => rfl
  | some old => simp [NodeRow.upsert, NodeRow.onConflict, plain, coalesce, Option.map_or]

@[simp] theorem NodeRow.plain_mergeBits (bits : Option (List Byte)) (row : NodeRow) :
    (row.mergeBits bits).plain = row.plain := by
  unfold mergeBits
  split <;> rfl

theorem NodeRow.mapCompleted_mergeBits (bits : Option (List Byte)) (row : NodeRow) :
    (row.mergeBits bits).mapCompleted = row.mapCompleted.map (mergeInto bits) := by
  unfold mergeBits mergeInto
  cases h : row.mapCompleted <;> cases bits <;> simp [h]

theorem NodeRow.plain_upserts {rows : List NodeRow} :
    ∀ old : Option NodeRow,
      (upserts old rows).map plain = upserts (old.map plain) (rows.map plain) := by
  induction rows with
  | nil => exact fun _ => rfl
  | cons row rows ih =>
    intro old
    rw [upserts, List.foldl_cons, ← upserts, ih, Option.map_some, plain_upsert]
    rfl

theorem NodeRow.upserts_append (old : Option NodeRow) (rows rows' : List NodeRow) :
    upserts old (rows ++ rows') = upserts (upserts old rows) rows' := List.foldl_append

theorem mapCompleted_upsert (old : Option NodeRow) (new : NodeRow) :
    (NodeRow.upsert old new).mapCompleted =
      coalesce new.mapCompleted (old.bind NodeRow.mapCompleted) := by
  cases old <;> simp [NodeRow.upsert, NodeRow.onConflict]

theorem lastBits_append (rows rows' : List NodeRow) :
    lastBits (rows ++ rows') = coalesce (lastBits rows') (lastBits rows) := by
  rw [lastBits, List.filterMap_append, List.getLast?_append]
  rfl

theorem lastBits_mergeBits (bits : Option (List Byte)) (rows : List NodeRow) :
    lastBits (rows.map (NodeRow.mergeBits bits)) = (lastBits rows).map (mergeInto bits) := by
  unfold lastBits
  rw [List.filterMap_map, ← List.getLast?_map, List.map_filterMap]
  congr 1
  exact List.filterMap_congr fun row _ => NodeRow.mapCompleted_mergeBits bits row

/-- The bits of a node after several updates: the last that an update sets. -/
theorem mapCompleted_upserts {rows : List NodeRow} :
    ∀ old : Option NodeRow, (NodeRow.upserts old rows).bind NodeRow.mapCompleted =
      coalesce (lastBits rows) (old.bind NodeRow.mapCompleted) := by
  induction rows with
  | nil => exact fun _ => rfl
  | cons row rows ih =>
    intro old
    have hrow : lastBits [row] = row.mapCompleted := by
      cases h : row.mapCompleted <;> simp [lastBits, h]
    rw [NodeRow.upserts, List.foldl_cons, ← NodeRow.upserts, ih, Option.bind_some,
      mapCompleted_upsert, ← List.singleton_append, lastBits_append, hrow]
    simp [coalesce, Option.or_assoc]

/-- The size of a node after several updates: the first that is set. -/
theorem mapSize_upserts {rows : List NodeRow} :
    ∀ old : Option NodeRow, (NodeRow.upserts old rows).bind NodeRow.mapSize =
      coalesce (old.bind NodeRow.mapSize) (rows.findSome? NodeRow.mapSize) := by
  induction rows with
  | nil => exact fun _ => Option.or_none.symm
  | cons row rows ih =>
    intro old
    have hrow : (NodeRow.upsert old row).mapSize =
        coalesce (old.bind NodeRow.mapSize) row.mapSize := by
      cases old <;> simp [NodeRow.upsert, NodeRow.onConflict]
    rw [NodeRow.upserts, List.foldl_cons, ← NodeRow.upserts, ih, Option.bind_some, hrow,
      List.findSome?_cons]
    cases row.mapSize <;> simp [coalesce]

/-- The updates of one node. -/
def rowsFor (run : Uuid) (attempt : Int) (key : NodeKey) (updates : List NodeUpdate) :
    List NodeRow :=
  (updates.filter fun u => ((run, attempt, u.1) : NodeKey) = key).map Prod.snd

theorem get?_upserts {run : Uuid} {attempt : Int} {key : NodeKey} {updates : List NodeUpdate} :
    ∀ table : HashMap NodeKey NodeRow,
      (updates.foldl (fun t u => upsertRow t (run, attempt, u.1) u.2) table).get? key =
        NodeRow.upserts (table.get? key) (rowsFor run attempt key updates) := by
  induction updates with
  | nil => exact fun _ => rfl
  | cons u us ih =>
    intro table
    rw [List.foldl_cons, ih, upsertRow, HashMap.get?_insert, rowsFor, rowsFor, List.filter_cons]
    by_cases h : ((run, attempt, u.1) : NodeKey) = key
    · subst h
      simp [NodeRow.upserts]
    · simp [h, Ne.symm h]

/-- After the rows of a batch, each node has had its updates with the bits from before the
batch merged in. -/
theorem get?_applyBatch {run : Uuid} {attempt : Int} {key : NodeKey} {updates : List NodeUpdate}
    {events : List NodeEvent} (db : Db) :
    (db.applyBatch run attempt updates (events.flatMap eventOutputs)).nodeStates.get? key =
      NodeRow.upserts (db.nodeStates.get? key)
        ((rowsFor run attempt key updates).map (NodeRow.mergeBits (storedBits db.nodeStates key))) := by
  rw [applyBatch_tables]
  have hmap : updates.foldl (fun t u =>
        upsertMerged (storedBits db.nodeStates (run, attempt, u.1)) t (run, attempt, u.1) u.2)
        db.nodeStates =
      (updates.map (mergeMapComplete db run attempt)).foldl
        (fun t u => upsertRow t (run, attempt, u.1) u.2) db.nodeStates := by
    rw [List.foldl_map]
    rfl
  simp only [hmap, get?_upserts]
  congr 1
  unfold rowsFor
  rw [List.filter_map, List.map_map, List.map_map]
  refine List.map_congr_left fun u hu => ?_
  have hkey : ((run, attempt, u.1) : NodeKey) = key := of_decide_eq_true (List.mem_filter.1 hu).2
  simp [mergeMapComplete, hkey]

/-! ## Events -/

/-- The map bits an event carries. -/
def eventBits (e : NodeEvent) : Option (List Bool) :=
  match e.status with
  | .running (some (.mapStarted inputSets)) => some (List.replicate inputSets.length false)
  | .running (some (.mapElemComplete bits)) => some bits
  | _ => none

/-- The number of elements an event carries. -/
def eventMapSize (e : NodeEvent) : Option Nat :=
  match e.status with
  | .running (some (.mapStarted inputSets)) => some inputSets.length
  | _ => none

theorem eventColumns_map {K : Crates} {now : Time} {e : NodeEvent} {row : NodeRow}
    (h : eventColumns K now e = .ok row) :
    row.mapCompleted = (eventBits e).map K.intoVec ∧
      row.mapSize = (eventMapSize e).map Int.ofNat := by
  obtain ⟨loc, name, status⟩ := e
  cases status with
  | running stateUpdate =>
    cases stateUpdate with
    | none => cases h; exact ⟨rfl, rfl⟩
    | some u =>
      cases u with
      | looping index inputs =>
        simp only [eventColumns, toI32] at h
        split_ifs at h
        · cases h
          exact ⟨rfl, rfl⟩
        · cases h
      | mapStarted inputSets =>
        simp only [eventColumns, toI32] at h
        split_ifs at h
        · cases h
          exact ⟨rfl, rfl⟩
        · cases h
      | _ => cases h; exact ⟨rfl, rfl⟩
  | _ => cases h; exact ⟨rfl, rfl⟩

/-- At another time an event sets the same columns. -/
theorem eventColumns_time {K : Crates} {now : Time} {e : NodeEvent} {row : NodeRow}
    (h : eventColumns K now e = .ok row) (now' : Time) :
    ∃ row', eventColumns K now' e = .ok row' ∧ row'.plain = row.plain := by
  obtain ⟨loc, name, status⟩ := e
  cases status with
  | running stateUpdate =>
    cases stateUpdate with
    | none => cases h; exact ⟨_, rfl, rfl⟩
    | some u =>
      cases u with
      | looping index inputs =>
        simp only [eventColumns] at h ⊢
        cases hi : toI32 index with
        | error f => simp [hi, Except.map] at h
        | ok i =>
          rw [hi] at h
          cases h
          exact ⟨_, rfl, rfl⟩
      | mapStarted inputSets =>
        simp only [eventColumns] at h ⊢
        cases hi : toI32 inputSets.length with
        | error f => simp [hi, Except.map] at h
        | ok i =>
          rw [hi] at h
          cases h
          exact ⟨_, rfl, rfl⟩
      | _ => cases h; exact ⟨_, rfl, rfl⟩
  | _ => cases h; exact ⟨_, rfl, rfl⟩

theorem eventRow_eq_ok {K : Crates} {now : Time} {e : NodeEvent} {u : NodeUpdate} :
    eventRow K now e = .ok u ↔ ∃ row, eventColumns K now e = .ok row ∧ u = (e.loc, row) := by
  unfold eventRow
  cases eventColumns K now e <;> simp [Except.map, eq_comm]

/-- The updates of a batch, one for each event. -/
abbrev UpdatesOf (K : Crates) (now : Time) (events : List NodeEvent) (updates : List NodeUpdate) :
    Prop :=
  List.Forall₂ (fun e u => eventRow K now e = .ok u) events updates

section Updates

variable {K : Crates} {now : Time} {events : List NodeEvent} {updates : List NodeUpdate}
  {run : Uuid} {attempt : Int}

/-- The events of one node and the rows that are upserted for it. -/
theorem UpdatesOf.rowsFor (h : UpdatesOf K now events updates) (loc : Location) :
    List.Forall₂ (fun e row => eventColumns K now e = .ok row)
      (events.filter fun e => e.loc = loc) (rowsFor run attempt (run, attempt, loc) updates) := by
  induction h with
  | nil => exact .nil
  | @cons e u events updates he _ ih =>
    obtain ⟨row, hrow, rfl⟩ := eventRow_eq_ok.1 he
    unfold Sql.rowsFor at ih ⊢
    by_cases hl : e.loc = loc
    · rw [List.filter_cons_of_pos (by simp [hl]), List.filter_cons_of_pos (by simp [hl])]
      exact .cons hrow ih
    · rw [List.filter_cons_of_neg (by simp [hl]), List.filter_cons_of_neg (by simp [hl])]
      exact ih

/-- At another time the updates set the same columns. -/
theorem UpdatesOf.plain {now' : Time} {updates' : List NodeUpdate}
    (h : UpdatesOf K now events updates) (h' : UpdatesOf K now' events updates') (key : NodeKey) :
    (Sql.rowsFor run attempt key updates').map NodeRow.plain =
      (Sql.rowsFor run attempt key updates).map NodeRow.plain := by
  induction h generalizing updates' with
  | nil =>
    cases h'
    rfl
  | @cons e u events updates he _ ih =>
    obtain ⟨u', us', he', hus', rfl⟩ := List.forall₂_cons_left_iff.1 h'
    obtain ⟨row, hrow, rfl⟩ := eventRow_eq_ok.1 he
    obtain ⟨row', hrow', rfl⟩ := eventRow_eq_ok.1 he'
    obtain ⟨_, hsame, hplain⟩ := eventColumns_time hrow now'
    rw [hrow'] at hsame
    cases hsame
    have hk := ih hus'
    unfold Sql.rowsFor at hk ⊢
    by_cases hl : ((run, attempt, e.loc) : NodeKey) = key
    · simp [hl, hplain, hk]
    · simpa [List.filter_cons, hl] using hk

theorem UpdatesOf.split {events' : List NodeEvent} (h : UpdatesOf K now (events ++ events') updates) :
    ∃ us us', UpdatesOf K now events us ∧ UpdatesOf K now events' us' ∧ updates = us ++ us' := by
  induction events generalizing updates with
  | nil => exact ⟨[], updates, .nil, h, rfl⟩
  | cons e events ih =>
    obtain ⟨u, us, he, hus, rfl⟩ := List.forall₂_cons_left_iff.1 h
    obtain ⟨us₁, us₂, h₁, h₂, rfl⟩ := ih hus
    exact ⟨u :: us₁, us₂, .cons he h₁, h₂, rfl⟩

end Updates

/-- The last map bits that some events carry for a node. -/
def lastMapBits (events : List NodeEvent) (loc : Location) : Option (List Bool) :=
  ((events.filter fun e => e.loc = loc).filterMap eventBits).getLast?

/-- The first number of elements that some events carry for a node. -/
def firstMapSize (events : List NodeEvent) (loc : Location) : Option Nat :=
  (events.filter fun e => e.loc = loc).findSome? eventMapSize

section Updates

variable {K : Crates} {now : Time} {events : List NodeEvent} {updates : List NodeUpdate}
  {run : Uuid} {attempt : Int}

theorem UpdatesOf.lastBits (h : UpdatesOf K now events updates) (loc : Location) :
    lastBits (Sql.rowsFor run attempt (run, attempt, loc) updates) =
      (lastMapBits events loc).map K.intoVec := by
  have hrows : List.Forall₂ _ _ (Sql.rowsFor run attempt (run, attempt, loc) updates) :=
    h.rowsFor loc
  unfold Sql.lastBits lastMapBits
  rw [← List.getLast?_map]
  congr 1
  generalize (events.filter fun e => e.loc = loc) = es,
    Sql.rowsFor run attempt (run, attempt, loc) updates = rows at hrows ⊢
  induction hrows with
  | nil => rfl
  | @cons e row events rows he _ ih =>
    rw [List.filterMap_cons, List.filterMap_cons, (eventColumns_map he).1]
    cases eventBits e <;> simp [ih]

theorem UpdatesOf.mapSize (h : UpdatesOf K now events updates) (loc : Location) :
    (Sql.rowsFor run attempt (run, attempt, loc) updates).findSome? NodeRow.mapSize =
      (firstMapSize events loc).map Int.ofNat := by
  have hrows : List.Forall₂ _ _ (Sql.rowsFor run attempt (run, attempt, loc) updates) :=
    h.rowsFor loc
  unfold firstMapSize
  generalize (events.filter fun e => e.loc = loc) = es,
    Sql.rowsFor run attempt (run, attempt, loc) updates = rows at hrows ⊢
  induction hrows with
  | nil => rfl
  | @cons e row events rows he _ ih =>
    rw [List.findSome?_cons, List.findSome?_cons, (eventColumns_map he).2]
    cases eventMapSize e <;> simp [ih]

end Updates

/-- A batch that the database takes when nothing fails from outside: its numbers fit
their columns, its nodes have rows or their attempt has one, and its input rows violate
no constraint. -/
def Accepts (K : Crates) (db : Db) (r : RunAttempt) (events : List NodeEvent) : Prop :=
  ∃ attempt, toI32 r.2 = .ok attempt ∧
    (∀ e ∈ events, (∃ row, eventColumns K 0 e = .ok row) ∧
      db.takesNode r.1 attempt e.loc = true) ∧
    Storable db r.1 attempt (events.flatMap eventInputs)

theorem updatesOf_isOk {K : Crates} {now : Time} {events : List NodeEvent} :
    (∃ updates, UpdatesOf K now events updates) ↔
      ∀ e ∈ events, ∃ row, eventColumns K 0 e = .ok row := by
  induction events with
  | nil => exact ⟨fun _ _ h => (by cases h), fun _ => ⟨[], .nil⟩⟩
  | cons e events ih =>
    rw [List.forall_mem_cons, ← ih]
    constructor
    · rintro ⟨updates, h⟩
      obtain ⟨u, us, he, hus, -⟩ := List.forall₂_cons_left_iff.1 h
      obtain ⟨row, hrow, -⟩ := eventRow_eq_ok.1 he
      obtain ⟨row', hrow', -⟩ := eventColumns_time hrow 0
      exact ⟨⟨row', hrow'⟩, us, hus⟩
    · rintro ⟨⟨row, hrow⟩, us, hus⟩
      obtain ⟨row', hrow', -⟩ := eventColumns_time hrow now
      exact ⟨_, .cons (eventRow_eq_ok.2 ⟨row', hrow', rfl⟩) hus⟩

theorem UpdatesOf.locations {K : Crates} {now : Time} {events : List NodeEvent}
    {updates : List NodeUpdate} (h : UpdatesOf K now events updates) {p : Location → Prop} :
    (∀ u ∈ updates, p u.1) ↔ ∀ e ∈ events, p e.loc := by
  induction h with
  | nil => simp
  | cons he _ ih => rw [List.forall_mem_cons, List.forall_mem_cons, ih, eventRow_fst he]

end Sql

namespace SqliteRuntimeState

variable {K : Crates} {st : SqliteRuntimeState} {r : RunAttempt} {now : Time}
  {events : List NodeEvent}

/-- What a batch that goes through does. -/
theorem write_nodeEvents_iff {st' : SqliteRuntimeState} :
    st.write K r noFaults now (.nodeEvents events) = (.ok (), st') ↔
      ∃ attempt updates, toI32 r.2 = .ok attempt ∧ UpdatesOf K now events updates ∧
        (∀ u ∈ updates, st.db.takesNode r.1 attempt u.1 = true) ∧
        Storable st.db r.1 attempt (events.flatMap eventInputs) ∧
        st' = { db := (st.db.addInputs r.1 attempt (events.flatMap eventInputs)).applyBatch r.1
                  attempt updates (events.flatMap eventOutputs)
                watch := st.watch.update r false } := by
  have hfail : ∀ f s', writeProg K now r.1 r.2 (.nodeEvents events) noFaults ⟨st.db, 0⟩ =
      (.error f, s') → st.write K r noFaults now (.nodeEvents events) ≠ (.ok (), st') := by
    intro f s' h
    rw [write_eq_error.2 ⟨s', h, rfl⟩]
    exact fun h => by cases h
  cases ha : toI32 r.2 with
  | error f =>
    have hprog : writeProg K now r.1 r.2 (.nodeEvents events) noFaults ⟨st.db, 0⟩ =
        (.error (f.wrapErr "Failed to handle Node event"), ⟨st.db, 0⟩) := by
      simp [writeProg_nodeEvents_eq, handleNodeEvents, ha, Prog.lift, Prog.fail, Prog.andThen,
        Prog.mapError]
    refine iff_of_false (hfail _ _ hprog) ?_
    rintro ⟨_, _, h, -⟩
    cases h
  | ok attempt =>
    cases hu : events.mapM (eventRow K now) with
    | error f =>
      have hprog : writeProg K now r.1 r.2 (.nodeEvents events) noFaults ⟨st.db, 0⟩ =
          (.error (f.wrapErr "Failed to handle Node event"), ⟨st.db, 0⟩) := by
        simp [writeProg_nodeEvents_eq, handleNodeEvents, ha, hu, Prog.lift, Prog.ok, Prog.fail,
          Prog.andThen, Prog.mapError]
      refine ⟨fun h => absurd h (hfail _ _ hprog), ?_⟩
      rintro ⟨_, updates, -, h, -⟩
      have := mapM_of_forall₂ h
      rw [hu] at this
      cases this
    | ok updates =>
      have hus : UpdatesOf K now events updates := mapM_eq_ok hu
      have hw := writeProg_nodeEvents st ha hu (show noFaults 0 = none from rfl)
      by_cases h : (∀ u ∈ updates, st.db.takesNode r.1 attempt u.1 = true) ∧
          Storable st.db r.1 attempt (events.flatMap eventInputs)
      · rw [(((clean_writeRows_of h.1 h.2 (eventOutputs_mem hu)).mapError _) noFaults 1).1
          fun _ _ => rfl] at hw
        unfold write exec
        rw [hw]
        constructor
        · intro heq
          exact ⟨attempt, updates, rfl, hus, h.1, h.2, (Prod.mk.inj heq).2.symm⟩
        · rintro ⟨_, updates', ⟨⟩, hus', -, -, rfl⟩
          have := mapM_of_forall₂ hus'
          rw [hu] at this
          cases this
          rfl
      · have hb : Breaks (writeRows r.1 attempt updates (events.flatMap eventInputs)
            (events.flatMap eventOutputs)) st.db := by
          rw [not_and_or] at h
          exact h.elim (breaks_writeRows_of _) (breaks_writeRows _ _)
        obtain ⟨f, s', he⟩ := (hb.mapError (.wrapErr "Failed to handle Node event")) noFaults 1
        rw [he] at hw
        refine ⟨fun heq => absurd heq (hfail _ _ hw), ?_⟩
        rintro ⟨_, updates', ⟨⟩, hus', hn, hs, -⟩
        have := mapM_of_forall₂ hus'
        rw [hu] at this
        cases this
        exact absurd ⟨hn, hs⟩ h

/-- Without outside failures a batch goes through exactly when it is accepted. -/
theorem write_isOk_iff :
    (∃ st', st.write K r noFaults now (.nodeEvents events) = (.ok (), st')) ↔
      Accepts K st.db r events := by
  constructor
  · rintro ⟨st', h⟩
    obtain ⟨attempt, updates, ha, hu, hn, hs, -⟩ := write_nodeEvents_iff.1 h
    exact ⟨attempt, ha, fun e he => ⟨updatesOf_isOk.1 ⟨updates, hu⟩ e he,
      (hu.locations (p := fun loc => st.db.takesNode r.1 attempt loc = true)).1 hn e he⟩, hs⟩
  · rintro ⟨attempt, ha, he, hs⟩
    obtain ⟨updates, hu⟩ := updatesOf_isOk.2 fun e h => (he e h).1
    exact ⟨_, write_nodeEvents_iff.2 ⟨attempt, updates, ha, hu,
      (hu.locations (p := fun loc => st.db.takesNode r.1 attempt loc = true)).2
        fun e h => (he e h).2, hs, rfl⟩⟩

end SqliteRuntimeState

/-! ## Cutting a batch -/

namespace Sql

/-- What a row holds, up to the values of times: its columns, and its map bits as they
are read. -/
def NodeRow.held (row : NodeRow) : NodeRow × Result (Option (List Bool)) :=
  (row.plain, readMapCompleted row)

/-- The nodes of two databases, up to the values of times. -/
def Db.SameNodes (a b : Db) : Prop :=
  (∀ key, (a.nodeStates.get? key).map NodeRow.held = (b.nodeStates.get? key).map NodeRow.held) ∧
    a.nodeOutputs = b.nodeOutputs

/-- What two parts of a batch do to the bits of a node below `size`, with `stored` from
before: each bit that the second leaves unset is after the first what it was before. -/
def BitsKept (stored first second : List Bool) (size : Nat) : Prop :=
  ∀ i < size, second[i]? = some false →
    (bitorAssign first stored)[i]?.getD false = stored[i]?.getD false

theorem take_bitorAssign_iff {stored first second : List Bool} {size : Nat} :
    (bitorAssign second stored).take size =
        (bitorAssign second (bitorAssign first stored)).take size ↔
      BitsKept stored first second size := by
  unfold BitsKept
  rw [List.ext_getElem?_iff]
  refine forall_congr' fun i => ?_
  rw [List.getElem?_take, List.getElem?_take, getElem?_bitorAssign second stored,
    getElem?_bitorAssign second (bitorAssign first stored)]
  by_cases hi : i < size
  · cases second[i]? with
    | none => simp [hi]
    | some b => cases b <;> simp [hi, eq_comm]
  · simp [hi]

/-- Bits merged into stored ones. -/
theorem fromSlice_mergeInto (stored : Option (List Byte)) (new : List Byte) :
    fromSlice (mergeInto stored new) = bitorAssign (fromSlice new) (fromSlice (stored.getD [])) := by
  cases stored with
  | none =>
    have h : bitorAssign (fromSlice new) (fromSlice []) = fromSlice new := by
      cases fromSlice new <;> rfl
    exact h.symm
  | some stored => exact fromSlice_orBytes new stored

/-- Two blobs of one size are read alike. -/
theorem readMapCompleted_eq_iff {row row' : NodeRow} {a b : List Byte}
    (hs : row'.mapSize = row.mapSize) (ha : row.mapCompleted = some a)
    (hb : row'.mapCompleted = some b) :
    readMapCompleted row = readMapCompleted row' ↔
      ∀ size : Nat, row.mapSize = some (size : Int) →
        (fromSlice a).take size = (fromSlice b).take size := by
  unfold readMapCompleted
  rw [ha, hb, hs]
  cases row.mapSize with
  | none => simp [okOr, bind, Except.bind]
  | some i =>
    by_cases hi : 0 ≤ i
    · obtain ⟨n, rfl⟩ := Int.eq_ofNat_of_zero_le hi
      simp only [okOr, bind, Except.bind, toU32_natCast, pure, Except.pure, Except.ok.injEq,
        Option.some.injEq, Int.natCast_inj]
      exact ⟨fun h size hsize => hsize ▸ h, fun h => h n rfl⟩
    · have hne : ∀ size : Nat, i ≠ size := fun size h => hi (h ▸ Int.natCast_nonneg size)
      simp [okOr, bind, Except.bind, toU32, hi, hne]

theorem held_congr {x y : Option NodeRow} (hp : x.map NodeRow.plain = y.map NodeRow.plain)
    (hb : x.bind NodeRow.mapCompleted = y.bind NodeRow.mapCompleted) :
    x.map NodeRow.held = y.map NodeRow.held := by
  cases x with
  | none =>
    cases y with
    | none => rfl
    | some row' => cases hp
  | some row =>
    cases y with
    | none => cases hp
    | some row' =>
      have hp : row.plain = row'.plain := Option.some.inj hp
      have hb : row.mapCompleted = row'.mapCompleted := hb
      have hs : row.mapSize = row'.mapSize := by
        have := congrArg NodeRow.mapSize hp
        exact this
      simp [NodeRow.held, readMapCompleted, hp, hb, hs]

/-- Two rows that differ in the bits at most, where one has the bits of a batch and the
other those of its two parts. -/
theorem held_eq_iff {batch parts : Option NodeRow} (stored first second : Option (List Byte))
    (hp : batch.map NodeRow.plain = parts.map NodeRow.plain)
    (hb : batch.bind NodeRow.mapCompleted =
      coalesce ((coalesce second first).map (mergeInto stored)) stored)
    (hq : parts.bind NodeRow.mapCompleted =
      coalesce (second.map (mergeInto (coalesce (first.map (mergeInto stored)) stored)))
        (coalesce (first.map (mergeInto stored)) stored)) :
    batch.map NodeRow.held = parts.map NodeRow.held ↔
      ∀ a b, first = some a → second = some b → ∀ size : Nat,
        batch.bind NodeRow.mapSize = some (size : Int) →
          BitsKept (fromSlice (stored.getD [])) (fromSlice a) (fromSlice b) size := by
  cases first with
  | none =>
    refine ⟨fun _ a b h => (by cases h), fun _ => held_congr hp ?_⟩
    rw [hb, hq]
    simp [coalesce]
  | some a =>
    cases second with
    | none =>
      refine ⟨fun _ a b _ h => (by cases h), fun _ => held_congr hp ?_⟩
      rw [hb, hq]
      simp [coalesce]
    | some b =>
      obtain ⟨row, rfl, hrow⟩ := Option.bind_eq_some_iff.1 hb
      obtain ⟨row', rfl, hrow'⟩ := Option.bind_eq_some_iff.1 hq
      have hplain : row.plain = row'.plain := Option.some.inj hp
      have hsize : row'.mapSize = row.mapSize := by
        have := congrArg NodeRow.mapSize hplain
        exact this.symm
      have hbits := readMapCompleted_eq_iff hsize hrow hrow'
      have hheld : (some row).map NodeRow.held = (some row').map NodeRow.held ↔
          readMapCompleted row = readMapCompleted row' := by
        simp [NodeRow.held, hplain]
      rw [hheld, hbits]
      simp only [fromSlice_mergeInto, Option.getD_some, coalesce, Option.map_some, Option.some_or,
        take_bitorAssign_iff, Option.bind_some]
      constructor
      · rintro h a' b' ⟨⟩ ⟨⟩ size hs
        exact h size hs
      · exact fun h size hs => h a b rfl rfl size hs

section Rows

variable {first second first' second' : List NodeRow}

/-- The row after a batch, and after its two parts: they differ in the bits at most. -/
theorem plain_upserts_split (old : Option NodeRow) (bits bits' bits'' : Option (List Byte))
    (h₁ : first'.map NodeRow.plain = first.map NodeRow.plain)
    (h₂ : second'.map NodeRow.plain = second.map NodeRow.plain) :
    (NodeRow.upserts old ((first ++ second).map (NodeRow.mergeBits bits))).map NodeRow.plain =
      (NodeRow.upserts (NodeRow.upserts old (first'.map (NodeRow.mergeBits bits')))
        (second'.map (NodeRow.mergeBits bits''))).map NodeRow.plain := by
  have hmerge : ∀ (b : Option (List Byte)) (rows : List NodeRow),
      (rows.map (NodeRow.mergeBits b)).map NodeRow.plain = rows.map NodeRow.plain := by
    intro b rows
    rw [List.map_map]
    exact List.map_congr_left fun row _ => NodeRow.plain_mergeBits b row
  rw [NodeRow.plain_upserts, NodeRow.plain_upserts, NodeRow.plain_upserts, hmerge, hmerge, hmerge,
    h₁, h₂, List.map_append, NodeRow.upserts_append]

theorem held_upserts_split (old : Option NodeRow)
    (h₁ : first'.map NodeRow.plain = first.map NodeRow.plain)
    (h₂ : second'.map NodeRow.plain = second.map NodeRow.plain)
    (hu : lastBits first' = lastBits first) (hv : lastBits second' = lastBits second) :
    (NodeRow.upserts old ((first ++ second).map
          (NodeRow.mergeBits (old.bind NodeRow.mapCompleted)))).map NodeRow.held =
        (NodeRow.upserts (NodeRow.upserts old (first'.map
            (NodeRow.mergeBits (old.bind NodeRow.mapCompleted))))
          (second'.map (NodeRow.mergeBits ((NodeRow.upserts old (first'.map
            (NodeRow.mergeBits (old.bind NodeRow.mapCompleted)))).bind
            NodeRow.mapCompleted)))).map NodeRow.held ↔
      ∀ a b, lastBits first = some a → lastBits second = some b → ∀ size : Nat,
        coalesce (old.bind NodeRow.mapSize) ((first ++ second).findSome? NodeRow.mapSize) =
            some (size : Int) →
          BitsKept (fromSlice ((old.bind NodeRow.mapCompleted).getD [])) (fromSlice a)
            (fromSlice b) size := by
  have hsize : ∀ (b : Option (List Byte)) (rows : List NodeRow),
      (rows.map (NodeRow.mergeBits b)).findSome? NodeRow.mapSize =
        rows.findSome? NodeRow.mapSize := by
    intro b rows
    rw [List.findSome?_map]
    refine congrArg (rows.findSome? ·) (funext fun row => ?_)
    simp only [Function.comp, NodeRow.mergeBits]
    split <;> rfl
  rw [held_eq_iff (old.bind NodeRow.mapCompleted) (lastBits first) (lastBits second)
    (plain_upserts_split old _ _ _ h₁ h₂), mapSize_upserts, hsize]
  · rw [mapCompleted_upserts, lastBits_mergeBits, lastBits_append]
  · rw [mapCompleted_upserts, lastBits_mergeBits, mapCompleted_upserts, lastBits_mergeBits, hu, hv]

end Rows

/-- Input rows that can be stored one list after the other. -/
theorem storable_append {db : Db} {run : Uuid} {attempt : Int} {is js : List NewInput} :
    Storable db run attempt (is ++ js) ↔
      Storable db run attempt is ∧ Storable (db.addInputs run attempt is) run attempt js := by
  rw [← runAll_insertInput, ← runAll_insertInput, ← runAll_insertInput]
  simp only [runAll_append]
  constructor
  · rintro ⟨db', db₁, h₁, h'⟩
    exact ⟨⟨db₁, h₁⟩, db', runAll_insertInput_eq h₁ ▸ h'⟩
  · rintro ⟨⟨db₁, h₁⟩, db', h'⟩
    exact ⟨db', db₁, h₁, (runAll_insertInput_eq h₁).symm ▸ h'⟩

theorem takesNode_foldl_upsert {run : Uuid} {attempt : Int} {loc : Location}
    {updates : List NodeUpdate} :
    ∀ {db : Db}, (∀ u ∈ updates, db.takesNode run attempt u.1 = true) →
      (updates.foldl (fun db u => db.upsert run attempt u) db).takesNode run attempt loc =
        db.takesNode run attempt loc := by
  induction updates with
  | nil => exact fun _ => rfl
  | cons u us ih =>
    intro db h
    rw [List.forall_mem_cons] at h
    rw [List.foldl_cons, ih fun v hv => (takesNode_upsert h.1).trans (h.2 v hv),
      takesNode_upsert h.1]

/-- The rows of a batch make no other batch acceptable. -/
theorem takesNode_applyBatch {run : Uuid} {attempt : Int} {loc : Location}
    {updates : List NodeUpdate} {outputs : List NewOutput} {db : Db}
    (h : ∀ u ∈ updates, db.takesNode run attempt u.1 = true) :
    (db.applyBatch run attempt updates outputs).takesNode run attempt loc =
      db.takesNode run attempt loc := by
  have ho : ∀ (os : List NewOutput) (d : Db),
      (os.foldl (fun db o => db.addOutput run attempt o) d).takesNode run attempt loc =
        d.takesNode run attempt loc := by
    intro os
    induction os with
    | nil => exact fun _ => rfl
    | cons o os ih => exact fun d => ih (d.addOutput run attempt o)
  rw [Db.applyBatch, ho, takesNode_foldl_upsert]
  intro u hu
  obtain ⟨v, hv, rfl⟩ := List.mem_map.1 hu
  exact h v hv

theorem rowsFor_of_ne {run : Uuid} {attempt : Int} {key : NodeKey} (updates : List NodeUpdate)
    (h : ∀ loc, key ≠ (run, attempt, loc)) : rowsFor run attempt key updates = [] := by
  rw [rowsFor, List.filter_eq_nil_iff.2 fun u _ hu => h u.1 (of_decide_eq_true hu).symm]
  rfl

section Tables

variable {run : Uuid} {attempt : Int} {updates : List NodeUpdate} (events : List NodeEvent)
  (inputs : List NewInput) (db : Db)

/-- A node after a batch, with its input rows. -/
theorem get?_batch (key : NodeKey) :
    ((db.addInputs run attempt inputs).applyBatch run attempt updates
        (events.flatMap eventOutputs)).nodeStates.get? key =
      NodeRow.upserts (db.nodeStates.get? key)
        ((rowsFor run attempt key updates).map
          (NodeRow.mergeBits ((db.nodeStates.get? key).bind NodeRow.mapCompleted))) := by
  rw [get?_applyBatch, addInputs_frame]
  rfl

theorem nodeOutputs_batch :
    ((db.addInputs run attempt inputs).applyBatch run attempt updates
        (events.flatMap eventOutputs)).nodeOutputs =
      events.foldl (addEventOutputs run attempt) db.nodeOutputs := by
  rw [applyBatch_tables, addInputs_frame]

end Tables

/-- The number of elements of a node after some events. -/
def mapSizeAfter (db : Db) (key : NodeKey) (events : List NodeEvent) : Option Int :=
  coalesce ((db.nodeStates.get? key).bind NodeRow.mapSize)
    ((firstMapSize events key.2.2).map Int.ofNat)

/-- The last bits that each part of a batch carries for a node: what the first part sets is
not lost when only the second is merged with what is stored. -/
def NodeBitsKept (K : Crates) (db : Db) (key : NodeKey) (e₁ e₂ : List NodeEvent) : Prop :=
  ∀ first second, lastMapBits e₁ key.2.2 = some first → lastMapBits e₂ key.2.2 = some second →
    ∀ size : Nat, mapSizeAfter db key (e₁ ++ e₂) = some (size : Int) →
      BitsKept (fromSlice ((storedBits db.nodeStates key).getD [])) (fromSlice (K.intoVec first))
        (fromSlice (K.intoVec second)) size

end Sql

namespace SqliteRuntimeState

/-- Write two batches, the second once the first is written. -/
def writeTwice (K : Crates) (st : SqliteRuntimeState) (r : RunAttempt) (t₁ t₂ : Time)
    (e₁ e₂ : List NodeEvent) : Result Unit × SqliteRuntimeState :=
  match st.write K r noFaults t₁ (.nodeEvents e₁) with
  | (.ok (), st') => st'.write K r noFaults t₂ (.nodeEvents e₂)
  | (.error f, st') => (.error f, st')

variable {K : Crates} {st : SqliteRuntimeState} {r : RunAttempt} {t t₁ t₂ : Time}
  {e₁ e₂ : List NodeEvent}

theorem writeTwice_eq_ok {st₂ : SqliteRuntimeState} :
    st.writeTwice K r t₁ t₂ e₁ e₂ = (.ok (), st₂) ↔
      ∃ st₁, st.write K r noFaults t₁ (.nodeEvents e₁) = (.ok (), st₁) ∧
        st₁.write K r noFaults t₂ (.nodeEvents e₂) = (.ok (), st₂) := by
  unfold writeTwice
  cases h : st.write K r noFaults t₁ (.nodeEvents e₁) with
  | mk res st' => cases res <;> simp

/-- A second batch is accepted after the first exactly when both are as one. -/
theorem accepts_append {st₁ : SqliteRuntimeState}
    (h : st.write K r noFaults t₁ (.nodeEvents e₁) = (.ok (), st₁)) :
    Accepts K st.db r (e₁ ++ e₂) ↔ Accepts K st₁.db r e₂ := by
  obtain ⟨attempt, ha, he₁, hs₁⟩ := write_isOk_iff.1 ⟨st₁, h⟩
  obtain ⟨attempt', updates, ha', hu, hn, -, rfl⟩ := write_nodeEvents_iff.1 h
  obtain rfl : attempt = attempt' := Except.ok.inj (ha.symm.trans ha')
  have hn' : ∀ u ∈ updates,
      (st.db.addInputs r.1 attempt (e₁.flatMap eventInputs)).takesNode r.1 attempt u.1 = true := by
    rwa [addInputs_frame]
  have htakes : ∀ loc, ((st.db.addInputs r.1 attempt (e₁.flatMap eventInputs)).applyBatch r.1
      attempt updates (e₁.flatMap eventOutputs)).takesNode r.1 attempt loc =
        st.db.takesNode r.1 attempt loc := by
    intro loc
    rw [takesNode_applyBatch hn', addInputs_frame]
    rfl
  have hstore : Storable ((st.db.addInputs r.1 attempt (e₁.flatMap eventInputs)).applyBatch r.1
      attempt updates (e₁.flatMap eventOutputs)) r.1 attempt (e₂.flatMap eventInputs) ↔
        Storable (st.db.addInputs r.1 attempt (e₁.flatMap eventInputs)) r.1 attempt
          (e₂.flatMap eventInputs) := by
    rw [applyBatch_tables]
    rfl
  simp only [Accepts, ha, Except.ok.injEq, exists_eq_left', List.forall_mem_append,
    List.flatMap_append, storable_append, htakes, hstore]
  exact ⟨fun h => ⟨h.1.2, h.2.2⟩, fun h => ⟨⟨he₁, h.1⟩, hs₁, h.2⟩⟩

theorem Accepts.left {db : Db} (h : Accepts K db r (e₁ ++ e₂)) : Accepts K db r e₁ := by
  obtain ⟨attempt, ha, he, hs⟩ := h
  rw [List.flatMap_append, storable_append] at hs
  exact ⟨attempt, ha, fun e hm => he e (List.mem_append_left _ hm), hs.1⟩

/-- A batch goes through when its two parts do, one after the other. -/
theorem write_append_isOk :
    (∃ st', st.write K r noFaults t (.nodeEvents (e₁ ++ e₂)) = (.ok (), st')) ↔
      ∃ st', st.writeTwice K r t₁ t₂ e₁ e₂ = (.ok (), st') := by
  simp only [writeTwice_eq_ok]
  rw [exists_comm, write_isOk_iff]
  simp only [exists_and_left, write_isOk_iff]
  constructor
  · intro h
    obtain ⟨st₁, h₁⟩ := write_isOk_iff.2 (Accepts.left h)
    exact ⟨st₁, h₁, (accepts_append h₁).1 h⟩
  · rintro ⟨st₁, h₁, h⟩
    exact (accepts_append h₁).2 h

/-- A batch and its two parts leave the same exactly when no node loses bits. -/
theorem sameNodes_iff {st₁ st₂ : SqliteRuntimeState} {attempt : Int} (ha : toI32 r.2 = .ok attempt)
    (h₁ : st.write K r noFaults t (.nodeEvents (e₁ ++ e₂)) = (.ok (), st₁))
    (h₂ : st.writeTwice K r t₁ t₂ e₁ e₂ = (.ok (), st₂)) :
    st₁.db.SameNodes st₂.db ↔ ∀ loc, NodeBitsKept K st.db (r.1, attempt, loc) e₁ e₂ := by
  obtain ⟨mid, hmid, h₂⟩ := writeTwice_eq_ok.1 h₂
  obtain ⟨a₁, us, ha₁, hus, -, -, rfl⟩ := write_nodeEvents_iff.1 h₁
  obtain ⟨a₂, us₁, ha₂, hus₁, -, -, rfl⟩ := write_nodeEvents_iff.1 hmid
  obtain ⟨a₃, us₂, ha₃, hus₂, -, -, rfl⟩ := write_nodeEvents_iff.1 h₂
  rw [ha] at ha₁ ha₂ ha₃
  cases ha₁
  cases ha₂
  cases ha₃
  obtain ⟨vs₁, vs₂, hvs₁, hvs₂, rfl⟩ := hus.split
  have houtputs : (e₁ ++ e₂).foldl (addEventOutputs r.1 attempt) st.db.nodeOutputs =
      e₂.foldl (addEventOutputs r.1 attempt)
        (e₁.foldl (addEventOutputs r.1 attempt) st.db.nodeOutputs) := List.foldl_append
  simp only [Db.SameNodes, nodeOutputs_batch, houtputs, and_true, get?_batch]
  have hrows : ∀ key, rowsFor r.1 attempt key (vs₁ ++ vs₂) =
      rowsFor r.1 attempt key vs₁ ++ rowsFor r.1 attempt key vs₂ := fun key => by
    rw [rowsFor, List.filter_append, List.map_append]
    rfl
  have hloc : ∀ loc, (∀ a b, lastBits (rowsFor r.1 attempt (r.1, attempt, loc) vs₁) = some a →
      lastBits (rowsFor r.1 attempt (r.1, attempt, loc) vs₂) = some b → ∀ size : Nat,
        coalesce ((st.db.nodeStates.get? (r.1, attempt, loc)).bind NodeRow.mapSize)
          ((rowsFor r.1 attempt (r.1, attempt, loc) vs₁ ++
            rowsFor r.1 attempt (r.1, attempt, loc) vs₂).findSome? NodeRow.mapSize) =
            some (size : Int) →
          BitsKept (fromSlice ((storedBits st.db.nodeStates (r.1, attempt, loc)).getD []))
            (fromSlice a) (fromSlice b) size) ↔ NodeBitsKept K st.db (r.1, attempt, loc) e₁ e₂ := by
    intro loc
    rw [← hrows, hus.mapSize, hvs₁.lastBits, hvs₂.lastBits]
    constructor
    · intro h first second hf hs size hn
      exact h _ _ (by rw [hf]; rfl) (by rw [hs]; rfl) size hn
    · intro h a b hf hs size hn
      obtain ⟨first, hfirst, rfl⟩ := Option.map_eq_some_iff.1 hf
      obtain ⟨second, hsecond, rfl⟩ := Option.map_eq_some_iff.1 hs
      exact h first second hfirst hsecond size hn
  have hsplit : ∀ loc, _ := fun loc => held_upserts_split
    (st.db.nodeStates.get? (r.1, attempt, loc)) (hvs₁.plain hus₁ (r.1, attempt, loc))
    (hvs₂.plain hus₂ (r.1, attempt, loc)) (by rw [hvs₁.lastBits, hus₁.lastBits])
    (by rw [hvs₂.lastBits, hus₂.lastBits])
  constructor
  · intro h loc
    refine (hloc loc).1 ((hsplit loc).1 ?_)
    rw [← hrows]
    exact h (r.1, attempt, loc)
  · intro h key
    rw [hrows]
    by_cases hk : ∃ loc, key = (r.1, attempt, loc)
    · obtain ⟨loc, rfl⟩ := hk
      exact (hsplit loc).2 ((hloc loc).2 (h loc))
    · have hk := not_exists.1 hk
      rw [rowsFor_of_ne vs₁ hk, rowsFor_of_ne vs₂ hk, rowsFor_of_ne us₁ hk, rowsFor_of_ne us₂ hk]
      rfl

end SqliteRuntimeState

end Tierkreis
