import Tierkreis.State.Sqlite

/-!
# What a batch of node events does

Every statement of a batch but the inserts of its input rows is accepted by the
database. So a batch goes through when its input rows violate no constraint, and
its effect is a fold over the rows.
-/

namespace Tierkreis.Sql

open Lib Lib.Txn

/-! ## Input rows -/

def NewInput.key (i : NewInput) : Location × String := (i.location, i.name)

/-- No row of `inputs` violates a constraint: the attempt exists, no row is stored yet,
and no two rows have one key. -/
def Storable (db : Db) (run : Uuid) (attempt : Int) (inputs : List NewInput) : Prop :=
  (∀ i ∈ inputs, db.attempts.contains (run, attempt) = true ∧ db.hasInput run attempt i = false) ∧
    (inputs.map NewInput.key).Nodup

theorem hasInput_addInput {db : Db} {run : Uuid} {attempt : Int} {i j : NewInput} :
    (db.addInput run attempt i).hasInput run attempt j =
      (decide (j.key = i.key) || db.hasInput run attempt j) := by
  unfold Db.hasInput Db.addInput Db.rowsAt NewInput.key
  simp only [HashMap.get?_insert, Prod.mk.injEq, true_and]
  by_cases hl : j.location = i.location
  · simp [hl, HashMap.contains_insert]
  · simp [hl]

theorem insertInput_eq_ok {db db' : Db} {run : Uuid} {attempt : Int} {i : NewInput} :
    insertInput run attempt i db = .ok ((), db') ↔
      (db.attempts.contains (run, attempt) = true ∧ db.hasInput run attempt i = false) ∧
        db' = db.addInput run attempt i := by
  unfold insertInput
  cases hs : db.hasInput run attempt i
  · cases ha : db.attempts.contains (run, attempt)
    · simp
    · simp [eq_comm]
  · simp

theorem runAll_insertInput {run : Uuid} {attempt : Int} {inputs : List NewInput} :
    ∀ {db : Db}, (∃ db', runAll (insertInput run attempt) inputs db = .ok db') ↔
      Storable db run attempt inputs := by
  induction inputs with
  | nil => exact fun {db} => ⟨fun _ => ⟨by simp, by simp⟩, fun _ => ⟨db, rfl⟩⟩
  | cons i is ih =>
    intro db
    unfold Storable at ih ⊢
    simp only [List.forall_mem_cons, List.map_cons, List.nodup_cons, List.mem_map, not_exists,
      not_and]
    cases hf : insertInput run attempt i db with
    | error e =>
      simp only [runAll, hf, reduceCtorEq, exists_false, false_iff]
      rintro ⟨⟨h, -⟩, -⟩
      have := insertInput_eq_ok.2 ⟨h, rfl⟩
      rw [hf] at this
      cases this
    | ok out =>
      obtain ⟨hi, he⟩ := insertInput_eq_ok.1 hf
      simp only [runAll, hf, ih, he, hasInput_addInput, Bool.or_eq_false_iff, decide_eq_false_iff_not]
      constructor
      · rintro ⟨h, hn⟩
        exact ⟨⟨hi, fun j hj => ⟨(h j hj).1, (h j hj).2.2⟩⟩, fun j hj => (h j hj).2.1, hn⟩
      · rintro ⟨⟨-, h⟩, hne, hn⟩
        exact ⟨fun j hj => ⟨(h j hj).1, hne j hj, (h j hj).2⟩, hn⟩

def Db.addInputs (db : Db) (run : Uuid) (attempt : Int) (inputs : List NewInput) : Db :=
  inputs.foldl (fun db i => db.addInput run attempt i) db

theorem runAll_insertInput_eq {run : Uuid} {attempt : Int} {inputs : List NewInput} :
    ∀ {db db' : Db}, runAll (insertInput run attempt) inputs db = .ok db' →
      db' = db.addInputs run attempt inputs := by
  induction inputs with
  | nil =>
    intro db db' h
    cases h
    rfl
  | cons i is ih =>
    intro db db' h
    cases hf : insertInput run attempt i db with
    | error e => simp [runAll, hf] at h
    | ok out =>
      obtain ⟨-, he⟩ := insertInput_eq_ok.1 hf
      simp only [runAll, hf, he] at h
      exact ih h

/-- Inputs touch no other table. -/
theorem addInputs_frame {run : Uuid} {attempt : Int} {inputs : List NewInput} :
    ∀ (db : Db), db.addInputs run attempt inputs =
      { db with inputs := (db.addInputs run attempt inputs).inputs } := by
  induction inputs with
  | nil => exact fun _ => rfl
  | cons i is ih =>
    intro db
    rw [Db.addInputs, List.foldl_cons, ← Db.addInputs, ih]
    rfl

/-! ## Node rows and outputs -/

/-- Whether the upsert of a node is accepted: the node has a row, or its attempt has. -/
def Db.takesNode (db : Db) (run : Uuid) (attempt : Int) (loc : Location) : Bool :=
  db.nodeStates.contains (run, attempt, loc) || db.attempts.contains (run, attempt)

/-- An accepted upsert makes no other upsert acceptable. -/
theorem takesNode_upsert {db : Db} {run : Uuid} {attempt : Int} {u : NodeUpdate} {loc : Location}
    (h : db.takesNode run attempt u.1 = true) :
    (db.upsert run attempt u).takesNode run attempt loc = db.takesNode run attempt loc := by
  by_cases hl : loc = u.1
  · subst hl
    rw [h]
    simp [Db.takesNode, Db.upsert, upsertRow, HashMap.contains_insert]
  · simp [Db.takesNode, Db.upsert, upsertRow, HashMap.contains_insert, hl]

theorem runAll_upsertNodeState_iff {run : Uuid} {attempt : Int} {updates : List NodeUpdate} :
    ∀ {db db' : Db}, runAll (upsertNodeState run attempt) updates db = .ok db' ↔
      (∀ u ∈ updates, db.takesNode run attempt u.1 = true) ∧
        db' = updates.foldl (fun db u => db.upsert run attempt u) db := by
  induction updates with
  | nil =>
    intro db db'
    constructor
    · intro h
      cases h
      exact ⟨by simp, rfl⟩
    · rintro ⟨-, rfl⟩
      rfl
  | cons u us ih =>
    intro db db'
    by_cases h : db.takesNode run attempt u.1 = true
    · have hu : upsertNodeState run attempt u db = .ok ((), db.upsert run attempt u) := if_pos h
      simp [runAll, hu, ih, takesNode_upsert h, h]
    · have hu : upsertNodeState run attempt u db =
          .error (.miette "FOREIGN KEY constraint failed") := if_neg h
      simp [runAll, hu, h]

/-- Every updated node has a row. -/
theorem contains_upsert {run : Uuid} {attempt : Int} {updates : List NodeUpdate} {loc : Location} :
    ∀ {db : Db}, (loc ∈ updates.map Prod.fst ∨
        db.nodeStates.contains (run, attempt, loc) = true) →
      (updates.foldl (fun db u => db.upsert run attempt u) db).nodeStates.contains
        (run, attempt, loc) = true := by
  induction updates with
  | nil => exact fun h => h.resolve_left (by simp)
  | cons u us ih =>
    intro db hl
    rw [List.foldl_cons]
    refine ih ?_
    simp only [Db.upsert, upsertRow, HashMap.contains_insert, Bool.or_eq_true, decide_eq_true_eq,
      Prod.mk.injEq, true_and]
    rcases hl with hl | hl
    · rcases List.mem_cons.1 hl with rfl | hl
      · exact .inr (.inl rfl)
      · exact .inl hl
    · exact .inr (.inr hl)

/-- The contents after the node rows and outputs of a batch. -/
def Db.applyBatch (db : Db) (run : Uuid) (attempt : Int) (updates : List NodeUpdate)
    (outputs : List NewOutput) : Db :=
  outputs.foldl (fun db o => db.addOutput run attempt o)
    ((updates.map (mergeMapComplete db run attempt)).foldl (fun db u => db.upsert run attempt u) db)

/-- The statements of `updateNodeState`: begin, the query for map bits when there are
any, the upserts, the query for node ids and the outputs when there are any, commit. -/
def updateStatements (updates : List NodeUpdate) (outputs : List NewOutput) : Nat :=
  let merge := if updates.all fun u => u.2.mapCompleted.isNone then 0 else 1
  let insert := if outputs.isEmpty then 0 else 1 + outputs.length
  1 + (merge + (updates.length + insert) + 1)

theorem clean_mergeMapCompleteFields (db : Db) (run : Uuid) (attempt : Int)
    (updates : List NodeUpdate) :
    Clean (mergeMapCompleteFields run attempt updates) db
      (updates.map (mergeMapComplete db run attempt)) db
      (if updates.all fun u => u.2.mapCompleted.isNone then 0 else 1) := by
  unfold mergeMapCompleteFields
  split_ifs with h
  · have hid : updates.map (mergeMapComplete db run attempt) = updates := by
      refine (List.map_congr_left fun u hu => ?_).trans (List.map_id _)
      have := List.all_eq_true.1 h u hu
      simp only [mergeMapComplete, NodeRow.mergeBits, Option.isNone_iff_eq_none.1 this, id]
    rw [hid]
    exact .ok _ _
  · exact .query rfl

theorem clean_insertOutputs {db : Db} {run : Uuid} {attempt : Int} {outputs : List NewOutput}
    (h : ∀ o ∈ outputs, db.nodeStates.contains (run, attempt, o.location) = true) :
    Clean (insertOutputs run attempt outputs) db ()
      (outputs.foldl (fun db o => db.addOutput run attempt o) db)
      (if outputs.isEmpty then 0 else 1 + outputs.length) := by
  unfold insertOutputs
  split_ifs with he
  · rw [List.isEmpty_iff.1 he]
    exact .ok _ _
  · have hq := List.all_eq_true.2 h
    exact Clean.andThen (Clean.query (by rw [hq]; rfl))
      (.each (runAll_eq (fun _ => True) (fun _ _ _ => rfl) (fun _ _ _ => trivial) trivial))

theorem map_fst_mergeMapComplete (db : Db) (run : Uuid) (attempt : Int)
    (updates : List NodeUpdate) :
    (updates.map (mergeMapComplete db run attempt)).map Prod.fst = updates.map Prod.fst := by
  rw [List.map_map]
  rfl

theorem clean_updateNodeState_of {db : Db} {run : Uuid} {attempt : Int} {updates : List NodeUpdate}
    {outputs : List NewOutput} (hn : ∀ u ∈ updates, db.takesNode run attempt u.1 = true)
    (ho : ∀ o ∈ outputs, o.location ∈ updates.map Prod.fst) :
    Clean (updateNodeState run attempt updates outputs) db ()
      (db.applyBatch run attempt updates outputs) (updateStatements updates outputs) := by
  have hm := map_fst_mergeMapComplete db run attempt updates
  have hn' : ∀ u ∈ updates.map (mergeMapComplete db run attempt),
      db.takesNode run attempt u.1 = true := by
    intro u hu
    obtain ⟨v, hv, rfl⟩ := List.mem_map.1 hu
    exact hn v hv
  have hc := ((clean_mergeMapCompleteFields db run attempt updates).andThen (f := fun updates =>
    (Prog.each updates fun u => .stmt (upsertNodeState run attempt u)).andThen fun _ =>
      insertOutputs run attempt outputs)
    ((Clean.each (runAll_upsertNodeState_iff.2 ⟨hn', rfl⟩)).andThen
      (clean_insertOutputs fun o h => contains_upsert (.inl (hm ▸ ho o h))))).transaction
  rw [List.length_map] at hc
  exact hc

theorem clean_updateNodeState {db : Db} {run : Uuid} {attempt : Int} {updates : List NodeUpdate}
    {outputs : List NewOutput} (ha : db.attempts.contains (run, attempt) = true)
    (ho : ∀ o ∈ outputs, o.location ∈ updates.map Prod.fst) :
    Clean (updateNodeState run attempt updates outputs) db ()
      (db.applyBatch run attempt updates outputs) (updateStatements updates outputs) :=
  clean_updateNodeState_of (fun _ _ => by simp [Db.takesNode, ha]) ho

theorem breaks_updateNodeState {db : Db} {run : Uuid} {attempt : Int} {updates : List NodeUpdate}
    (outputs : List NewOutput) (hn : ¬∀ u ∈ updates, db.takesNode run attempt u.1 = true) :
    Breaks (updateNodeState run attempt updates outputs) db := by
  refine Breaks.transaction ((clean_mergeMapCompleteFields db run attempt updates).andThen_breaks ?_)
  cases h : runAll (upsertNodeState run attempt)
      (updates.map (mergeMapComplete db run attempt)) db with
  | error f => exact (Breaks.each h).andThen _
  | ok db' =>
    refine absurd (fun u hu => ?_) hn
    exact (runAll_upsertNodeState_iff.1 h).1 (mergeMapComplete db run attempt u)
      (List.mem_map_of_mem hu)

/-! ## A batch of events -/

theorem eventRow_fst {K : Crates} {now : Time} {e : NodeEvent} {u : NodeUpdate}
    (h : eventRow K now e = .ok u) : u.1 = e.loc := by
  unfold eventRow at h
  cases hc : eventColumns K now e with
  | error f => simp [hc, Except.map] at h
  | ok row =>
    rw [hc] at h
    cases h
    rfl

theorem mem_eventOutputs_location {e : NodeEvent} {o : NewOutput} (h : o ∈ eventOutputs e) :
    o.location = e.loc := by
  unfold eventOutputs at h
  split at h
  · obtain ⟨x, -, rfl⟩ := List.mem_map.1 h
    rfl
  · cases h

theorem fst_eventRows {K : Crates} {now : Time} {events : List NodeEvent}
    {updates : List NodeUpdate} (h : events.mapM (eventRow K now) = .ok updates) :
    updates.map Prod.fst = events.map NodeEvent.loc := by
  have hm := mapM_eq_ok h
  clear h
  induction hm with
  | nil => rfl
  | cons hab _ ih => simp [eventRow_fst hab, ih]

/-- The outputs of a batch belong to nodes that the batch updates. -/
theorem eventOutputs_mem {K : Crates} {now : Time} {events : List NodeEvent}
    {updates : List NodeUpdate} (h : events.mapM (eventRow K now) = .ok updates) :
    ∀ o ∈ events.flatMap eventOutputs, o.location ∈ updates.map Prod.fst := by
  have hf := fst_eventRows h
  intro o ho
  obtain ⟨e, he, ho⟩ := List.mem_flatMap.1 ho
  rw [hf, mem_eventOutputs_location ho]
  exact List.mem_map_of_mem he

section Rows

variable {run : Uuid} {attempt : Int} {updates : List NodeUpdate} {inputs : List NewInput}
  {outputs : List NewOutput}

theorem clean_writeRows_of {db : Db} (hn : ∀ u ∈ updates, db.takesNode run attempt u.1 = true)
    (hs : Storable db run attempt inputs) (ho : ∀ o ∈ outputs, o.location ∈ updates.map Prod.fst) :
    Clean (writeRows run attempt updates inputs outputs) db ()
      ((db.addInputs run attempt inputs).applyBatch run attempt updates outputs)
      (inputs.length + updateStatements updates outputs) := by
  obtain ⟨db₁, h₁⟩ := runAll_insertInput.2 hs
  cases runAll_insertInput_eq h₁
  have hn₁ : ∀ u ∈ updates, (db.addInputs run attempt inputs).takesNode run attempt u.1 = true := by
    rwa [addInputs_frame]
  exact ((Clean.each h₁).mapError _).andThen ((clean_updateNodeState_of hn₁ ho).mapError _)

theorem clean_writeRows {db : Db} (hc : db.attempts.contains (run, attempt) = true)
    (hs : Storable db run attempt inputs) (ho : ∀ o ∈ outputs, o.location ∈ updates.map Prod.fst) :
    Clean (writeRows run attempt updates inputs outputs) db ()
      ((db.addInputs run attempt inputs).applyBatch run attempt updates outputs)
      (inputs.length + updateStatements updates outputs) :=
  clean_writeRows_of (fun _ _ => by simp [Db.takesNode, hc]) hs ho

theorem breaks_writeRows (updates : List NodeUpdate) (outputs : List NewOutput) {db : Db}
    (hs : ¬Storable db run attempt inputs) :
    Breaks (writeRows run attempt updates inputs outputs) db := by
  cases h : runAll (insertInput run attempt) inputs db with
  | error f => exact ((Breaks.each h).mapError _).andThen _
  | ok db' => exact absurd (runAll_insertInput.1 ⟨db', h⟩) hs

theorem breaks_writeRows_of (outputs : List NewOutput) {db : Db}
    (hn : ¬∀ u ∈ updates, db.takesNode run attempt u.1 = true) :
    Breaks (writeRows run attempt updates inputs outputs) db := by
  by_cases hs : Storable db run attempt inputs
  · obtain ⟨db₁, h₁⟩ := runAll_insertInput.2 hs
    cases runAll_insertInput_eq h₁
    refine ((Clean.each h₁).mapError _).andThen_breaks
      ((breaks_updateNodeState outputs ?_).mapError _)
    rwa [addInputs_frame]
  · exact breaks_writeRows updates outputs hs

/-- The rows of a batch leave the table of attempts alone. -/
theorem keeps_attempts_writeRows {a : HashMap (Uuid × Int) AttemptRow} :
    Keeps (fun db : Db => db.attempts = a)
      (writeRows run attempt updates inputs outputs) := by
  have hi : Keeps (fun db : Db => db.attempts = a) (insertWorkflowRunInputs run attempt inputs) := by
    refine .each fun i _ => .stmt fun db u db' h hr => ?_
    obtain ⟨-, rfl⟩ := insertInput_eq_ok.1 hr
    exact h
  have hm : Keeps (fun db : Db => db.attempts = a) (mergeMapCompleteFields run attempt updates) := by
    unfold mergeMapCompleteFields
    split_ifs
    · exact .ok _
    · exact .query _
  have hu : ∀ us : List NodeUpdate, Keeps (fun db : Db => db.attempts = a)
      (Prog.each us fun u => .stmt (upsertNodeState run attempt u)) := by
    intro us
    refine .each fun u _ => .stmt fun db _ db' h hr => ?_
    unfold upsertNodeState at hr
    split_ifs at hr
    · cases hr
      exact h
  have ho : Keeps (fun db : Db => db.attempts = a) (insertOutputs run attempt outputs) := by
    unfold insertOutputs
    split_ifs
    · exact .ok _
    · refine (Keeps.query _).andThen fun _ => .each fun o _ => .stmt fun db _ db' h hr => ?_
      cases hr
      exact h
  exact (hi.mapError _).andThen fun _ =>
    (hm.andThen fun us => (hu us).andThen fun _ => ho).transaction.mapError _

end Rows

theorem keeps_attempts_nodeEvents {K : Crates} {now : Time} {run : Uuid} {n : Nat}
    {events : List NodeEvent} {a : HashMap (Uuid × Int) AttemptRow} :
    Keeps (fun db : Db => db.attempts = a) (writeProg K now run n (.nodeEvents events)) :=
  ((Keeps.lift _).andThen fun _ => (Keeps.lift _).andThen fun _ =>
    ((Keeps.stmt fun _ _ _ h hr => by cases hr; exact h).mapError _).andThen fun _ =>
      keeps_attempts_writeRows).mapError _

/-- The program of a batch whose numbers fit their columns. -/
theorem handleNodeEvents_eq {K : Crates} {now : Time} {run : Uuid} {n : Nat} {attempt : Int}
    {events : List NodeEvent} {updates : List NodeUpdate} (ha : toI32 n = .ok attempt)
    (hu : events.mapM (eventRow K now) = .ok updates) :
    handleNodeEvents K now run n events =
      (getConn.mapError (.wrapErr "Error acquiring connection from pool")).andThen fun _ =>
        writeRows run attempt updates (events.flatMap eventInputs)
          (events.flatMap eventOutputs) := by
  unfold handleNodeEvents
  rw [ha, hu]
  rfl

end Tierkreis.Sql

namespace Tierkreis.SqliteRuntimeState

open Lib Lib.Txn Sql

/-- A write that fails has run its program and left the active runs alone. -/
theorem write_eq_error {K : Crates} {st st' : SqliteRuntimeState} {r : RunAttempt}
    {faults : Nat → Option Failure} {now : Time} {event : WorkflowRunEvent} {f : Failure} :
    st.write K r faults now event = (.error f, st') ↔
      ∃ s', writeProg K now r.1 r.2 event faults ⟨st.db, 0⟩ = (.error f, s') ∧
        st' = { st with db := s'.db } := by
  unfold write exec
  cases h : writeProg K now r.1 r.2 event faults ⟨st.db, 0⟩ with
  | mk res s =>
    cases res with
    | ok u => simp
    | error f' =>
      simp only [Prod.mk.injEq, Except.error.injEq]
      constructor
      · rintro ⟨rfl, rfl⟩
        exact ⟨s, ⟨rfl, rfl⟩, rfl⟩
      · rintro ⟨s', ⟨rfl, rfl⟩, rfl⟩
        exact ⟨rfl, rfl⟩

section Batch

variable {K : Crates} {st : SqliteRuntimeState} {r : RunAttempt} {faults : Nat → Option Failure}
  {now : Time} {events : List NodeEvent}

theorem getConn_apply (faults : Nat → Option Failure) (s : Session Db) :
    (getConn.mapError (.wrapErr "Error acquiring connection from pool")) faults s =
      match faults s.sent with
      | some f => (.error (f.wrapErr "Error acquiring connection from pool"), ⟨s.db, s.sent + 1⟩)
      | none => (.ok (), ⟨s.db, s.sent + 1⟩) := by
  unfold getConn Prog.mapError Prog.stmt
  cases faults s.sent <;> rfl

theorem writeProg_nodeEvents_eq :
    writeProg K now r.1 r.2 (.nodeEvents events) =
      (handleNodeEvents K now r.1 r.2 events).mapError (.wrapErr "Failed to handle Node event") :=
  rfl

/-- With a connection, a batch is its rows. -/
theorem writeProg_nodeEvents (st : SqliteRuntimeState) {attempt : Int} {updates : List NodeUpdate}
    (ha : toI32 r.2 = .ok attempt) (hu : events.mapM (eventRow K now) = .ok updates)
    (h0 : faults 0 = none) :
    writeProg K now r.1 r.2 (.nodeEvents events) faults ⟨st.db, 0⟩ =
      ((writeRows r.1 attempt updates (events.flatMap eventInputs)
        (events.flatMap eventOutputs)).mapError (.wrapErr "Failed to handle Node event"))
        faults ⟨st.db, 1⟩ := by
  rw [writeProg_nodeEvents_eq, handleNodeEvents_eq ha hu]
  simp only [Prog.mapError, Prog.andThen]
  have := getConn_apply faults ⟨st.db, 0⟩
  simp only [h0, Prog.mapError] at this
  rw [this]

/-- A session without outside failures. -/
def noFaults : Nat → Option Failure := fun _ => none

/-- Without outside failures a batch goes through exactly when its numbers fit their
columns and its input rows violate no constraint. -/
theorem write_nodeEvents_eq_ok {st' : SqliteRuntimeState} {attempt : Int}
    (ha : toI32 r.2 = .ok attempt) (hc : st.db.attempts.contains (r.1, attempt) = true) :
    st.write K r noFaults now (.nodeEvents events) = (.ok (), st') ↔
      ∃ updates, events.mapM (eventRow K now) = .ok updates ∧
        Storable st.db r.1 attempt (events.flatMap eventInputs) ∧
        st' = { db := (st.db.addInputs r.1 attempt (events.flatMap eventInputs)).applyBatch r.1
                  attempt updates (events.flatMap eventOutputs)
                watch := st.watch.update r false } := by
  cases hu : events.mapM (eventRow K now) with
  | error f =>
    have : ∃ f s', writeProg K now r.1 r.2 (.nodeEvents events) noFaults ⟨st.db, 0⟩ =
        (.error f, s') := by
      rw [writeProg_nodeEvents_eq]
      simp [handleNodeEvents, ha, hu, Prog.lift, Prog.ok, Prog.fail, Prog.andThen, Prog.mapError]
    obtain ⟨f', s', hp⟩ := this
    simp [write_eq_error.2 ⟨s', hp, rfl⟩]
  | ok updates =>
    simp only [Except.ok.injEq, exists_eq_left']
    have hw := writeProg_nodeEvents st ha hu (show noFaults 0 = none from rfl)
    by_cases hs : Storable st.db r.1 attempt (events.flatMap eventInputs)
    · rw [(((clean_writeRows hc hs (eventOutputs_mem hu)).mapError _) noFaults 1).1
        fun _ _ => rfl] at hw
      unfold write exec
      rw [hw]
      simp [hs, workflowUpdate, eq_comm]
    · obtain ⟨f, s', hb⟩ := (breaks_writeRows updates (events.flatMap eventOutputs)
        hs).mapError
        (.wrapErr "Failed to handle Node event") noFaults 1
      rw [hb] at hw
      simp [write_eq_error.2 ⟨s', hw, rfl⟩, hs]

/-- A workflow event sets its time, and decides whether its attempt is active. -/
theorem write_workflowEvent {attempt : Int} {row : AttemptRow} {e : WorkflowRunEvent}
    (ha : toI32 r.2 = .ok attempt) (hrow : st.db.attempts.get? (r.1, attempt) = some row)
    (he : ∀ events, e ≠ .nodeEvents events) :
    st.write K r noFaults now e = (.ok (),
      { db := st.db.putAttempt r.1 attempt (row.coalesce (workflowUpdate now e).1)
        watch := st.watch.update r (workflowUpdate now e).2 }) := by
  cases e with
  | nodeEvents events => exact absurd rfl (he events)
  | _ =>
    simp [write, exec, writeProg, ha, Prog.lift, Prog.ok, Prog.andThen, getConn, updateWorkflowRun,
      Prog.stmt, noFaults, hrow]

end Batch

end Tierkreis.SqliteRuntimeState
