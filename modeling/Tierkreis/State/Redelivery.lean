import Tierkreis.State.Batch

/-!
# Delivering an event again

The orchestrator sends the running event of a container again on every pass that
does not see the first one stored. Its row columns may be written twice, the
inputs it carries may not.
-/

namespace Tierkreis

open Lib Lib.Txn Sql

/-- The events that tell that a container runs. -/
def NodeStatus.isContainerRunning : NodeStatus → Bool
  | .running (some (.evalling _)) | .running (some (.looping ..))
  | .running (some (.mapStarted _)) => true
  | _ => false

/-- The numbers of the event fit their columns. -/
def NodeStatus.Fits : NodeStatus → Prop
  | .running (some (.looping index _)) => index < 2 ^ 31
  | .running (some (.mapStarted inputSets)) => inputSets.length < 2 ^ 31
  | _ => True

namespace Sql

theorem orBytes_self : ∀ xs : List Byte, orBytes xs xs = xs
  | [] => rfl
  | x :: xs => by rw [orBytes, orBytes_self xs, BitVec.or_self]

theorem orBytes_orBytes : ∀ xs ys : List Byte, orBytes xs (orBytes xs ys) = orBytes xs ys
  | [], ys => by cases ys <;> rfl
  | x :: xs, [] => orBytes_self _
  | x :: xs, y :: ys => by
    rw [orBytes, orBytes, orBytes_orBytes xs ys, ← BitVec.or_assoc, BitVec.or_self]

theorem or_or_self {α : Type} (x y : Option α) : (x.or y).or y = x.or y := by
  cases x <;> cases y <;> rfl

theorem or_self_or {α : Type} (x y : Option α) : x.or (x.or y) = x.or y := by
  cases x <;> rfl

/-- The columns of a running event. -/
def runningRow (name : Option String) (now : Time) (loopIndex mapSize : Option Int)
    (mapCompleted : Option (List Byte)) : NodeRow :=
  { name := name, runningTime := some now, loopIndex := loopIndex, mapSize := mapSize
    mapCompleted := mapCompleted }

theorem eventColumns_running {K : Crates} {e : NodeEvent}
    (h : e.status.isContainerRunning = true) (hf : e.status.Fits) :
    ∃ loopIndex mapSize mapCompleted, ∀ now, eventColumns K now e =
      .ok (runningRow e.name now loopIndex mapSize mapCompleted) := by
  obtain ⟨loc, name, status⟩ := e
  cases status with
  | running update =>
    rcases update with _ | _ | _ | ⟨index, inputs⟩ | inputSets | _ <;>
      simp only [NodeStatus.isContainerRunning, reduceCtorEq] at h
    · exact ⟨none, none, none, fun _ => rfl⟩
    · have hi : toI32 index = .ok (index : Int) := if_pos hf
      exact ⟨some index, none, none, fun _ => by simp [eventColumns, hi, Except.map, runningRow]⟩
    · have hs : toI32 inputSets.length = .ok (inputSets.length : Int) := if_pos hf
      exact ⟨none, some inputSets.length, some (K.intoVec (List.replicate inputSets.length false)),
        fun _ => by simp [eventColumns, hs, Except.map, runningRow]⟩
  | _ => simp [NodeStatus.isContainerRunning] at h

theorem fits_of_eventColumns {K : Crates} {now : Time} {e : NodeEvent} {row : NodeRow}
    (h : eventColumns K now e = .ok row) : e.status.Fits := by
  obtain ⟨loc, name, status⟩ := e
  cases status with
  | running update =>
    rcases update with _ | _ | _ | ⟨index, inputs⟩ | inputSets | _
    · trivial
    · trivial
    · trivial
    · change index < 2 ^ 31
      by_contra hn
      simp only [eventColumns, toI32, if_neg hn] at h
      cases h
    · change inputSets.length < 2 ^ 31
      by_contra hn
      simp only [eventColumns, toI32, if_neg hn] at h
      cases h
    · trivial
  | _ => trivial

/-- The row of a running event is written once and for all. -/
theorem upsert_running_again (old : Option NodeRow) (name : Option String) (now now' : Time)
    (loopIndex mapSize : Option Int) (mapCompleted : Option (List Byte)) :
    let first := NodeRow.upsert old
      ((runningRow name now loopIndex mapSize mapCompleted).mergeBits (old.bind NodeRow.mapCompleted))
    first.onConflict ((runningRow name now' loopIndex mapSize mapCompleted).mergeBits
      first.mapCompleted) = first := by
  rcases old with _ | old
  · cases mapCompleted with
    | none => simp [NodeRow.upsert, NodeRow.mergeBits, NodeRow.onConflict, runningRow]
    | some bits =>
      simp [NodeRow.upsert, NodeRow.mergeBits, NodeRow.onConflict, runningRow, orBytes_self]
  · cases mapCompleted with
    | none =>
      simp [NodeRow.upsert, NodeRow.mergeBits, NodeRow.onConflict, runningRow, or_or_self, or_self_or]
    | some bits =>
      cases hm : old.mapCompleted with
      | none =>
        simp [NodeRow.upsert, NodeRow.mergeBits, NodeRow.onConflict, runningRow, or_or_self,
          or_self_or, orBytes_self, hm]
      | some stored =>
        simp [NodeRow.upsert, NodeRow.mergeBits, NodeRow.onConflict, runningRow, or_or_self,
          or_self_or, orBytes_orBytes, hm]

theorem hasInput_addInputs {run : Uuid} {attempt : Int} {i : NewInput} {inputs : List NewInput} :
    ∀ {db : Db}, i ∈ inputs ∨ db.hasInput run attempt i = true →
      (db.addInputs run attempt inputs).hasInput run attempt i = true := by
  induction inputs with
  | nil => exact fun h => h.resolve_left List.not_mem_nil
  | cons j inputs ih =>
    intro db h
    rw [Db.addInputs, List.foldl_cons, ← Db.addInputs]
    refine ih ?_
    rw [hasInput_addInput]
    rcases h with h | h
    · rcases List.mem_cons.1 h with rfl | h
      · exact .inr (by simp)
      · exact .inl h
    · exact .inr (by rw [h, Bool.or_true])

theorem eventOutputs_running {e : NodeEvent} (h : e.status.isContainerRunning = true) :
    eventOutputs e = [] := by
  unfold eventOutputs
  split
  · rename_i hs
    rw [hs] at h
    cases h
  · rfl

/-- One row update, as a batch. -/
theorem applyBatch_singleton (db : Db) (run : Uuid) (attempt : Int) (u : NodeUpdate) :
    db.applyBatch run attempt [u] [] = db.upsert run attempt (mergeMapComplete db run attempt u) :=
  rfl

/-- The rows of a running event are the same after a second delivery. -/
theorem applyBatch_running_again (db : Db) (run : Uuid) (attempt : Int) (loc : Location)
    (name : Option String) (now now' : Time) (loopIndex mapSize : Option Int)
    (mapCompleted : Option (List Byte)) :
    let db' := db.applyBatch run attempt [(loc, runningRow name now loopIndex mapSize mapCompleted)] []
    db'.applyBatch run attempt [(loc, runningRow name now' loopIndex mapSize mapCompleted)] [] =
      db' := by
  dsimp only
  have h := upsert_running_again (db.nodeStates.get? (run, attempt, loc)) name now now' loopIndex
    mapSize mapCompleted
  dsimp only at h
  simp only [applyBatch_singleton, Db.upsert, upsertRow, mergeMapComplete, storedBits,
    HashMap.get?_insert_self, Option.bind_some]
  congr 1
  refine (AList.insert_insert _).trans ?_
  congr 1

end Sql

namespace SqliteRuntimeState

variable {K : Crates} {st : SqliteRuntimeState} {r : RunAttempt} {attempt : Int} {e : NodeEvent}

theorem mapM_eventRow {now : Time} {updates : List NodeUpdate} :
    [e].mapM (eventRow K now) = .ok updates ↔
      ∃ row, eventColumns K now e = .ok row ∧ updates = [(e.loc, row)] := by
  rw [List.mapM_cons, List.mapM_nil, eventRow]
  cases eventColumns K now e with
  | error f => simp [Except.map, bind, Except.bind]
  | ok row =>
    simp [Except.map, bind, Except.bind, pure, Except.pure, eq_comm]

/-- A running event is accepted twice, and the second time without effect, exactly when it
carries no inputs. -/
theorem write_running_twice_iff (ha : toI32 r.2 = .ok attempt)
    (hc : st.db.attempts.contains (r.1, attempt) = true)
    (he : e.status.isContainerRunning = true) (now now' : Time) :
    (∃ st', st.write K r noFaults now (.nodeEvents [e]) = (.ok (), st') ∧
        st'.write K r noFaults now' (.nodeEvents [e]) = (.ok (), st')) ↔
      eventInputs e = [] ∧ e.status.Fits := by
  have ho : [e].flatMap eventOutputs = [] := by
    rw [List.flatMap_singleton, eventOutputs_running he]
  constructor
  · rintro ⟨st', h₁, h₂⟩
    obtain ⟨updates, hu, -, rfl⟩ := (write_nodeEvents_eq_ok ha hc).1 h₁
    obtain ⟨row, hrow, rfl⟩ := mapM_eventRow.1 hu
    refine ⟨?_, fits_of_eventColumns hrow⟩
    rw [List.flatMap_singleton, ho] at h₂
    by_contra hne
    obtain ⟨i, hi⟩ := List.exists_mem_of_ne_nil _ hne
    have hc' : ((st.db.addInputs r.1 attempt (eventInputs e)).applyBatch r.1 attempt [(e.loc, row)]
        []).attempts.contains (r.1, attempt) = true := by
      rw [applyBatch_singleton, Db.upsert, addInputs_frame]
      exact hc
    obtain ⟨-, -, ⟨hs, -⟩, -⟩ := (write_nodeEvents_eq_ok ha hc').1 h₂
    rw [List.flatMap_singleton] at hs
    have hstored : (st.db.addInputs r.1 attempt (eventInputs e)).hasInput r.1 attempt i = true :=
      hasInput_addInputs (.inl hi)
    have := (hs i hi).2
    rw [applyBatch_singleton] at this
    exact absurd (hstored.symm.trans this) (by simp)
  · rintro ⟨hi, hf⟩
    obtain ⟨loopIndex, mapSize, mapCompleted, hcol⟩ := eventColumns_running (K := K) he hf
    have hi' : [e].flatMap eventInputs = [] := by rw [List.flatMap_singleton, hi]
    have hstore : ∀ db : Db, Storable db r.1 attempt [] :=
      fun db => ⟨fun i hi => (List.not_mem_nil hi).elim, List.nodup_nil⟩
    refine ⟨_, (write_nodeEvents_eq_ok ha hc).2 ⟨_, mapM_eventRow.2 ⟨_, hcol now, rfl⟩,
      by rw [hi']; exact hstore _, rfl⟩, ?_⟩
    rw [hi', ho]
    refine (write_nodeEvents_eq_ok ha ?_).2 ⟨_, mapM_eventRow.2 ⟨_, hcol now', rfl⟩,
      by rw [hi']; exact hstore _, ?_⟩
    · exact hc
    · rw [hi', ho]
      have hdb := applyBatch_running_again st.db r.1 attempt e.loc e.name now now' loopIndex mapSize
        mapCompleted
      dsimp only at hdb
      simp only [Db.addInputs, List.foldl_nil, hdb, RuntimeWatchState.update, Bool.false_eq_true,
        if_false, Finset.insert_idem]

end SqliteRuntimeState

end Tierkreis
