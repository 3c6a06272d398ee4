import Tierkreis.State.Batching
import Tierkreis.State.Redelivery

/-!
# The bits of a map in the database

The bits are packed into bytes, merged bytewise, and cut to the recorded size when
they are read. Whatever the last byte has past the end, what is read back is the or
of all updates.
-/

namespace Tierkreis

open Lib Lib.Txn Sql

namespace Sql

/-- A node that can be read, with a map whose bits are `m`. -/
structure MapRow (K : Crates) (db : Db) (run : Uuid) (attempt : Int) (loc : Location)
    (row : NodeRow) (m : List Bool) : Prop where
  stored : db.nodeStates.get? (run, attempt, loc) = some row
  bits : MapAgrees (some m) row.mapSize row.mapCompleted
  loopIndex : ∃ i, readLoopIndex row = .ok i
  outputs : ∃ o, readOutputs K row (Db.rowsAt db.nodeOutputs (run, attempt, loc)) = .ok o

variable {K : Crates} {db : Db} {run : Uuid} {attempt : Int} {loc : Location} {row : NodeRow}
  {m bits : List Bool}

theorem toNodeState_eq_ok {outputs : HashMap String AssetRow} :
    (∃ s, toNodeState K row outputs = .ok s) ↔ (∃ i, readLoopIndex row = .ok i) ∧
      (∃ b, readMapCompleted row = .ok b) ∧ ∃ o, readOutputs K row outputs = .ok o := by
  unfold toNodeState
  constructor
  · rintro ⟨s, h⟩
    obtain ⟨i, hi, h⟩ := Result.bind_eq_ok.1 h
    obtain ⟨b, hb, h⟩ := Result.bind_eq_ok.1 h
    obtain ⟨o, ho, -⟩ := Result.bind_eq_ok.1 h
    exact ⟨⟨i, hi⟩, ⟨b, hb⟩, o, ho⟩
  · rintro ⟨⟨i, hi⟩, ⟨b, hb⟩, o, ho⟩
    rw [hi, hb, ho]
    exact ⟨_, rfl⟩

theorem MapRow.read (h : MapRow K db run attempt loc row m) :
    ∃ s, readNodeState K db run attempt loc = .ok s ∧ s.mapCompleted = some m := by
  obtain ⟨i, hi⟩ := h.loopIndex
  obtain ⟨o, ho⟩ := h.outputs
  unfold readNodeState
  rw [h.stored]
  simp only [toNodeState, hi, h.bits.read, ho, bind, Except.bind, pure, Except.pure]
  exact ⟨_, rfl, rfl⟩

/-- An update of the bits is or'ed into what is stored. -/
theorem MapRow.merge (h : MapRow K db run attempt loc row m) (hl : bits.length = m.length)
    (name : Option String) (now : Time) :
    ∃ row', MapRow K (db.upsert run attempt (mergeMapComplete db run attempt
      (loc, runningRow name now none none (some (K.intoVec bits)))))
      run attempt loc row' (bitorAssign m bits) := by
  obtain ⟨hsize, b, hb, ht⟩ := h.bits
  have hm := h.bits.merge (K := K) bits (Nat.le_of_eq hl.symm)
  rw [hb] at hm
  obtain ⟨i, hi⟩ := h.loopIndex
  obtain ⟨o, ho⟩ := h.outputs
  refine ⟨row.onConflict (runningRow name now none none (some (orBytes (K.intoVec bits) b))),
    ?_, ?_, ⟨i, ?_⟩, o, ?_⟩
  · simp only [Db.upsert, upsertRow, mergeMapComplete, storedBits, h.stored, NodeRow.mergeBits, hb,
      runningRow, Option.bind_some, HashMap.get?_insert_self, NodeRow.upsert]
  · simpa [NodeRow.onConflict, runningRow] using hm
  · simpa [readLoopIndex, NodeRow.onConflict, runningRow] using hi
  · change readOutputs K _ (Db.rowsAt db.nodeOutputs (run, attempt, loc)) = _
    simpa [readOutputs, NodeRow.onConflict, runningRow] using ho

/-- Where no map has started, the start of one with `n` elements stores so many zeros. -/
theorem MapRow.start {n : Nat} {s : NodeState}
    (hr : readNodeState K db run attempt loc = .ok s)
    (hn : ∀ row, db.nodeStates.get? (run, attempt, loc) = some row →
      row.mapSize = none ∧ row.mapCompleted = none)
    (name : Option String) (now : Time) :
    ∃ row', MapRow K (db.upsert run attempt (mergeMapComplete db run attempt
      (loc, runningRow name now none (some (n : Int)) (some (K.intoVec (List.replicate n false))))))
      run attempt loc row' (List.replicate n false) := by
  have hbits : MapAgrees (some (List.replicate n false)) (some (n : Int))
      (some (K.intoVec (List.replicate n false))) :=
    ⟨by rw [List.length_replicate], _, rfl, K.take_fromSlice _⟩
  unfold readNodeState at hr
  cases hrow : db.nodeStates.get? (run, attempt, loc) with
  | none =>
    refine ⟨runningRow name now none (some (n : Int)) (some (K.intoVec (List.replicate n false))),
      ?_, hbits, ⟨none, rfl⟩, none, rfl⟩
    simp only [Db.upsert, upsertRow, mergeMapComplete, storedBits, hrow, NodeRow.mergeBits,
      runningRow, Option.bind_none, HashMap.get?_insert_self, NodeRow.upsert]
  | some row =>
    rw [hrow] at hr
    obtain ⟨⟨i, hi⟩, -, o, ho⟩ := toNodeState_eq_ok.1 ⟨s, hr⟩
    obtain ⟨hsize, hblob⟩ := hn row hrow
    refine ⟨row.onConflict (runningRow name now none (some (n : Int))
      (some (K.intoVec (List.replicate n false)))), ?_, ?_, ⟨i, ?_⟩, o, ?_⟩
    · simp only [Db.upsert, upsertRow, mergeMapComplete, storedBits, hrow, NodeRow.mergeBits,
        hblob, runningRow, Option.bind_some, HashMap.get?_insert_self, NodeRow.upsert]
    · simpa [NodeRow.onConflict, runningRow, hsize] using hbits
    · simpa [readLoopIndex, NodeRow.onConflict, runningRow] using hi
    · change readOutputs K _ (Db.rowsAt db.nodeOutputs (run, attempt, loc)) = _
      simpa [readOutputs, NodeRow.onConflict, runningRow] using ho

end Sql

/-- Bits of a map that come in a write of their own. -/
structure BitsWrite where
  now : Time
  name : Option String
  bits : List Bool

namespace SqliteRuntimeState

variable (K : Crates) (r : RunAttempt) (loc : Location)

def BitsWrite.events (w : BitsWrite) : WorkflowRunEvent :=
  .nodeEvents [⟨loc, w.name, .running (some (.mapElemComplete w.bits))⟩]

/-- The updates of a map, one after another. -/
def writeBits (st : SqliteRuntimeState) : List BitsWrite → Result SqliteRuntimeState
  | [] => .ok st
  | w :: ws =>
    match st.write K r noFaults w.now (BitsWrite.events loc w) with
    | (.ok (), st') => writeBits st' ws
    | (.error f, _) => .error f

variable {K r loc} {st st' : SqliteRuntimeState} {attempt : Int} {m : List Bool} {row : NodeRow}

/-- One write of bits. -/
theorem write_bits (ha : toI32 r.2 = .ok attempt)
    (h : MapRow K st.db r.1 attempt loc row m) (w : BitsWrite) (hl : w.bits.length = m.length) :
    ∃ st' row', st.write K r noFaults w.now (BitsWrite.events loc w) = (.ok (), st') ∧
      MapRow K st'.db r.1 attempt loc row' (bitorAssign m w.bits) := by
  obtain ⟨row', hrow'⟩ := h.merge hl w.name w.now
  refine ⟨_, row', write_nodeEvents_iff.2 ⟨attempt, _, ha, .cons rfl .nil, ?_, ⟨?_, .nil⟩, rfl⟩,
    hrow'⟩
  · intro u hu
    rw [List.mem_singleton.1 hu]
    simp [Db.takesNode, HashMap.contains, h.stored]
  · intro i hi
    cases hi

/-- The bits that are set after some updates. -/
def orBits (m : List Bool) (ws : List BitsWrite) : List Bool :=
  ws.foldl (fun m w => bitorAssign m w.bits) m

theorem writeBits_mapRow (ha : toI32 r.2 = .ok attempt) (ws : List BitsWrite) :
    ∀ (st : SqliteRuntimeState) {row : NodeRow} {m : List Bool},
      MapRow K st.db r.1 attempt loc row m → (∀ w ∈ ws, w.bits.length = m.length) →
      ∃ st' row', writeBits K r loc st ws = .ok st' ∧
        MapRow K st'.db r.1 attempt loc row' (orBits m ws) := by
  induction ws with
  | nil => exact fun _ _ _ h _ => ⟨_, _, rfl, h⟩
  | cons w ws ih =>
    intro st row m h hl
    obtain ⟨st₁, row₁, hw, h₁⟩ := write_bits ha h w (hl w (.head _))
    obtain ⟨st₂, row₂, hws, h₂⟩ := ih st₁ h₁ fun v hv => by
      rw [length_bitorAssign]
      exact hl v (.tail _ hv)
    refine ⟨st₂, row₂, ?_, h₂⟩
    rw [writeBits, hw]
    exact hws

theorem length_orBits {ws : List BitsWrite} : ∀ m, (orBits m ws).length = m.length := by
  induction ws with
  | nil => exact fun _ => rfl
  | cons w ws ih =>
    intro m
    rw [orBits, List.foldl_cons, ← orBits, ih, length_bitorAssign]

theorem getElem?_orBits {ws : List BitsWrite} {i : Nat} :
    ∀ m, (orBits m ws)[i]? = m[i]?.map fun x => x || ws.any fun w => w.bits[i]?.getD false := by
  induction ws with
  | nil =>
    intro m
    simp [orBits]
  | cons w ws ih =>
    intro m
    rw [orBits, List.foldl_cons, ← orBits, ih, getElem?_bitorAssign, List.any_cons]
    cases m[i]? with
    | none => rfl
    | some x => simp [Bool.or_assoc]

/-- From the start of a map on, what is read back is the or of the updates at each of its
elements, and nothing past them. -/
theorem map_bits_codec {name : Option String} {now : Time} {inputSets : List Specs} {s : NodeState}
    (hr : st.read K r loc = .ok s)
    (hn : ∀ attempt row, st.db.nodeStates.get? (r.1, attempt, loc) = some row →
      row.mapSize = none ∧ row.mapCompleted = none)
    (hw : st.write K r noFaults now
      (.nodeEvents [⟨loc, name, .running (some (.mapStarted inputSets))⟩]) = (.ok (), st'))
    (ws : List BitsWrite) (hl : ∀ w ∈ ws, w.bits.length = inputSets.length) :
    ∃ st'' s'' bits, writeBits K r loc st' ws = .ok st'' ∧ st''.read K r loc = .ok s'' ∧
      s''.mapCompleted = some bits ∧ bits.length = inputSets.length ∧
      ∀ i < inputSets.length, bits[i]? = some (ws.any fun w => w.bits[i]?.getD false) := by
  obtain ⟨attempt, updates, ha, hus, -, -, rfl⟩ := write_nodeEvents_iff.1 hw
  obtain ⟨u, _, hu, hnil, rfl⟩ := List.forall₂_cons_left_iff.1 hus
  rw [List.forall₂_nil_left_iff] at hnil
  subst hnil
  obtain ⟨row, hrow, rfl⟩ := eventRow_eq_ok.1 hu
  obtain ⟨size, hsize, rfl⟩ : ∃ size, toI32 inputSets.length = .ok size ∧
      row = runningRow name now none (some size)
        (some (K.intoVec (List.replicate inputSets.length false))) := by
    unfold eventColumns at hrow
    cases ht : toI32 inputSets.length with
    | error f => simp [ht, Except.map] at hrow
    | ok size =>
      simp only [ht, Except.map, Except.ok.injEq] at hrow
      exact ⟨size, rfl, hrow.symm⟩
  obtain ⟨-, rfl⟩ := toI32_eq_ok.1 hsize
  have hread : readNodeState K (st.db.addInputs r.1 attempt
      ([(⟨loc, name, .running (some (.mapStarted inputSets))⟩ : NodeEvent)].flatMap eventInputs))
      r.1 attempt loc = .ok s := by
    unfold read at hr
    rw [ha] at hr
    rw [addInputs_frame]
    exact hr
  have hnone : ∀ row, (st.db.addInputs r.1 attempt
      ([(⟨loc, name, .running (some (.mapStarted inputSets))⟩ : NodeEvent)].flatMap
        eventInputs)).nodeStates.get? (r.1, attempt, loc) = some row →
      row.mapSize = none ∧ row.mapCompleted = none := by
    rw [addInputs_frame]
    exact hn attempt
  obtain ⟨row', hstart⟩ := MapRow.start (n := inputSets.length) hread hnone name now
  obtain ⟨st'', row'', hws, hmap⟩ := writeBits_mapRow ha ws
    { db := _, watch := st.watch.update r false } hstart (by simpa using hl)
  obtain ⟨s'', hs, hbits⟩ := hmap.read
  refine ⟨st'', s'', _, hws, ?_, hbits, ?_, ?_⟩
  · unfold read
    rw [ha]
    exact hs
  · rw [length_orBits, List.length_replicate]
  · intro i hi
    rw [getElem?_orBits, List.getElem?_replicate, if_pos hi]
    rfl

/-- A map of three elements, two of which report. -/
theorem map_bits_codec_three :
    ∃ st' st'' s'' bits,
      startedRun.write .zeroFill (0, 0) noFaults 1 (.nodeEvents
        [⟨[.node 1], none, .running (some (.mapStarted [∅, ∅, ∅]))⟩]) = (.ok (), st') ∧
      writeBits .zeroFill (0, 0) [.node 1] st'
        [⟨2, none, [true, false, false]⟩, ⟨3, none, [false, false, true]⟩] = .ok st'' ∧
      st''.read .zeroFill (0, 0) [.node 1] = .ok s'' ∧ s''.mapCompleted = some bits ∧
      bits = [true, false, true] := by
  have hok : Accepts .zeroFill startedRun.db (0, 0)
      [⟨[.node 1], none, .running (some (.mapStarted [∅, ∅, ∅]))⟩] := by
    refine ⟨0, rfl, ?_, fun i hi => (by cases hi), List.nodup_nil⟩
    intro e he
    rw [List.mem_singleton.1 he]
    exact ⟨⟨_, rfl⟩, rfl⟩
  have hw : ∃ st', startedRun.write .zeroFill (0, 0) noFaults 1 (.nodeEvents
      [⟨[.node 1], none, .running (some (.mapStarted [∅, ∅, ∅]))⟩]) = (.ok (), st') :=
    write_isOk_iff.2 hok
  obtain ⟨st', hst'⟩ := hw
  obtain ⟨st'', s'', bits, hws, hr, hb, hl, hi⟩ := map_bits_codec rfl
    (by intro attempt row h; cases h) hst'
    [⟨2, none, [true, false, false]⟩, ⟨3, none, [false, false, true]⟩] (by simp)
  refine ⟨st', st'', s'', bits, hst', hws, hr, hb, ?_⟩
  match bits, hl, hi with
  | [a, b, c], _, hi =>
    have ha := hi 0 (by decide)
    have hb := hi 1 (by decide)
    have hc := hi 2 (by decide)
    simp at ha hb hc
    rw [ha, hb, hc]

end SqliteRuntimeState

end Tierkreis
