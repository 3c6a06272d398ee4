import Tierkreis.State.Batch

/-!
# Atomicity of a batch of node events

The rows of the node states and of the outputs are written in one transaction,
the rows of the subgraph inputs are not: each is inserted by a statement of its
own before the transaction begins. So a batch that fails after its first input
row went in leaves that row behind.
-/

namespace Tierkreis.Sql

open Lib Lib.Txn

/-- An input row that is stored stays stored. -/
theorem keeps_insertWorkflowRunInputs {run : Uuid} {attempt : Int} (i : NewInput)
    (inputs : List NewInput) :
    Keeps (fun db => db.hasInput run attempt i = true)
      (insertWorkflowRunInputs run attempt inputs) := by
  refine .each fun j _ => .stmt fun db a db' h hr => ?_
  obtain ⟨-, rfl⟩ := insertInput_eq_ok.1 hr
  rw [hasInput_addInput, h, Bool.or_true]

/-! ## The rows of a batch -/

section Rows

variable {run : Uuid} {attempt : Int} {updates : List NodeUpdate} {inputs : List NewInput}
  {outputs : List NewOutput}

theorem atomic_updateNodeState : Atomic (updateNodeState run attempt updates outputs) :=
  .transaction _

/-- Without input rows only the transaction is left. -/
theorem atomic_writeRows_nil : Atomic (writeRows run attempt updates [] outputs) :=
  .andThen (fun _ => (Keeps.ok ()).mapError _) fun _ => .mapError atomic_updateNodeState _

/-- A stored input row survives a batch that fails. -/
theorem writeRows_keeps {i : NewInput} {faults : Nat → Option Failure} {s s' : Session Db}
    {f : Failure} (hi : s.db.hasInput run attempt i = true)
    (h : writeRows run attempt updates inputs outputs faults s = (.error f, s')) :
    s'.db.hasInput run attempt i = true :=
  ((keeps_insertWorkflowRunInputs i inputs).mapError _).andThen_atomic
    (fun _ => .mapError atomic_updateNodeState _) hi h

/-- A first input row that does not go in ends the batch with nothing changed. -/
theorem writeRows_failsFirst (updates : List NodeUpdate) (inputs : List NewInput)
    (outputs : List NewOutput) {i : NewInput} {faults : Nat → Option Failure} {s : Session Db}
    (h : faults s.sent ≠ none ∨ s.db.hasInput run attempt i = true ∨
      s.db.attempts.contains (run, attempt) = false) :
    (writeRows run attempt updates (i :: inputs) outputs faults s).2.db = s.db := by
  have hf : ∃ f s', Prog.stmt (insertInput run attempt i) faults s = (.error f, s') := by
    unfold Prog.stmt
    rcases h with h | h
    · obtain ⟨f, hf⟩ := Option.ne_none_iff_exists'.1 h
      exact ⟨f, _, by rw [hf]⟩
    · cases faults s.sent with
      | some f => exact ⟨f, _, rfl⟩
      | none =>
        cases hi : insertInput run attempt i s.db with
        | error f => exact ⟨f, _, rfl⟩
        | ok out =>
          obtain ⟨⟨ha, hn⟩, -⟩ := insertInput_eq_ok.1 hi
          rcases h with h | h
          · rw [hn] at h; cases h
          · rw [ha] at h; cases h
  obtain ⟨f, s', hf⟩ := hf
  have hd := Atomic.stmt _ _ _ _ _ hf
  simp only [writeRows, insertWorkflowRunInputs, Prog.each, Prog.mapError, Prog.andThen, hf]
  exact hd

end Rows

/-- The statements of a batch that succeeds: one for the connection, one for each
input row, and those of the node rows and outputs. -/
def batchStatements (updates : List NodeUpdate) (events : List NodeEvent) : Nat :=
  1 + ((events.flatMap eventInputs).length +
    updateStatements updates (events.flatMap eventOutputs))

end Tierkreis.Sql

namespace Tierkreis

open Lib Lib.Txn Sql

/-- Node states, node outputs and stored inputs are as before. -/
def SameRows (db db' : Db) : Prop :=
  db'.nodeStates = db.nodeStates ∧ db'.nodeOutputs = db.nodeOutputs ∧ db'.inputs = db.inputs

/-- What comes before the rows fails: a number does not fit its column, or there is no
connection. -/
def FailsBefore (K : Crates) (r : RunAttempt) (faults : Nat → Option Failure) (now : Time)
    (events : List NodeEvent) : Prop :=
  (∃ f, toI32 r.2 = .error f) ∨ (∃ f, events.mapM (eventRow K now) = .error f) ∨ faults 0 ≠ none

/-- The first input row does not go in: its statement has a fault, it is stored
already, or the attempt does not exist. -/
def FailsFirst (db : Db) (r : RunAttempt) (faults : Nat → Option Failure)
    (events : List NodeEvent) : Prop :=
  ∃ attempt i is, toI32 r.2 = .ok attempt ∧ events.flatMap eventInputs = i :: is ∧
    (faults 1 ≠ none ∨ db.hasInput r.1 attempt i = true ∨
      db.attempts.contains (r.1, attempt) = false)

/-- Nothing fails: no statement has a fault, and no input row violates a constraint. -/
def FailsNowhere (K : Crates) (db : Db) (r : RunAttempt) (faults : Nat → Option Failure)
    (now : Time) (events : List NodeEvent) : Prop :=
  ∃ attempt updates, toI32 r.2 = .ok attempt ∧ events.mapM (eventRow K now) = .ok updates ∧
    Storable db r.1 attempt (events.flatMap eventInputs) ∧
    ∀ k < batchStatements updates events, faults k = none

theorem SameRows.of_eq {db db' : Db} (h : db' = db) : SameRows db db' := h ▸ ⟨rfl, rfl, rfl⟩

namespace SqliteRuntimeState

section Batch

variable {K : Crates} {st : SqliteRuntimeState} {r : RunAttempt} {faults : Nat → Option Failure}
  {now : Time} {events : List NodeEvent}

theorem writeProg_failsBefore (st : SqliteRuntimeState) (h : FailsBefore K r faults now events) :
    (writeProg K now r.1 r.2 (.nodeEvents events) faults ⟨st.db, 0⟩).2.db = st.db := by
  rw [writeProg_nodeEvents_eq]
  cases ha : toI32 r.2 with
  | error f => simp [handleNodeEvents, ha, Prog.lift, Prog.fail, Prog.andThen, Prog.mapError]
  | ok attempt =>
    cases hu : events.mapM (eventRow K now) with
    | error f => simp [handleNodeEvents, ha, hu, Prog.lift, Prog.ok, Prog.fail, Prog.andThen,
        Prog.mapError]
    | ok updates =>
      rcases h with ⟨f, h⟩ | ⟨f, h⟩ | h
      · rw [ha] at h; cases h
      · rw [hu] at h; cases h
      · obtain ⟨f, hf⟩ := Option.ne_none_iff_exists'.1 h
        rw [handleNodeEvents_eq ha hu]
        simp only [Prog.mapError, Prog.andThen]
        have := getConn_apply faults ⟨st.db, 0⟩
        simp only [hf, Prog.mapError] at this
        rw [this]

/-- A batch whose first input row goes in, and that does not run to its end, fails and
leaves that row stored. -/
theorem writeProg_partial {attempt : Int} {updates : List NodeUpdate} {i : NewInput}
    {is : List NewInput} (ha : toI32 r.2 = .ok attempt)
    (hu : events.mapM (eventRow K now) = .ok updates) (h0 : faults 0 = none)
    (hi : events.flatMap eventInputs = i :: is) (h1 : faults 1 = none)
    (hn : st.db.hasInput r.1 attempt i = false)
    (hc : st.db.attempts.contains (r.1, attempt) = true)
    (hb : ¬FailsNowhere K st.db r faults now events) :
    ∃ f s', writeProg K now r.1 r.2 (.nodeEvents events) faults ⟨st.db, 0⟩ = (.error f, s') ∧
      s'.db.hasInput r.1 attempt i = true := by
  rw [writeProg_nodeEvents st ha hu h0]
  -- the whole program fails, by a constraint or by a fault
  have he : ∃ f s', writeRows r.1 attempt updates (events.flatMap eventInputs)
      (events.flatMap eventOutputs) faults ⟨st.db, 1⟩ = (.error f, s') := by
    by_cases hs : Storable st.db r.1 attempt (events.flatMap eventInputs)
    · refine (clean_writeRows hc hs (eventOutputs_mem hu) faults 1).2 ?_
      by_contra hno
      refine hb ⟨attempt, updates, ha, hu, hs, fun k hk => ?_⟩
      cases k with
      | zero => exact h0
      | succ k =>
        by_contra hk'
        refine hno ⟨k, ?_, by rwa [Nat.add_comm]⟩
        unfold batchStatements at hk
        omega
    · exact breaks_writeRows updates (events.flatMap eventOutputs) hs faults 1
  obtain ⟨f, s', he⟩ := he
  refine ⟨_, s', by simp only [Prog.mapError, he]; rfl, ?_⟩
  -- the program after its first statement
  have hok := insertInput_eq_ok.2 ⟨⟨hc, hn⟩, rfl⟩
  have hrest : writeRows r.1 attempt updates is (events.flatMap eventOutputs) faults
      ⟨st.db.addInput r.1 attempt i, 2⟩ = (.error f, s') := by
    rw [← he, hi]
    simp only [writeRows, insertWorkflowRunInputs, Prog.each, Prog.mapError, Prog.andThen,
      Prog.stmt, h1, hok]
  exact writeRows_keeps (by rw [hasInput_addInput]; simp) hrest

end Batch

/-- A batch that fails leaves node states, outputs and stored inputs alone in exactly
these cases: it carries no inputs, it fails before its first input row is stored, or
it does not fail. -/
theorem write_nodeEvents_atomic_iff (K : Crates) (st : SqliteRuntimeState) (r : RunAttempt)
    (faults : Nat → Option Failure) (now : Time) (events : List NodeEvent) :
    (∀ f st', st.write K r faults now (.nodeEvents events) = (.error f, st') →
        SameRows st.db st'.db) ↔
      events.flatMap eventInputs = [] ∨ FailsBefore K r faults now events ∨
        FailsFirst st.db r faults events ∨ FailsNowhere K st.db r faults now events := by
  constructor
  · intro h
    by_contra hn
    simp only [not_or] at hn
    obtain ⟨hne, hbefore, hfirst, hnowhere⟩ := hn
    simp only [FailsBefore, not_or, not_exists, not_not] at hbefore
    obtain ⟨ha, hu, h0⟩ := hbefore
    cases ha' : toI32 r.2 with
    | error f => exact ha f ha'
    | ok attempt =>
    cases hu' : events.mapM (eventRow K now) with
    | error f => exact hu f hu'
    | ok updates =>
    obtain ⟨i, is, hi⟩ := List.exists_cons_of_ne_nil hne
    have hf : ¬(faults 1 ≠ none ∨ st.db.hasInput r.1 attempt i = true ∨
        st.db.attempts.contains (r.1, attempt) = false) :=
      fun hf => hfirst ⟨attempt, i, is, ha', hi, hf⟩
    simp only [not_or, not_not, Bool.not_eq_true, Bool.not_eq_false] at hf
    obtain ⟨h1, hno, hc⟩ := hf
    obtain ⟨f, s', hw, hin⟩ := writeProg_partial ha' hu' h0 hi h1 hno hc hnowhere
    have hsame := h f _ (write_eq_error.2 ⟨s', hw, rfl⟩)
    unfold Db.hasInput at hno hin
    rw [hsame.2.2, hno] at hin
    cases hin
  · intro h f st' hw
    obtain ⟨s', hp, rfl⟩ := write_eq_error.1 hw
    by_cases hb : FailsBefore K r faults now events
    · refine .of_eq ?_
      have := writeProg_failsBefore st hb
      rwa [hp] at this
    simp only [FailsBefore, not_or, not_exists, not_not] at hb
    obtain ⟨ha, hu, h0⟩ := hb
    cases ha' : toI32 r.2 with
    | error f => exact absurd ha' (ha f)
    | ok attempt =>
    cases hu' : events.mapM (eventRow K now) with
    | error f => exact absurd hu' (hu f)
    | ok updates =>
    rw [writeProg_nodeEvents st ha' hu' h0] at hp
    by_cases hi : events.flatMap eventInputs = []
    · rw [hi] at hp
      exact .of_eq ((atomic_writeRows_nil.mapError _) _ _ _ _ hp)
    rcases h with h | hb | ⟨attempt', i, is, ha'', hi, hf⟩ | ⟨attempt', updates', ha'', hu'', hs, hf⟩
    · exact absurd h hi
    · rcases hb with ⟨f, hb⟩ | ⟨f, hb⟩ | hb
      · exact absurd hb (ha f)
      · exact absurd hb (hu f)
      · exact absurd h0 hb
    · rw [ha'] at ha''
      cases ha''
      rw [hi] at hp
      have := writeRows_failsFirst updates is (events.flatMap eventOutputs) (s := ⟨st.db, 1⟩) hf
      refine .of_eq ?_
      unfold Prog.mapError at hp
      split at hp
      · cases hp
      · rename_i hr
        cases hp
        rwa [hr] at this
    · rw [ha'] at ha''
      cases ha''
      rw [hu'] at hu''
      cases hu''
      obtain ⟨i, hmem⟩ := List.exists_mem_of_ne_nil _ hi
      have hcl := clean_writeRows (hs.1 i hmem).1 hs (eventOutputs_mem hu')
      rw [((hcl.mapError _) faults 1).1 fun k hk => hf _ (by unfold batchStatements; omega)] at hp
      cases hp

/-- A node with two inputs, and a database that is locked when the second is inserted. -/
def evallingEvent : NodeEvent where
  loc := [.node 1]
  name := none
  status := .running (some (.evalling (.ofList [("a", memorySpec), ("b", memorySpec)])))

def lockedAtThird : Nat → Option Failure := fun k =>
  if k = 2 then some (.miette "database is locked") else none

theorem write_nodeEvents_not_atomic :
    ∃ f st', startedRun.write .zeroFill (0, 0) lockedAtThird 0 (.nodeEvents [evallingEvent]) =
        (.error f, st') ∧
      ¬ SameRows startedRun.db st'.db := by
  refine ⟨_, _, rfl, fun hs => ?_⟩
  have hin := congrArg (fun m => (Db.rowsAt m (0, 0, [.node 1])).contains "b") hs.2.2
  exact absurd hin (by decide)

end SqliteRuntimeState

end Tierkreis
