import Tierkreis.State.InMemory
import Tierkreis.State.Batch
import Tierkreis.Lib.Run

/-!
# Terminal statuses of an attempt

Both stores fold the events of an attempt to three terminal times and the
membership in the active runs. A write decides that membership by the kind of
its event, not by the times, so node events that come after a terminal event
bring the attempt back, and terminal events of different kinds all leave their
time.
-/

namespace Tierkreis

open Lib Lib.Run

/-- What the summary and the active runs tell of an attempt. -/
structure AttemptStatus where
  completeTime : Option Time
  cancelledTime : Option Time
  errorTime : Option Time
  active : Prop

namespace AttemptStatus

def IsTerminal (s : AttemptStatus) : Prop :=
  s.completeTime ≠ none ∨ s.cancelledTime ≠ none ∨ s.errorTime ≠ none

/-- No two terminal times are set. -/
def AtMostOne (s : AttemptStatus) : Prop :=
  (s.completeTime = none ∨ s.cancelledTime = none) ∧
    (s.completeTime = none ∨ s.errorTime = none) ∧ (s.cancelledTime = none ∨ s.errorTime = none)

/-- The effect of a write that is accepted. -/
def step (s : AttemptStatus) (now : Time) : WorkflowRunEvent → AttemptStatus
  | .started | .queued | .nodeEvents _ => { s with active := True }
  | .paused => { s with active := False }
  | .cancelled => { s with cancelledTime := s.cancelledTime.or (some now), active := False }
  | .errored => { s with errorTime := s.errorTime.or (some now), active := False }
  | .completed => { s with completeTime := s.completeTime.or (some now), active := False }

/-- Node events do not bring a terminal attempt back or change its status, and no second
terminal time appears. -/
def Absorbs (before after : AttemptStatus) (e : WorkflowRunEvent) : Prop :=
  (∀ events, e = .nodeEvents events → before.IsTerminal →
    (after.active → before.active) ∧ after.completeTime = before.completeTime ∧
      after.cancelledTime = before.cancelledTime ∧ after.errorTime = before.errorTime) ∧
  after.AtMostOne

/-- An event that is not too late: node events that the store accepts come to an attempt
that is not terminal, or still active; a terminal event comes to an attempt without
the time of another kind. -/
def InTime (s : AttemptStatus) (accepted : Prop) : WorkflowRunEvent → Prop
  | .nodeEvents _ => s.IsTerminal → accepted → s.active
  | .completed => s.cancelledTime = none ∧ s.errorTime = none
  | .cancelled => s.completeTime = none ∧ s.errorTime = none
  | .errored => s.completeTime = none ∧ s.cancelledTime = none
  | _ => True

theorem step_absorbs_iff {s : AttemptStatus} (h : s.AtMostOne) (now : Time)
    (e : WorkflowRunEvent) : s.Absorbs (s.step now e) e ↔ s.InTime True e := by
  obtain ⟨c, k, f, a⟩ := s
  simp only [AtMostOne] at h
  cases e <;> simp [Absorbs, step, InTime, AtMostOne, IsTerminal, h]

/-- A write that is refused changes nothing. -/
theorem absorbs_self_iff {s : AttemptStatus} (h : s.AtMostOne) (e : WorkflowRunEvent) :
    s.Absorbs s e ↔ True := by
  refine iff_true_intro ⟨fun _ _ _ => ⟨id, rfl, rfl, rfl⟩, h⟩

end AttemptStatus

/-! ## Runs of a store -/

abbrev TimedEvent := Time × WorkflowRunEvent

/-- A store as a machine on timed events, seen through the status of one attempt. -/
structure StatusMachine (σ : Type) where
  write : σ → TimedEvent → σ
  status : σ → AttemptStatus
  accepted : σ → TimedEvent → Prop
  inv : σ → Prop
  inv_write : ∀ s e, inv s → inv (write s e)
  status_write : ∀ s e, inv s → accepted s e → status (write s e) = (status s).step e.1 e.2
  status_refused : ∀ s e, inv s → ¬accepted s e →
    status (write s e) = status s ∧ ∃ events, e.2 = .nodeEvents events

namespace StatusMachine

variable {σ : Type} (M : StatusMachine σ)

/-- In every state of the run, terminal statuses are absorbing. -/
def Absorbing (s : σ) (events : List TimedEvent) : Prop :=
  Along M.write (fun s e => (M.status s).Absorbs (M.status (M.write s e)) e.2) s events

/-- No event of the run comes too late. -/
def InTime (s : σ) (events : List TimedEvent) : Prop :=
  Along M.write (fun s e => (M.status s).InTime (M.accepted s e) e.2) s events

theorem absorbs_iff {s : σ} {e : TimedEvent} (hi : M.inv s) (h : (M.status s).AtMostOne) :
    (M.status s).Absorbs (M.status (M.write s e)) e.2 ↔
      (M.status s).InTime (M.accepted s e) e.2 := by
  by_cases ha : M.accepted s e
  · rw [M.status_write s e hi ha, AttemptStatus.step_absorbs_iff h]
    simp [ha]
  · obtain ⟨he, events, hn⟩ := M.status_refused s e hi ha
    rw [he, AttemptStatus.absorbs_self_iff h, hn]
    simp [AttemptStatus.InTime, ha]

theorem absorbing_iff {s : σ} (hi : M.inv s) (h : (M.status s).AtMostOne)
    (events : List TimedEvent) : M.Absorbing s events ↔ M.InTime s events := by
  refine along_iff (fun s => M.inv s ∧ (M.status s).AtMostOne)
    (fun s e hs => M.absorbs_iff hs.1 hs.2) (fun s e hs hq => ⟨M.inv_write s e hs.1, ?_⟩) ⟨hi, h⟩
  exact ((M.absorbs_iff hs.1 hs.2).2 hq).2

/-- Accepted node events right after a completion bring the attempt back. -/
theorem not_absorbing {s : σ} {now now' : Time} {events : List NodeEvent} (hi : M.inv s)
    (h : M.accepted s (now, .completed))
    (h' : M.accepted (M.write s (now, .completed)) (now', .nodeEvents events)) :
    ¬M.Absorbing s [(now, .completed), (now', .nodeEvents events)] := by
  rintro ⟨-, ⟨hback, -⟩, -⟩
  rw [M.status_write _ _ (M.inv_write _ _ hi) h', M.status_write _ _ hi h] at hback
  refine ((hback events rfl (.inl ?_)).1 trivial)
  simp [AttemptStatus.step]

end StatusMachine

/-! ## The in-memory store -/

namespace InMemoryRuntimeState

def status (r : RunAttempt) (st : InMemoryRuntimeState) : AttemptStatus where
  completeTime := (st.run r).completeTime
  cancelledTime := (st.run r).cancelledTime
  errorTime := (st.run r).errorTime
  active := r ∈ st.watch.activeRuns

theorem status_write (r : RunAttempt) (st : InMemoryRuntimeState) (now : Time)
    (e : WorkflowRunEvent) : (st.write r now e).status r = (st.status r).step now e := by
  cases e with
  | nodeEvents events =>
    simp only [status, run_write, RunAttemptState.writeEvent]
    rw [RunAttemptState.handleNodeEvents_frame]
    simp [AttemptStatus.step, mem_activeRuns_write, stops]
  | _ =>
    simp [status, RunAttemptState.writeEvent, AttemptStatus.step, mem_activeRuns_write, stops,
      InMemory.setOnce]

/-- Every write is accepted. -/
def machine (r : RunAttempt) : StatusMachine InMemoryRuntimeState where
  write st e := st.write r e.1 e.2
  status := status r
  accepted _ _ := True
  inv _ := True
  inv_write _ _ _ := trivial
  status_write st e _ _ := status_write r st e.1 e.2
  status_refused _ _ _ h := absurd trivial h

end InMemoryRuntimeState

/-! ## The SQLite store -/

namespace SqliteRuntimeState

open Lib.Txn Sql

def status (r : RunAttempt) (attempt : Int) (st : SqliteRuntimeState) : AttemptStatus where
  completeTime := ((st.db.attempts.get? (r.1, attempt)).getD {}).completeTime
  cancelledTime := ((st.db.attempts.get? (r.1, attempt)).getD {}).cancelledTime
  errorTime := ((st.db.attempts.get? (r.1, attempt)).getD {}).errorTime
  active := r ∈ st.watch.activeRuns

/-- What a batch must meet to be written: its numbers fit their columns and its input
rows violate no constraint. -/
def Accepts (K : Crates) (r : RunAttempt) (attempt : Int) (st : SqliteRuntimeState)
    (e : TimedEvent) : Prop :=
  ∀ events, e.2 = .nodeEvents events →
    (∃ updates, events.mapM (eventRow K e.1) = .ok updates) ∧
      Storable st.db r.1 attempt (events.flatMap eventInputs)

variable {K : Crates} {r : RunAttempt} {attempt : Int} {st : SqliteRuntimeState}

/-- Node events leave the table of attempts alone, also when they fail. -/
theorem attempts_nodeEvents (K : Crates) (r : RunAttempt) (st : SqliteRuntimeState)
    (faults : Nat → Option Failure) (now : Time) (events : List NodeEvent) :
    (st.write K r faults now (.nodeEvents events)).2.db.attempts = st.db.attempts := by
  have hkeeps : Lib.Txn.Keeps (fun db : Db => db.attempts = st.db.attempts)
      (writeProg K now r.1 r.2 (.nodeEvents events)) := keeps_attempts_nodeEvents
  have h := hkeeps faults ⟨st.db, 0⟩ rfl
  unfold write exec
  split <;> (rename_i hw; rw [← (Prod.mk.inj hw).2] at *; exact h)

/-- A refused batch of node events changes neither times nor active runs. -/
theorem status_refused (ha : toI32 r.2 = .ok attempt)
    (hc : st.db.attempts.contains (r.1, attempt) = true) (e : TimedEvent)
    (h : ¬Accepts K r attempt st e) :
    status r attempt (st.write K r noFaults e.1 e.2).2 = status r attempt st ∧
      ∃ events, e.2 = .nodeEvents events := by
  unfold Accepts at h
  simp only [not_forall] at h
  obtain ⟨events, he, hn⟩ := h
  refine ⟨?_, events, he⟩
  rw [he]
  cases hw : st.write K r noFaults e.1 (.nodeEvents events) with
  | mk res st' =>
    have hat := attempts_nodeEvents K r st noFaults e.1 events
    rw [hw] at hat
    cases res with
    | ok u =>
      obtain ⟨updates, hu, hs, -⟩ := (write_nodeEvents_eq_ok ha hc).1 hw
      exact absurd ⟨⟨updates, hu⟩, hs⟩ hn
    | error f =>
      obtain ⟨s', -, rfl⟩ := write_eq_error.1 hw
      simp only at hat
      simp only [status, hat]

theorem status_write (ha : toI32 r.2 = .ok attempt)
    (hc : st.db.attempts.contains (r.1, attempt) = true) (e : TimedEvent)
    (h : Accepts K r attempt st e) :
    status r attempt (st.write K r noFaults e.1 e.2).2 = (status r attempt st).step e.1 e.2 := by
  obtain ⟨now, e⟩ := e
  obtain ⟨row, hrow⟩ := Option.isSome_iff_exists.1 hc
  cases e with
  | nodeEvents events =>
    obtain ⟨⟨updates, hu⟩, hs⟩ := h events rfl
    have hat := attempts_nodeEvents K r st noFaults now events
    rw [(write_nodeEvents_eq_ok ha hc).2 ⟨updates, hu, hs, rfl⟩] at hat ⊢
    simp only at hat
    simp [status, AttemptStatus.step, hat, RuntimeWatchState.mem_update]
  | _ =>
    simp [write_workflowEvent ha hrow, status, AttemptStatus.step, RuntimeWatchState.mem_update,
      workflowUpdate, AttemptRow.coalesce, coalesce, hrow, Db.putAttempt]

/-- The attempt has a row, and its number fits the column. -/
def machine (K : Crates) (r : RunAttempt) (attempt : Int) (ha : toI32 r.2 = .ok attempt) :
    StatusMachine SqliteRuntimeState where
  write st e := (st.write K r noFaults e.1 e.2).2
  status := status r attempt
  accepted st e := Accepts K r attempt st e
  inv st := st.db.attempts.contains (r.1, attempt) = true
  inv_write st e hc := by
    obtain ⟨now, e⟩ := e
    cases e with
    | nodeEvents events => rwa [attempts_nodeEvents K r st noFaults now events]
    | _ =>
      obtain ⟨row, hrow⟩ := Option.isSome_iff_exists.1 hc
      simp [write_workflowEvent ha hrow, Db.putAttempt, HashMap.contains_insert]
  status_write _ e hc h := status_write ha hc e h
  status_refused _ e hc h := status_refused ha hc e h

end SqliteRuntimeState

/-- In both stores, from any attempt with at most one terminal time, terminal statuses
are absorbing along exactly the runs in which no event comes too late. -/
theorem terminal_absorbing_iff (K : Sql.Crates) (r : RunAttempt) (events : List TimedEvent) :
    (∀ st : InMemoryRuntimeState, (st.status r).AtMostOne →
      ((InMemoryRuntimeState.machine r).Absorbing st events ↔
        (InMemoryRuntimeState.machine r).InTime st events)) ∧
    ∀ (st : SqliteRuntimeState) (attempt : Int) (ha : Sql.toI32 r.2 = .ok attempt),
      st.db.attempts.contains (r.1, attempt) = true → (st.status r attempt).AtMostOne →
        ((SqliteRuntimeState.machine K r attempt ha).Absorbing st events ↔
          (SqliteRuntimeState.machine K r attempt ha).InTime st events) :=
  ⟨fun _ h => (InMemoryRuntimeState.machine r).absorbing_iff trivial h events,
    fun _ attempt ha hc h =>
      (SqliteRuntimeState.machine K r attempt ha).absorbing_iff hc h events⟩

/-- A new run of each store, and a late completion of a node. -/
def lateEvents : List TimedEvent :=
  [(1, .completed), (2, .nodeEvents [{ loc := [.node 1], name := none, status := .complete ∅ }])]

theorem terminal_absorbing_iff_new :
    ((InMemoryRuntimeState.machine (0, 0)).Absorbing InMemoryRuntimeState.startedRun lateEvents ↔
      (InMemoryRuntimeState.machine (0, 0)).InTime InMemoryRuntimeState.startedRun lateEvents) ∧
    ((SqliteRuntimeState.machine .zeroFill (0, 0) 0 rfl).Absorbing SqliteRuntimeState.startedRun
        lateEvents ↔
      (SqliteRuntimeState.machine .zeroFill (0, 0) 0 rfl).InTime SqliteRuntimeState.startedRun
        lateEvents) :=
  ⟨(terminal_absorbing_iff .zeroFill (0, 0) lateEvents).1 InMemoryRuntimeState.startedRun
      ⟨.inl rfl, .inl rfl, .inl rfl⟩,
    (terminal_absorbing_iff .zeroFill (0, 0) lateEvents).2 SqliteRuntimeState.startedRun 0 rfl rfl
      ⟨.inl rfl, .inl rfl, .inl rfl⟩⟩

theorem terminal_not_absorbing :
    ¬(InMemoryRuntimeState.machine (0, 0)).Absorbing InMemoryRuntimeState.startedRun lateEvents ∧
    ¬(SqliteRuntimeState.machine .zeroFill (0, 0) 0 rfl).Absorbing SqliteRuntimeState.startedRun
      lateEvents := by
  refine ⟨StatusMachine.not_absorbing _ trivial trivial trivial,
    StatusMachine.not_absorbing _ rfl ?_ ?_⟩
  · rintro events h
    cases h
  · rintro events h
    cases h
    exact ⟨⟨_, rfl⟩, by simp [Sql.Storable, Sql.eventInputs]⟩

end Tierkreis
