import Tierkreis.Restart.SqliteAttempts

/-!
# The numbers of the attempts

`load_workflow_run_state` makes an entry for an attempt that is not there in
memory, where the next attempt then looks for its place. SQLite refuses to load
such an attempt.
-/

namespace Tierkreis

open Lib Lib.Run Sql

namespace InMemoryStore

/-- A history that loads what is there only leaves the attempts numbered, as it would
without its loads. -/
theorem along_numbered {calls : List HistoryCall}
    (h : Along step (fun p c => Allowed p c ∧ LoadsKnown p c) (empty, fun _ => []) calls) :
    Numbered (calls.foldl step (empty, fun _ => [])) ∧
      calls.foldl step (empty, fun _ => []) =
        (calls.filter fun c => !c.isLoad).foldl step (empty, fun _ => []) := by
  have hinv := Along.invariant
    (fun p => Recorded p ∧ ∀ r, p.1.state.runs.contains r = true → p.2.has r)
    (fun p c hp hc => ⟨hp.1.step hc.1, contains_step hp.1 hp.2 hc.1 hc.2⟩)
    ⟨recorded_empty, fun r hr => by cases hr⟩ h
  refine ⟨hinv.1.numbered hinv.2, foldl_step_loads ?_⟩
  rw [along_split] at h ⊢
  exact fun before c after e => (h before c after e).2

end InMemoryStore

namespace SqliteWithMetadata

variable {K : Crates}

/-- The attempts of a database are those that have been made, and a new attempt continues
their numbers with the root inputs and the metadata of the last one. -/
structure Numbered (p : SqliteWithMetadata × Ledger) : Prop where
  attempts : ∀ run i, p.1.state.db.attempts.contains (run, i) = true ↔
    ∃ a : Nat, i = a ∧ p.2.has (run, a)
  possible : ∀ now run, (∃ r st, p.1.newAttempt now run = (.ok r, st)) ↔ ∃ n, Continues p run n
  next : ∀ now run r st, p.1.newAttempt now run = (.ok r, st) → ∃ last : Nat,
    (p.2 run).length = last + 1 ∧ r = (run, last + 1) ∧
      (∀ name,
        (Db.rowsAt st.state.db.inputs (run, (last : Int) + 1, Location.root)).get? name =
          (Db.rowsAt p.1.state.db.inputs (run, (last : Int), Location.root)).get? name) ∧
      st.metadataOf (run, (last : Int) + 1) = p.1.metadataOf (run, (last : Int))

theorem Recorded.numbered {p : SqliteWithMetadata × Ledger} (h : Recorded p) : Numbered p := by
  refine ⟨h.attempts, fun now run => ⟨?_, ?_⟩, fun now run r st hm => ?_⟩
  · rintro ⟨r, st, hm⟩
    rcases h.newAttempt_cases now run with hc | ⟨f, hf⟩
    · exact hc
    · rw [hf] at hm
      cases hm
  · rintro ⟨n, hn, hlt, row, hrow, hover⟩
    exact ⟨_, _, h.newAttempt_made now hn hrow hover hlt⟩
  · rcases h.newAttempt_cases now run with ⟨n, hn, hlt, row, hrow, hover⟩ | ⟨f, hf⟩
    · rw [h.newAttempt_made now hn hrow hover hlt] at hm
      cases hm
      obtain ⟨records, last, -, hlast⟩ := Ledger.exists_last hn
      refine ⟨n, hn, rfl, fun name => ?_, ?_⟩
      · have hroot := (makes_withAttempt h now hn hlast).root name
        rw [(h.entry _ _ hlast).1 name]
        exact hroot
      · rw [metadataOf, HashMap.get?_insert_self]
        rfl
    · rw [hf] at hm
      cases hm

theorem along_recorded {workflowNames : HashMap Uuid (Option String)} {calls : List HistoryCall}
    (h : Along (step K) Allowed (empty workflowNames, fun _ => []) calls) :
    Recorded (calls.foldl (step K) (empty workflowNames, fun _ => [])) :=
  Along.invariant Recorded (fun _ _ hp hc => hp.step K hc) (recorded_empty _) h

theorem foldl_step_loads (K : Crates) {calls : List HistoryCall} :
    ∀ p : SqliteWithMetadata × Ledger,
      calls.foldl (step K) p = (calls.filter fun c => !c.isLoad).foldl (step K) p := by
  induction calls with
  | nil => exact fun _ => rfl
  | cons c calls ih =>
    intro p
    cases c <;> exact ih _

end SqliteWithMetadata

/-- In SQLite always, and in memory as long as only attempts that are there are loaded, the
attempts of a run are numbered from zero without gaps, each new one has the number after the
last and its root inputs and metadata, and the loads of a history could as well be left out. -/
theorem attempts_numbered (K : Crates) (workflowNames : HashMap Uuid (Option String))
    (calls : List HistoryCall) :
    (Along InMemoryStore.step (fun p c => InMemoryStore.Allowed p c ∧ InMemoryStore.LoadsKnown p c)
        (InMemoryStore.empty, fun _ => []) calls →
      InMemoryStore.Numbered (calls.foldl InMemoryStore.step (InMemoryStore.empty, fun _ => [])) ∧
        calls.foldl InMemoryStore.step (InMemoryStore.empty, fun _ => []) =
          (calls.filter fun c => !c.isLoad).foldl InMemoryStore.step
            (InMemoryStore.empty, fun _ => [])) ∧
    (Along (SqliteWithMetadata.step K) SqliteWithMetadata.Allowed
        (SqliteWithMetadata.empty workflowNames, fun _ => []) calls →
      SqliteWithMetadata.Numbered
          (calls.foldl (SqliteWithMetadata.step K)
            (SqliteWithMetadata.empty workflowNames, fun _ => [])) ∧
        calls.foldl (SqliteWithMetadata.step K)
            (SqliteWithMetadata.empty workflowNames, fun _ => []) =
          (calls.filter fun c => !c.isLoad).foldl (SqliteWithMetadata.step K)
            (SqliteWithMetadata.empty workflowNames, fun _ => [])) :=
  ⟨InMemoryStore.along_numbered, fun h =>
    ⟨(SqliteWithMetadata.along_recorded h).numbered, SqliteWithMetadata.foldl_step_loads K _⟩⟩

/-- The first attempt is loaded and completes, and a second one is made. -/
def secondAttempt : List HistoryCall :=
  [.newRun 0 0 0 (.ofList [("x", ⟨.memory, "s", 1⟩)]) ∅, .load (0, 0), .write (0, 0) 1 .completed,
    .newAttempt 2 0]

theorem attempts_numbered_secondAttempt :
    InMemoryStore.Numbered
        (secondAttempt.foldl InMemoryStore.step (InMemoryStore.empty, fun _ => [])) ∧
      SqliteWithMetadata.Numbered (secondAttempt.foldl (SqliteWithMetadata.step .zeroFill)
        (SqliteWithMetadata.empty (.ofList [(0, none)]), fun _ => [])) :=
  have h := attempts_numbered .zeroFill (.ofList [(0, none)]) secondAttempt
  ⟨(h.1 ⟨⟨⟨trivial, fun _ => rfl⟩, trivial⟩, ⟨⟨trivial, trivial⟩, show _ = true by decide +kernel⟩,
      ⟨⟨trivial, by decide +kernel⟩, trivial⟩, ⟨⟨trivial, trivial⟩, trivial⟩, trivial⟩).1,
    (h.2 ⟨⟨trivial, by decide +kernel⟩, ⟨trivial, trivial⟩,
      ⟨trivial, show 0 < _ by decide +kernel⟩, ⟨trivial, trivial⟩, trivial⟩).1⟩

/-- A second attempt is loaded before it is made. -/
def loadedAhead : List HistoryCall :=
  [.newRun 0 0 0 (.ofList [("x", ⟨.memory, "s", 1⟩)]) ∅, .load (0, 1), .write (0, 0) 1 .completed]

theorem not_attempts_numbered :
    Along InMemoryStore.step InMemoryStore.Allowed (InMemoryStore.empty, fun _ => []) loadedAhead ∧
      ¬ InMemoryStore.Numbered
        (loadedAhead.foldl InMemoryStore.step (InMemoryStore.empty, fun _ => [])) := by
  refine ⟨⟨⟨trivial, fun _ => rfl⟩, ⟨trivial, trivial⟩, ⟨trivial, by decide +kernel⟩, trivial⟩, ?_⟩
  intro hn
  obtain ⟨made, hm⟩ := (hn.possible 2 0).2 ⟨0, by decide +kernel, .inr (.inr (by decide +kernel))⟩
  have hfail : (InMemoryStore.newAttempt (loadedAhead.foldl InMemoryStore.step
      (InMemoryStore.empty, fun _ => [])).1 2 0).isOk = false := by decide +kernel
  rw [hm] at hfail
  cases hfail

end Tierkreis
