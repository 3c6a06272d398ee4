import Tierkreis.Restart.Sqlite
import Tierkreis.Runtime.Stores
import Tierkreis.State.Batch

/-!
# SQLite under the runtime

The runtime uses the SQLite store call by call, and each call may be hit by
faults of its own. The loops load the state of an attempt before they use it,
and that fails for an attempt without rows.
-/

namespace Tierkreis.Sql

open Lib Lib.Txn

/-- The node has a row with a completion time. -/
def Db.completed (db : Db) (key : NodeKey) : Prop :=
  ∃ row, db.nodeStates.get? key = some row ∧ row.completeTime ≠ none

/-- What a database never loses. -/
structure Grows (db db' : Db) : Prop where
  names : ∀ id, db.workflowNames.contains id = true → db'.workflowNames.contains id = true
  runs : ∀ id w, db.workflowRuns.get? id = some w → db'.workflowRuns.get? id = some w
  attempts : ∀ k, db.attempts.contains k = true → db'.attempts.contains k = true
  completed : ∀ key, db.completed key → db'.completed key

namespace Grows

theorem refl (db : Db) : Grows db db :=
  ⟨fun _ h => h, fun _ _ h => h, fun _ h => h, fun _ h => h⟩

theorem trans {a b c : Db} (h : Grows a b) (h' : Grows b c) : Grows a c where
  names id hn := h'.names id (h.names id hn)
  runs id w hr := h'.runs id w (h.runs id w hr)
  attempts k ha := h'.attempts k (h.attempts k ha)
  completed key hc := h'.completed key (h.completed key hc)

/-- Inputs and outputs are not looked at. -/
theorem of_eq {db db' : Db} (hn : db'.workflowNames = db.workflowNames)
    (hr : db'.workflowRuns = db.workflowRuns) (ha : db'.attempts = db.attempts)
    (hs : db'.nodeStates = db.nodeStates) : Grows db db' where
  names id h := hn ▸ h
  runs id w h := hr ▸ h
  attempts k h := ha ▸ h
  completed key h := by
    unfold Db.completed at h ⊢
    rwa [hs]

theorem putRow {db : Db} {key : NodeKey} {row : NodeRow}
    (h : db.completed key → row.completeTime ≠ none) :
    Grows db { db with nodeStates := db.nodeStates.insert key row } where
  names _ h := h
  runs _ _ h := h
  attempts _ h := h
  completed key' hc := by
    by_cases e : key' = key
    · subst e
      exact ⟨row, HashMap.get?_insert_self _ _ _, h hc⟩
    · obtain ⟨row', hr, ht⟩ := hc
      exact ⟨row', (HashMap.get?_insert_ne _ _ e).trans hr, ht⟩

theorem putAttempt (db : Db) (run : Uuid) (attempt : Int) (row : AttemptRow) :
    Grows db (db.putAttempt run attempt row) where
  names _ h := h
  runs _ _ h := h
  completed _ h := h
  attempts k h := by
    rw [Db.putAttempt, HashMap.contains_insert, h, Bool.or_true]

theorem upsert (db : Db) (run : Uuid) (attempt : Int) (u : NodeUpdate) :
    Grows db (db.upsert run attempt u) := by
  refine putRow ?_
  rintro ⟨row, hr, ht⟩
  rw [hr]
  obtain ⟨t, ht⟩ := Option.ne_none_iff_exists'.1 ht
  simp [NodeRow.upsert, NodeRow.onConflict, ht]

end Grows

/-! ## No program takes anything back -/

section Programs

variable {db₀ : Db} {run : Uuid} {attempt : Int}

/-- A statement that only adds. -/
theorem keeps_stmt {α : Type} {f : Db → Result (α × Db)}
    (hf : ∀ db a db', f db = .ok (a, db') → Grows db db') : Keeps (Grows db₀) (Prog.stmt f) :=
  .stmt fun db a db' h hr => h.trans (hf db a db' hr)

theorem keeps_getConn : Keeps (Grows db₀) getConn :=
  keeps_stmt fun _ _ _ h => by cases h; exact .refl _

theorem keeps_insertInputs (inputs : List NewInput) :
    Keeps (Grows db₀) (insertWorkflowRunInputs run attempt inputs) := by
  refine .each fun i _ => keeps_stmt fun db _ db' h => ?_
  obtain ⟨-, rfl⟩ := insertInput_eq_ok.1 h
  exact .of_eq rfl rfl rfl rfl

theorem addOutput_grows (db : Db) (o : NewOutput) : Grows db (db.addOutput run attempt o) :=
  .of_eq rfl rfl rfl rfl

theorem keeps_updateNodeState (updates : List NodeUpdate) (outputs : List NewOutput) :
    Keeps (Grows db₀) (updateNodeState run attempt updates outputs) := by
  refine Keeps.transaction (.andThen ?_ fun updates => .andThen ?_ fun _ => ?_)
  · unfold mergeMapCompleteFields
    split_ifs
    · exact .ok _
    · exact .query _
  · refine .each fun u _ => keeps_stmt fun db _ db' h => ?_
    unfold upsertNodeState at h
    split_ifs at h
    cases h
    exact .upsert _ _ _ _
  · unfold insertOutputs
    split_ifs
    · exact .ok _
    · refine (Keeps.query _).andThen fun _ => .each fun o _ => keeps_stmt fun db _ db' h => ?_
      cases h
      exact addOutput_grows _ _

theorem keeps_writeProg (K : Crates) (now : Time) (n : Nat) (e : WorkflowRunEvent) :
    Keeps (Grows db₀) (writeProg K now run n e) := by
  have hevent : ∀ row : AttemptRow, Keeps (Grows db₀)
      ((Prog.lift (toI32 n)).andThen fun attempt => getConn.andThen fun _ =>
        updateWorkflowRun run attempt row) := by
    refine fun row => (Keeps.lift _).andThen fun attempt => keeps_getConn.andThen fun _ => ?_
    refine keeps_stmt fun db _ db' h => ?_
    cases hr : db.attempts.get? (run, attempt) with
    | none =>
      simp only [hr, Except.ok.injEq, Prod.mk.injEq] at h
      exact h.2 ▸ .refl _
    | some old =>
      simp only [hr, Except.ok.injEq, Prod.mk.injEq] at h
      exact h.2 ▸ .putAttempt _ _ _ _
  cases e with
  | nodeEvents events =>
    refine Keeps.mapError ((Keeps.lift _).andThen fun attempt => (Keeps.lift _).andThen fun updates =>
      (keeps_getConn.mapError _).andThen fun _ => ?_) _
    exact ((keeps_insertInputs _).mapError _).andThen fun _ =>
      (keeps_updateNodeState _ _).mapError _
  | _ => exact hevent _

theorem keeps_unpauseProg (now : Time) (n : Nat) (locations : List Location) :
    Keeps (Grows db₀) (unpauseProg now run n locations) :=
  keeps_getConn.andThen fun _ => (Keeps.lift _).andThen fun _ =>
    (keeps_updateNodeState _ _).mapError _

theorem keeps_newWorkflowRunProg (now : Time) (workflowId : Uuid) (inputs : Specs) :
    Keeps (Grows db₀) (SqliteRuntimeState.newWorkflowRunProg now run workflowId inputs) := by
  refine keeps_getConn.andThen fun _ => Keeps.mapError (Keeps.transaction
    (.andThen ?_ fun _ => .andThen ?_ fun _ => keeps_insertInputs _)) _
  · refine keeps_stmt fun db _ db' h => ?_
    split_ifs at h with hr hw
    cases h
    refine ⟨fun _ h => h, fun id w h => ?_, fun _ h => h, fun _ h => h⟩
    refine (HashMap.get?_insert_ne _ _ ?_).trans h
    rintro rfl
    exact hr (by rw [HashMap.contains, h]; rfl)
  · refine keeps_stmt fun db _ db' h => ?_
    split_ifs at h
    cases h
    exact .putAttempt _ _ _ _

theorem keeps_copyInputs (source dest : Int) (loc : Location) :
    Keeps (Grows db₀) (copyInputs run source dest loc) := by
  refine keeps_stmt fun db _ db' h => ?_
  dsimp only at h
  split_ifs at h <;> cases h
  · exact .refl _
  · exact .of_eq rfl rfl rfl rfl

theorem keeps_newAttemptProg (now : Time) : Keeps (Grows db₀) (newAttemptProg now run) := by
  refine keeps_getConn.andThen fun _ => (Keeps.query _).andThen fun last =>
    (Keeps.lift _).andThen fun _ => (Keeps.lift _).andThen fun _ =>
    (Keeps.query _).andThen fun lastRun => ?_
  split_ifs
  · exact fun _ _ h => h
  · refine Keeps.andThen ((Keeps.query _).andThen fun _ => keeps_stmt fun db _ db' h => ?_)
      fun _ => (keeps_copyInputs _ _ _).andThen fun _ => .ok _
    split_ifs at h
    cases h
    exact .putAttempt _ _ _ _

theorem keeps_copyRow (K : Crates) (source dest : Int) (f : NodeCopyFilter)
    (e : Location × NodeRow) : Keeps (Grows db₀) (copyRow K run source dest f e) := by
  rw [copyRow]
  by_cases hcl : f.clears e.1 = true
  · rw [if_pos hcl]
    exact .ok _
  · rw [if_neg hcl]
    refine Keeps.andThen ?_ fun _ => Keeps.andThen ?_ fun _ => keeps_copyInputs _ _ _
    · refine keeps_stmt fun db _ db' h => ?_
      split_ifs at h with _ hc
      cases h
      -- The row is new.
      refine .putRow ?_
      rintro ⟨row, hr, -⟩
      exact absurd (by rw [HashMap.contains, hr]; rfl) hc
    · unfold copyOutputs
      split_ifs
      · exact .ok _
      · refine keeps_stmt fun db _ db' h => ?_
        cases h
        exact .of_eq rfl rfl rfl rfl

theorem keeps_copyNodeStatesProg (K : Crates) (source dest : Int) (f : NodeCopyFilter) :
    Keeps (Grows db₀) (copyNodeStatesProg K run source dest f) :=
  Keeps.mapError (Keeps.transaction ((Keeps.query _).andThen fun _ =>
    .each fun e _ => keeps_copyRow K source dest f e)) _

end Programs

end Tierkreis.Sql

namespace Tierkreis

open Lib Lib.Txn Sql

/-- A SQLite store as the runtime has it: what the stored definitions decode to, and the
faults of the calls to come. -/
structure SqliteStore where
  crates : Crates
  definitions : Uuid → Result WorkflowGraph
  faults : Nat → Nat → Option Failure
  state : SqliteRuntimeState

namespace SqliteStore

variable (st : SqliteStore)

/-- The store after a call. -/
def after (state : SqliteRuntimeState) : SqliteStore :=
  { st with state := state, faults := fun n => st.faults (n + 1) }

def loadWorkflow (r : RunAttempt) : Result WorkflowGraph := do
  let (workflowId, _) ← readWorkflowRun st.state.db r
  if st.state.db.workflowNames.contains workflowId then st.definitions workflowId
  else .error (.miette s!"Failed to select workflow with id: {workflowId}")

def write (r : RunAttempt) (now : Time) (e : WorkflowRunEvent) : Result Unit × SqliteStore :=
  match readWorkflowRun st.state.db r with
  | .error f => (.error f, st)
  | .ok _ =>
    let (res, state) := st.state.write st.crates r (st.faults 0) now e
    (res, st.after state)

def unpause (r : RunAttempt) (now : Time) (locations : List Location) :
    Result Unit × SqliteStore :=
  match readWorkflowRun st.state.db r with
  | .error f => (.error f, st)
  | .ok _ =>
    let (res, state) := st.state.unpause r (st.faults 0) now locations
    (res, st.after state)

inductive Admin : SqliteStore → Prop
  | saveWorkflow {id : Uuid} (name : Option String) (workflow : Result WorkflowGraph)
      (h : st.state.db.workflowNames.contains id = false) :
      Admin { st with
        definitions := fun i => if i = id then workflow else st.definitions i
        state := { st.state with db := { st.state.db with
          workflowNames := st.state.db.workflowNames.insert id name } } }
  | newRun (now : Time) (runId workflowId : Uuid) (inputs : Specs) :
      Admin (st.after (st.state.newWorkflowRunState (st.faults 0) now runId workflowId inputs).2)
  | newAttempt (now : Time) (runId : Uuid) :
      Admin (st.after (st.state.newAttempt (st.faults 0) now runId).2)
  | copyNodeStates (target : RunAttempt) (source : Nat) (f : NodeCopyFilter) :
      Admin (st.after
        (st.state.copyNodeStatesFrom st.crates (st.faults 0) target source f).2)

instance : RuntimeState SqliteStore where
  read st r loc := st.state.read st.crates r loc
  readMany st r locations := st.state.readMany st.crates r locations
  loadNamedInputFromLocation st r loc name :=
    st.state.loadNamedInputFromLocation st.crates r loc name
  activeRuns st := st.state.watch.activeRuns
  loadWorkflow := loadWorkflow
  write := write
  unpause := unpause
  admin := Admin
  reopen st := { st with state := SqliteRuntimeState.tryNew st.state.db }

variable {st} {st' : SqliteStore} {r : RunAttempt}

theorem hasAttempt_grows {db db' : Db} (h : Grows db db') (hr : hasAttempt db r = true) :
    hasAttempt db' r = true := by
  simp only [hasAttempt, Bool.and_eq_true, HashMap.contains, Option.isSome_iff_exists] at hr ⊢
  obtain ⟨⟨hlt, w, hw⟩, ha⟩ := hr
  refine ⟨⟨hlt, w, h.runs _ _ hw⟩, ?_⟩
  have := h.attempts _ (Option.isSome_iff_exists.2 ha)
  exact Option.isSome_iff_exists.1 this

/-- A new attempt has its rows. -/
theorem newAttemptProg_ok {now : Time} {run : Uuid} {faults : Nat → Option Failure}
    {s s' : Session Db} {attempt : Nat} (h : newAttemptProg now run faults s = (.ok attempt, s')) :
    hasAttempt s'.db (run, attempt) = true := by
  unfold newAttemptProg at h
  rw [Prog.andThen_eq_ok] at h
  obtain ⟨⟨⟩, s₁, -, h⟩ := h
  rw [Prog.andThen_eq_ok] at h
  obtain ⟨last, s₂, -, h⟩ := h
  rw [Prog.andThen_eq_ok] at h
  obtain ⟨lastAttempt, s₃, ha, h⟩ := h
  rw [Prog.andThen_eq_ok] at h
  obtain ⟨nextAttempt, s₄, hn, h⟩ := h
  rw [Prog.andThen_eq_ok] at h
  obtain ⟨lastRun, s₅, hr, h⟩ := h
  replace ha := (Prog.lift_ok ha).1
  replace hn := (Prog.lift_ok hn).1
  obtain ⟨hr, hdb⟩ := Prog.query_ok hr
  have hold := readWorkflowRun_isOk.1 ⟨_, hr⟩
  rw [← hdb] at hold
  split_ifs at h
  · cases h
  · rw [Prog.andThen_eq_ok] at h
    obtain ⟨⟨⟩, s₆, hi, h⟩ := h
    rw [Prog.andThen_eq_ok] at h
    obtain ⟨⟨⟩, s₇, hc, h⟩ := h
    cases h
    -- The number of the new row is the one that is returned.
    have hnum : (attempt : Int) = wrapI32 (last + 1) ∧ attempt < 2 ^ 31 := by
      simp only [hasAttempt, Bool.and_eq_true, decide_eq_true_eq] at hold
      unfold toU32 at ha hn
      split_ifs at ha hn with h₁ h₂
      cases ha
      cases hn
      have := hold.1.1
      unfold wrapI32 at h₂ ⊢
      split_ifs at h₂ ⊢ <;> omega
    have hins : Grows s₅.db s₆.db ∧ s₆.db.attempts.contains (run, (attempt : Int)) = true := by
      unfold insertWorkflowRunAttempt at hi
      rw [Prog.andThen_eq_ok] at hi
      obtain ⟨⟨⟩, s₈, hq, hi⟩ := hi
      have hs := Prog.stmt_ok hi
      rw [(Prog.query_ok hq).2] at hs
      split_ifs at hs
      rw [hnum.1, ← (Prod.mk.inj (Except.ok.inj hs)).2]
      refine ⟨.putAttempt _ _ _ _, ?_⟩
      rw [Db.putAttempt, HashMap.contains_insert]
      simp
    have hgrow : Grows s₆.db s'.db := by
      have hk : Keeps (Grows s₆.db) (copyInputs run last (wrapI32 (last + 1)) Location.root) :=
        keeps_copyInputs _ _ _
      have := hk faults s₆ (.refl _)
      rwa [hc] at this
    have hrun := hasAttempt_grows (hins.1.trans hgrow) hold
    simp only [hasAttempt, Bool.and_eq_true, decide_eq_true_eq] at hrun ⊢
    exact ⟨⟨hnum.2, hrun.1.2⟩, hgrow.attempts _ hins.2⟩

/-- A new run has its rows. -/
theorem newWorkflowRunProg_ok {now : Time} {run workflowId : Uuid} {inputs : Specs}
    {faults : Nat → Option Failure} {s s' : Session Db}
    (h : SqliteRuntimeState.newWorkflowRunProg now run workflowId inputs faults s = (.ok (), s')) :
    hasAttempt s'.db (run, 0) = true := by
  unfold SqliteRuntimeState.newWorkflowRunProg at h
  rw [Prog.andThen_eq_ok] at h
  obtain ⟨⟨⟩, s₁, -, h⟩ := h
  obtain ⟨t, t', -, h, hdb⟩ := Prog.transaction_ok (Prog.mapError_ok h)
  rw [Prog.andThen_eq_ok] at h
  obtain ⟨⟨⟩, s₂, hr, h⟩ := h
  rw [Prog.andThen_eq_ok] at h
  obtain ⟨⟨⟩, s₃, ha, hi⟩ := h
  have hr := Prog.stmt_ok hr
  have ha := Prog.stmt_ok ha
  split_ifs at hr ha
  have hk : Keeps (Grows s₃.db) (insertWorkflowRunInputs run 0 (inputRows Location.root inputs)) :=
    keeps_insertInputs _
  have hgrow := hk faults s₃ (.refl _)
  rw [hi] at hgrow
  rw [hdb]
  refine hasAttempt_grows hgrow ?_
  rw [← (Prod.mk.inj (Except.ok.inj ha)).2, ← (Prod.mk.inj (Except.ok.inj hr)).2]
  simp [hasAttempt, HashMap.contains_insert]

/-- What a call on the store does to the rows and to the active runs. -/
def CallFrame (s s' : SqliteRuntimeState) : Prop :=
  Grows s.db s'.db ∧
    ∀ r ∈ s'.watch.activeRuns, r ∈ s.watch.activeRuns ∨ hasAttempt s'.db r = true

section Calls

variable {s : SqliteRuntimeState} {faults : Nat → Option Failure}

theorem callFrame_exec {α : Type} {p : Program α} (hp : Keeps (Grows s.db) p) :
    CallFrame s (s.exec faults p).2 := ⟨hp faults ⟨s.db, 0⟩ (.refl _), fun _ h => .inl h⟩

/-- An attempt with rows may be taken in or out. -/
theorem CallFrame.update {s' : SqliteRuntimeState} (h : CallFrame s s')
    (hr : hasAttempt s'.db r = true) (stopped : Bool) :
    CallFrame s { s' with watch := s'.watch.update r stopped } := by
  refine ⟨h.1, fun r' hr' => ?_⟩
  change r' ∈ (s'.watch.update r stopped).activeRuns at hr'
  rw [RuntimeWatchState.mem_update] at hr'
  split_ifs at hr' with e
  · exact .inr (e ▸ hr)
  · exact h.2 r' hr'

theorem callFrame_write (K : Crates) (hr : hasAttempt s.db r = true) (now : Time)
    (e : WorkflowRunEvent) : CallFrame s (s.write K r faults now e).2 := by
  have h : CallFrame s (s.exec faults (writeProg K now r.1 r.2 e)).2 :=
    callFrame_exec (keeps_writeProg _ _ _ _)
  unfold SqliteRuntimeState.write
  split
  · rename_i s' hx
    rw [hx] at h
    exact h.update (hasAttempt_grows h.1 hr) _
  · rename_i f s' hx
    rwa [hx] at h

theorem callFrame_unpause (hr : hasAttempt s.db r = true) (now : Time) (locations : List Location) :
    CallFrame s (s.unpause r faults now locations).2 := by
  have h : CallFrame s (s.exec faults (unpauseProg now r.1 r.2 locations)).2 :=
    callFrame_exec (keeps_unpauseProg _ _ _)
  unfold SqliteRuntimeState.unpause
  split
  · rename_i s' hx
    rw [hx] at h
    dsimp only
    split_ifs
    · exact h
    · exact h.update (hasAttempt_grows h.1 hr) _
  · rename_i f s' hx
    rwa [hx] at h

theorem callFrame_newWorkflowRunState (now : Time) (runId workflowId : Uuid) (inputs : Specs) :
    CallFrame s (s.newWorkflowRunState faults now runId workflowId inputs).2 := by
  have h : CallFrame s
      (s.exec faults (SqliteRuntimeState.newWorkflowRunProg now runId workflowId inputs)).2 :=
    callFrame_exec (keeps_newWorkflowRunProg _ _ _)
  unfold SqliteRuntimeState.newWorkflowRunState
  cases hp : SqliteRuntimeState.newWorkflowRunProg now runId workflowId inputs faults ⟨s.db, 0⟩ with
  | mk res s' =>
    unfold SqliteRuntimeState.exec at h ⊢
    rw [hp] at h ⊢
    cases res with
    | ok u => exact h.update (newWorkflowRunProg_ok hp) _
    | error f => exact h

theorem callFrame_newAttempt (now : Time) (runId : Uuid) :
    CallFrame s (s.newAttempt faults now runId).2 := by
  have h : CallFrame s (s.exec faults (newAttemptProg now runId)).2 :=
    callFrame_exec (keeps_newAttemptProg _)
  unfold SqliteRuntimeState.newAttempt
  cases hp : newAttemptProg now runId faults ⟨s.db, 0⟩ with
  | mk res s' =>
    unfold SqliteRuntimeState.exec at h ⊢
    rw [hp] at h ⊢
    cases res with
    | ok attempt => exact h.update (newAttemptProg_ok hp) _
    | error f => exact h

theorem callFrame_copyNodeStatesFrom (K : Crates) (target : RunAttempt) (source : Nat)
    (f : NodeCopyFilter) : CallFrame s (s.copyNodeStatesFrom K faults target source f).2 :=
  callFrame_exec (keeps_getConn.andThen fun _ => (Keeps.lift _).andThen fun _ =>
    (Keeps.lift _).andThen fun _ => keeps_copyNodeStatesProg _ _ _ _)

end Calls

theorem storeStep_frame (h : StoreStep st st') : CallFrame st.state st'.state ∧
    ∀ id, st.state.db.workflowNames.contains id = true → st'.definitions id = st.definitions id := by
  cases h with
  | write r now e =>
    change CallFrame st.state (st.write r now e).2.state ∧
      ∀ id, _ → (st.write r now e).2.definitions id = st.definitions id
    unfold write
    cases hr : readWorkflowRun st.state.db r with
    | error f => exact ⟨⟨.refl _, fun _ h => .inl h⟩, fun _ _ => rfl⟩
    | ok x => exact ⟨callFrame_write _ (readWorkflowRun_isOk.1 ⟨x, hr⟩) _ _, fun _ _ => rfl⟩
  | unpause r now locations =>
    change CallFrame st.state (st.unpause r now locations).2.state ∧
      ∀ id, _ → (st.unpause r now locations).2.definitions id = st.definitions id
    unfold unpause
    cases hr : readWorkflowRun st.state.db r with
    | error f => exact ⟨⟨.refl _, fun _ h => .inl h⟩, fun _ _ => rfl⟩
    | ok x => exact ⟨callFrame_unpause (readWorkflowRun_isOk.1 ⟨x, hr⟩) _ _, fun _ _ => rfl⟩
  | admin h =>
    cases h with
    | saveWorkflow name workflow hn =>
      refine ⟨⟨⟨fun id hid => ?_, fun _ _ h => h, fun _ h => h, fun _ h => h⟩, fun _ h => .inl h⟩,
        fun id hid => if_neg ?_⟩
      · change (HashMap.insert _ _ _).contains id = true
        rw [HashMap.contains_insert, hid, Bool.or_true]
      · rintro rfl
        rw [hn] at hid
        cases hid
    | newRun now runId workflowId inputs =>
      exact ⟨callFrame_newWorkflowRunState _ _ _ _, fun _ _ => rfl⟩
    | newAttempt now runId => exact ⟨callFrame_newAttempt _ _, fun _ _ => rfl⟩
    | copyNodeStates target source f =>
      exact ⟨callFrame_copyNodeStatesFrom _ _ _ _, fun _ _ => rfl⟩

theorem workflowRuns_of_readWorkflowRun {db : Db} {x : Uuid × AttemptRow}
    (h : readWorkflowRun db r = .ok x) : db.workflowRuns.get? r.1 = some x.1 := by
  obtain ⟨attempt, -, h⟩ := Result.bind_eq_ok.1 h
  obtain ⟨w, hw, h⟩ := Result.bind_eq_ok.1 h
  obtain ⟨row, -, h⟩ := Result.bind_eq_ok.1 h
  cases h
  exact okOr_eq_ok.1 hw

/-- A completed node has outputs wherever its state is read. -/
theorem outputs_of_completed {K : Crates} {db : Db} {run : Uuid} {attempt : Int}
    {loc : Location} {locations : List Location} {nodeStates : NodeStates}
    (hc : db.completed (run, attempt, loc))
    (h : readNodeStates K db run attempt locations = .ok nodeStates) (hl : loc ∈ locations) :
    (stateAt nodeStates loc).outputs ≠ none := by
  have h := readNodeStates_spec h hl
  obtain ⟨row, hrow, ht⟩ := hc
  rw [readNodeState, hrow] at h
  obtain ⟨loopIndex, -, h⟩ := Result.bind_eq_ok.1 h
  obtain ⟨mapCompleted, -, h⟩ := Result.bind_eq_ok.1 h
  obtain ⟨outputs, ho, h⟩ := Result.bind_eq_ok.1 h
  rw [stateAt, ← Except.ok.inj h]
  unfold readOutputs at ho
  rw [if_pos (Option.isSome_iff_ne_none.2 ht)] at ho
  cases hs : AssetRow.toSpecs K (Db.rowsAt db.nodeOutputs (run, attempt, loc)) with
  | error f => simp [hs, Except.map] at ho
  | ok specs =>
    rw [hs] at ho
    cases ho
    exact Option.some_ne_none _

instance : LawfulRuntimeState SqliteStore where
  valid st := ∀ r ∈ st.state.watch.activeRuns, hasAttempt st.state.db r = true
  known st r := hasAttempt st.state.db r = true
  hasOutputs st r loc := st.state.db.completed (r.1, (r.2 : Int), loc)
  valid_step h hv r hr := by
    obtain ⟨⟨hg, ha⟩, -⟩ := storeStep_frame h
    rcases ha r hr with hr | hr
    · exact hasAttempt_grows hg (hv r hr)
    · exact hr
  known_of_active hv hr := hv _ hr
  known_step h hk := hasAttempt_grows (storeStep_frame h).1.1 hk
  workflow_step {st st' r g} h hk hg := by
    obtain ⟨⟨hgrow, -⟩, hd⟩ := storeStep_frame h
    obtain ⟨⟨w', row'⟩, hr'⟩ := readWorkflowRun_isOk.2 (hasAttempt_grows hgrow hk)
    change st.loadWorkflow r = .ok g at hg
    change st'.loadWorkflow r = .ok g
    unfold loadWorkflow at hg ⊢
    obtain ⟨⟨w, row⟩, hr, hg⟩ := Result.bind_eq_ok.1 hg
    have hw : w' = w := by
      have h₁ := workflowRuns_of_readWorkflowRun hr
      have h₂ := workflowRuns_of_readWorkflowRun hr'
      rw [hgrow.runs _ _ h₁] at h₂
      exact (Option.some.inj h₂).symm
    subst hw
    dsimp only at hg
    split_ifs at hg with hn
    rw [hr']
    refine (if_pos (hgrow.names _ hn)).trans ?_
    rw [hd _ hn]
    exact hg
  hasOutputs_write r' now e h := (storeStep_frame (.write r' now e)).1.1.completed _ h
  hasOutputs_unpause r' now locations h :=
    (storeStep_frame (.unpause r' now locations)).1.1.completed _ h
  outputs_of_readMany {st r loc locations nodeStates} h hread hl := by
    change st.state.readMany st.crates r locations = .ok nodeStates at hread
    unfold SqliteRuntimeState.readMany at hread
    obtain ⟨attempt, ha, hread⟩ := Result.bind_eq_ok.1 hread
    unfold toI32 at ha
    split_ifs at ha
    cases ha
    exact outputs_of_completed h hread hl

/-- A store with one workflow and a run of it that has just begun. -/
def started (g : WorkflowGraph) : SqliteStore where
  crates := .zeroFill
  definitions _ := .ok g
  faults _ := SqliteRuntimeState.noFaults
  state := .startedRun

end SqliteStore

end Tierkreis
