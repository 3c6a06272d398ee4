import Tierkreis.Restart.Copy
import Tierkreis.Runtime.Restarting
import Tierkreis.Runtime.SqliteStore

/-!
# Restarts in both stores

In memory a copy replaces whatever node states the new attempt has. In SQLite it
inserts rows, and leaves the new attempt alone when one of them is there already.
-/

namespace Tierkreis

open Lib Lib.Txn Lib.Run Sql

namespace InMemoryRuntimeState

/-- A call that may change the store. -/
def called {α : Type} (st : InMemoryRuntimeState) :
    Result (α × InMemoryRuntimeState) → Result α × InMemoryRuntimeState
  | .ok (a, st') => (.ok a, st')
  | .error f => (.error f, st)

theorem called_cases {α : Type} (st : InMemoryRuntimeState)
    (x : Result (α × InMemoryRuntimeState)) :
    (st.called x).2 = st ∨ ∃ a st', x = .ok (a, st') ∧ (st.called x).2 = st' := by
  cases x with
  | error f => exact .inl rfl
  | ok y => exact .inr ⟨y.1, y.2, rfl, rfl⟩

theorem called_eq_ok {α : Type} {st st' : InMemoryRuntimeState} {a : α}
    {x : Result (α × InMemoryRuntimeState)} (h : st.called x = (.ok a, st')) : x = .ok (a, st') := by
  cases x with
  | error f => cases h
  | ok y =>
    cases h
    rfl

theorem run_startAttempt_of_ne {st : InMemoryRuntimeState} {r r' : RunAttempt} (h : r ≠ r')
    (now : Time) (workflowId : Uuid) (inputs : Specs) :
    (st.startAttempt r' now workflowId inputs).run r = st.run r := by
  rw [run, startAttempt, HashMap.get?_insert_ne _ _ h]
  rfl

theorem run_newAttempt_of_ne {st st' : InMemoryRuntimeState} {now : Time} {runId : Uuid}
    {r r' : RunAttempt} (h : st.newAttempt now runId = .ok (r', st')) (hr : r ≠ r') :
    st'.run r = st.run r := by
  obtain ⟨-, last, inputs, -, -, rfl⟩ := st.newAttempt_eq_ok h
  exact run_startAttempt_of_ne hr _ _ _

theorem run_copyNodeStatesFrom_of_ne {st st' : InMemoryRuntimeState} {target source r : RunAttempt}
    {f : NodeCopyFilter} (h : st.copyNodeStatesFrom target source f = .ok st') (hr : r ≠ target) :
    st'.run r = st.run r := by
  obtain ⟨sourceRun, -, rfl⟩ := st.copyNodeStatesFrom_eq_ok.1 h
  rw [run, HashMap.get?_insert_ne _ _ hr]
  rfl

def copyCall (st : InMemoryRuntimeState) (target source : RunAttempt) (f : NodeCopyFilter) :
    Result Unit × InMemoryRuntimeState :=
  st.called ((st.copyNodeStatesFrom target source f).map fun st' => ((), st'))

theorem copyCall_cases (st : InMemoryRuntimeState) (target source : RunAttempt)
    (f : NodeCopyFilter) : (st.copyCall target source f).2 = st ∨
      ∃ st', st.copyNodeStatesFrom target source f = .ok st' ∧
        (st.copyCall target source f).2 = st' := by
  unfold copyCall
  cases st.copyNodeStatesFrom target source f with
  | error g => exact .inl rfl
  | ok st' => exact .inr ⟨st', rfl, rfl⟩

theorem copyCall_eq_ok {st st' : InMemoryRuntimeState} {target source : RunAttempt}
    {f : NodeCopyFilter} (h : st.copyCall target source f = (.ok (), st')) :
    st.copyNodeStatesFrom target source f = .ok st' := by
  unfold copyCall at h
  cases hc : st.copyNodeStatesFrom target source f with
  | error g =>
    rw [hc] at h
    cases h
  | ok st'' =>
    rw [hc] at h
    cases h
    rfl

theorem run_copyCall_of_ne {st : InMemoryRuntimeState} {target r : RunAttempt}
    (source : RunAttempt) (f : NodeCopyFilter) (hr : r ≠ target) :
    (st.copyCall target source f).2.run r = st.run r := by
  rcases st.copyCall_cases target source f with h | ⟨st', h, h'⟩
  · rw [h]
  · rw [h']
    exact run_copyNodeStatesFrom_of_ne h hr

/-- What a copy retains has its outputs in the new attempt. -/
theorem outputs_copied {st st' : InMemoryRuntimeState} {target source : RunAttempt}
    {f : NodeCopyFilter} {loc : Location} (h : st.copyNodeStatesFrom target source f = .ok st')
    (hcl : f.clears loc = false) (ht : loc ∉ f.truncateExact)
    (ho : ((st.run source).read loc).outputs ≠ none) :
    ((st'.run target).read loc).outputs ≠ none := by
  obtain ⟨a, ha, rfl⟩ := st.copyNodeStatesFrom_eq_ok.1 h
  have hrun : st.run source = a := by rw [run, ha, Option.getD_some]
  rw [hrun, RunAttemptState.read] at ho
  cases hs : a.nodes.get? loc with
  | none =>
    rw [hs] at ho
    exact absurd rfl ho
  | some s =>
    rw [hs, Option.getD_some] at ho
    have hcopied : ((st.run target).nodes.extend (copiedNodes a f)).get? loc =
        some (f.copyState loc s) := by
      rw [HashMap.get?_extend, copiedNodes, HashMap.get?_filterMap, hs, Option.bind_some, hcl]
      rfl
    rw [run, HashMap.get?_insert_self, RunAttemptState.read, Option.getD_some, hcopied,
      Option.getD_some, NodeCopyFilter.outputs_copyState, if_neg ht]
    exact ho

instance : RestartableState InMemoryRuntimeState where
  newAttempt st now runId := st.called (st.newAttempt now runId)
  copyNodeStatesFrom := copyCall
  Overwrites st st' r :=
    ∃ loc s, (st.run r).nodes.get? loc = some s ∧ (st'.run r).nodes.get? loc ≠ some s
  Untouched st r := ∀ loc, (st.run r).nodes.get? loc = none
  newAttempt_step st now runId := by
    rcases st.called_cases (st.newAttempt now runId) with h | ⟨r, st', h, h'⟩
    · exact .inl h
    · rw [h']
      exact .inr (.admin (Admin.newAttempt h))
  newAttempt_new {st st' now runId r} h := by
    obtain ⟨hfree, last, inputs, -, rfl, rfl⟩ := st.newAttempt_eq_ok (called_eq_ok h)
    refine ⟨rfl, ?_, ?_, fun loc => ?_⟩
    · change ¬ (st.runs.get? _).isSome = true
      rw [hfree]
      exact Bool.false_ne_true
    · change ((HashMap.insert _ _ _).get? _).isSome = true
      rw [HashMap.get?_insert_self]
      rfl
    · rw [run, startAttempt, HashMap.get?_insert_self, run, hfree]
      rfl
  hasOutputs_newAttempt {st r loc} now runId ho := by
    rcases st.called_cases (st.newAttempt now runId) with h | ⟨r', st', h, h'⟩
    · rwa [h]
    · rw [h']
      have hne : r ≠ r' := by
        rintro rfl
        obtain ⟨hfree, -⟩ := st.newAttempt_eq_ok h
        refine ho ?_
        rw [run, hfree]
        rfl
      change ((st'.run r).read loc).outputs ≠ none
      rwa [run_newAttempt_of_ne h hne]
  untouched_newAttempt {st r} now runId hk hu := by
    rcases st.called_cases (st.newAttempt now runId) with h | ⟨r', st', h, h'⟩
    · rwa [h]
    · rw [h']
      have hne : r ≠ r' := by
        rintro rfl
        obtain ⟨hfree, -⟩ := st.newAttempt_eq_ok h
        change (st.runs.get? r).isSome = true at hk
        rw [hfree] at hk
        cases hk
      rwa [run_newAttempt_of_ne h hne]
  copy_step st target source f := by
    rcases st.copyCall_cases target source f with h | ⟨st', h, h'⟩
    · exact .inl h
    · rw [h']
      exact .inr (.admin (Admin.copyNodeStates h))
  hasOutputs_copied _ h ho hcl ht := outputs_copied (copyCall_eq_ok h) hcl ht ho
  hasOutputs_copy {st target r loc} source f hr ho := by
    change (((st.copyCall target source f).2.run r).read loc).outputs ≠ none
    rwa [run_copyCall_of_ne source f hr]
  untouched_copy source f hr hu := by
    rwa [run_copyCall_of_ne source f hr]
  not_overwrites_copy source f hu := by
    rintro ⟨loc, s, hs, -⟩
    rw [hu loc] at hs
    cases hs
  untouched_write {st r r'} now e hr hu := by
    change ∀ loc, ((st.write r' now e).run r).nodes.get? loc = none
    rwa [run_write_of_ne _ hr]
  untouched_unpause {st r r'} now locations hr hu := by
    change ∀ loc, ((st.unpause r' now locations).run r).nodes.get? loc = none
    rw [run, InMemoryRuntimeState.unpause, HashMap.get?_insert_ne _ _ hr]
    exact hu

end InMemoryRuntimeState

namespace Sql

variable {K : Crates} {run : Uuid} {source dest : Int} {f : NodeCopyFilter}

/-- What is copied after a row is not in the table of rows. -/
theorem keeps_copyRest (run : Uuid) (source dest : Int) (f : NodeCopyFilter)
    (I : HashMap NodeKey NodeRow → Prop) (loc : Location) :
    Keeps (fun db : Db => I db.nodeStates)
      ((copyOutputs run source dest f loc).andThen fun _ => copyInputs run source dest loc) := by
  refine Keeps.andThen ?_ fun _ => .stmt fun db _ db' hk h => ?_
  · unfold copyOutputs
    split_ifs
    · exact .ok _
    · exact .stmt fun db _ db' hk h => by
        cases h
        exact hk
  · dsimp only at h
    split_ifs at h <;> cases h <;> exact hk

/-- A row that is there stays as it is. -/
theorem keeps_copyRow_row (key : NodeKey) (row : NodeRow) (e : Location × NodeRow) :
    Keeps (fun db : Db => db.nodeStates.get? key = some row) (copyRow K run source dest f e) := by
  rw [copyRow]
  by_cases hcl : f.clears e.1 = true
  · rw [if_pos hcl]
    exact .ok _
  · rw [if_neg hcl]
    refine Keeps.andThen (.stmt fun db _ db' hk h => ?_) fun _ =>
      keeps_copyRest _ _ _ _ (fun t => t.get? key = some row) _
    split_ifs at h with _ hc
    cases h
    refine (HashMap.get?_insert_ne _ _ ?_).trans hk
    rintro rfl
    exact hc (by rw [HashMap.contains, hk]; rfl)

theorem copyRow_ok {e : Location × NodeRow} (hcl : f.clears e.1 = false)
    {faults : Nat → Option Failure} {s s' : Session Db}
    (h : copyRow K run source dest f e faults s = (.ok (), s')) :
    s'.db.nodeStates.get? (run, dest, e.1) = some (copiedRow K f e.1 e.2) := by
  rw [copyRow_eq hcl, Prog.andThen_eq_ok] at h
  obtain ⟨⟨⟩, t, hi, h⟩ := h
  obtain ⟨-, ht⟩ := (insertCopy_eq_ok hcl).1 (Prog.stmt_ok hi)
  have hrow : t.db.nodeStates.get? (run, dest, e.1) = some (copiedRow K f e.1 e.2) := by
    rw [ht, copyNode, hcl, if_neg Bool.false_ne_true, HashMap.get?_insert_self]
  have hk := keeps_copyRest run source dest f
    (fun t => t.get? (run, dest, e.1) = some (copiedRow K f e.1 e.2)) e.1 faults t hrow
  rwa [h] at hk

/-- A copy that goes through leaves every row of the source that is not cleared. -/
theorem copyNodeStatesProg_row {faults : Nat → Option Failure} {s s' : Session Db}
    (h : copyNodeStatesProg K run source dest f faults s = (.ok (), s')) {loc : Location}
    {row : NodeRow} (hrow : s.db.nodeStates.get? (run, source, loc) = some row)
    (hcl : f.clears loc = false) :
    s'.db.nodeStates.get? (run, dest, loc) = some (copiedRow K f loc row) := by
  obtain ⟨t, t', ht, h, hs⟩ := Prog.transaction_ok (Prog.mapError_ok h)
  obtain ⟨rows, u, hq, h⟩ := Prog.andThen_eq_ok.1 h
  obtain ⟨hr, -⟩ := Prog.query_ok hq
  cases hr
  rw [hs]
  rw [← ht] at hrow
  exact Keeps.of_mem_each (fun e _ => keeps_copyRow_row _ _ e) (mem_rowsOf (e := (loc, row)).2 hrow)
    (fun faults s s' he => copyRow_ok hcl he) h

theorem newAttemptProg_fresh {now : Time} {faults : Nat → Option Failure} {s s' : Session Db}
    {attempt : Nat} (h : newAttemptProg now run faults s = (.ok attempt, s')) :
    s.db.attempts.contains (run, (attempt : Int)) = false := by
  obtain ⟨⟨⟩, s₁, h₁, h⟩ := Prog.andThen_eq_ok.1 h
  obtain ⟨last, s₂, h₂, h⟩ := Prog.andThen_eq_ok.1 h
  obtain ⟨lastAttempt, s₃, h₃, h⟩ := Prog.andThen_eq_ok.1 h
  obtain ⟨nextAttempt, s₄, h₄, h⟩ := Prog.andThen_eq_ok.1 h
  obtain ⟨lastRun, s₅, h₅, h⟩ := Prog.andThen_eq_ok.1 h
  split_ifs at h
  · cases h
  · obtain ⟨⟨⟩, s₆, hi, h⟩ := Prog.andThen_eq_ok.1 h
    obtain ⟨⟨⟩, s₇, -, h⟩ := Prog.andThen_eq_ok.1 h
    cases h
    obtain ⟨⟨⟩, s₈, hq, hi⟩ := Prog.andThen_eq_ok.1 hi
    -- nothing has been written before the row of the attempt
    have hdb : s₈.db = s.db := by
      rw [(Prog.query_ok hq).2, (Prog.query_ok h₅).2, (Prog.lift_ok h₄).2, (Prog.lift_ok h₃).2,
        (Prog.query_ok h₂).2]
      exact (Prod.mk.inj (Except.ok.inj (Prog.stmt_ok h₁))).2.symm
    have hnum : (attempt : Int) = wrapI32 (last + 1) := by
      have hn := (Prog.lift_ok h₄).1
      unfold toU32 at hn
      split_ifs at hn with hp
      cases hn
      exact Int.toNat_of_nonneg hp
    have hs := Prog.stmt_ok hi
    rw [hdb, ← hnum] at hs
    split_ifs at hs with hc
    simpa using hc

end Sql

namespace SqliteStore

variable (st : SqliteStore)

def newAttemptCall (now : Time) (runId : Uuid) : Result RunAttempt × SqliteStore :=
  let (res, state) := st.state.newAttempt (st.faults 0) now runId
  (res, st.after state)

/-- Copy from an attempt of the same run. -/
def copyCall (target source : RunAttempt) (f : NodeCopyFilter) : Result Unit × SqliteStore :=
  let (res, state) := st.state.copyNodeStatesFrom st.crates (st.faults 0) target source.2 f
  (res, st.after state)

variable {st}

theorem newAttemptCall_ok {st' : SqliteStore} {now : Time} {runId : Uuid} {r : RunAttempt}
    (h : st.newAttemptCall now runId = (.ok r, st')) :
    r.1 = runId ∧ hasAttempt st.state.db r = false ∧ hasAttempt st'.state.db r = true := by
  unfold newAttemptCall SqliteRuntimeState.newAttempt at h
  unfold SqliteRuntimeState.exec at h
  cases hp : newAttemptProg now runId (st.faults 0) ⟨st.state.db, 0⟩ with
  | mk res s' =>
    rw [hp] at h
    cases res with
    | error g => cases h
    | ok attempt =>
      cases h
      refine ⟨rfl, ?_, newAttemptProg_ok hp⟩
      rw [hasAttempt, newAttemptProg_fresh hp, Bool.and_false]

theorem copyCall_row {st' : SqliteStore} {target source : RunAttempt} {f : NodeCopyFilter}
    (hrun : target.1 = source.1) (h : st.copyCall target source f = (.ok (), st')) {loc : Location}
    {row : NodeRow} (hrow : st.state.db.nodeStates.get? (source.1, (source.2 : Int), loc) = some row)
    (hcl : f.clears loc = false) :
    st'.state.db.nodeStates.get? (target.1, (target.2 : Int), loc) =
      some (copiedRow st.crates f loc row) := by
  unfold copyCall SqliteRuntimeState.copyNodeStatesFrom SqliteRuntimeState.exec at h
  dsimp only at h
  obtain ⟨hp, rfl⟩ := Prod.mk.inj h
  generalize hs : (getConn.andThen fun _ => (Prog.lift (toI32 source.2)).andThen fun i =>
    (Prog.lift (toI32 target.2)).andThen fun dest =>
      copyNodeStatesProg st.crates target.1 i dest f) (st.faults 0) ⟨st.state.db, 0⟩ = out at hp ⊢
  obtain ⟨res, s'⟩ := out
  obtain rfl : res = .ok () := hp
  obtain ⟨⟨⟩, t, h₁, h₂⟩ := Prog.andThen_eq_ok.1 hs
  obtain ⟨i, t₂, hi, h₃⟩ := Prog.andThen_eq_ok.1 h₂
  obtain ⟨dest, t₃, hd, h₄⟩ := Prog.andThen_eq_ok.1 h₃
  obtain ⟨hi32, rfl⟩ := Prog.lift_ok hi
  obtain ⟨hd32, rfl⟩ := Prog.lift_ok hd
  obtain ⟨-, rfl⟩ := toI32_eq_ok.1 hi32
  obtain ⟨-, rfl⟩ := toI32_eq_ok.1 hd32
  have hdb : st.state.db = t₃.db := (Prod.mk.inj (Except.ok.inj (Prog.stmt_ok h₁))).2
  rw [← hrun, hdb] at hrow
  exact copyNodeStatesProg_row h₄ hrow hcl

theorem copyCall_keeps_row (st : SqliteStore) (target source : RunAttempt) (f : NodeCopyFilter)
    {key : NodeKey} {row : NodeRow} (h : st.state.db.nodeStates.get? key = some row) :
    (st.copyCall target source f).2.state.db.nodeStates.get? key = some row := by
  have hk : Keeps (fun db : Db => db.nodeStates.get? key = some row)
      (getConn.andThen fun _ => (Prog.lift (toI32 source.2)).andThen fun i =>
        (Prog.lift (toI32 target.2)).andThen fun dest =>
          copyNodeStatesProg st.crates target.1 i dest f) :=
    Keeps.andThen (.stmt fun _ _ _ h hr => by cases hr; exact h) fun _ =>
      (Keeps.lift _).andThen fun _ => (Keeps.lift _).andThen fun _ =>
        Keeps.mapError (Keeps.transaction ((Keeps.query _).andThen fun _ =>
          .each fun e _ => keeps_copyRow_row key row e)) _
  exact hk (st.faults 0) ⟨st.state.db, 0⟩ h

instance : RestartableState SqliteStore where
  newAttempt := newAttemptCall
  copyNodeStatesFrom := copyCall
  Overwrites st st' r := ∃ loc row, st.state.db.nodeStates.get? (r.1, (r.2 : Int), loc) = some row ∧
    st'.state.db.nodeStates.get? (r.1, (r.2 : Int), loc) ≠ some row
  Untouched _ _ := True
  newAttempt_step st now runId := .inr (.admin (Admin.newAttempt now runId))
  newAttempt_new {st st' now runId r} h := by
    obtain ⟨hrun, hfree, hk⟩ := newAttemptCall_ok h
    refine ⟨hrun, ?_, hk, trivial⟩
    change ¬ hasAttempt st.state.db r = true
    rw [hfree]
    exact Bool.false_ne_true
  hasOutputs_newAttempt {st r loc} now runId ho :=
    (storeStep_frame (.admin (Admin.newAttempt now runId))).1.1.completed _ ho
  untouched_newAttempt _ _ _ _ := trivial
  copy_step st target source f := .inr (.admin (Admin.copyNodeStates target source.2 f))
  hasOutputs_copied {st st' target source f loc} hrun h ho hcl ht := by
    obtain ⟨row, hrow, hc⟩ := ho
    refine ⟨_, copyCall_row hrun h hrow hcl, ?_⟩
    rwa [completeTime_copiedRow, if_neg ht]
  hasOutputs_copy {st target r loc} source f _ ho :=
    (storeStep_frame (.admin (Admin.copyNodeStates target source.2 f))).1.1.completed _ ho
  untouched_copy _ _ _ _ := trivial
  not_overwrites_copy {st target} source f _ := by
    rintro ⟨loc, row, hrow, hne⟩
    exact hne (st.copyCall_keeps_row target source f hrow)
  untouched_write _ _ _ _ := trivial
  untouched_unpause _ _ _ _ := trivial

theorem valid_started (g : WorkflowGraph) : LawfulRuntimeState.valid (started g) := by
  intro r hr
  change r ∈ ({(0, 0)} : Finset RunAttempt) at hr
  obtain rfl : r = (0, 0) := by simpa using hr
  rfl

end SqliteStore

/-- In both stores, when no round of planning begins and no user writes to a new attempt between
its making and its copy, and the copy goes through, the copy overwrites nothing, and no task
that it retains as complete is ever handed out for the new attempt. -/
theorem restart_undisturbed (R : Runtime) (assets : Assets) (labels : List RaceLabel) :
    (∀ (store : InMemoryRuntimeState) (s : Race InMemoryRuntimeState),
      LawfulRuntimeState.valid store →
      Steps (QuietStep R) { system := { store := store, assets := assets } } labels s →
      s.Undisturbed) ∧
    ∀ (store : SqliteStore) (s : Race SqliteStore), LawfulRuntimeState.valid store →
      Steps (QuietStep R) { system := { store := store, assets := assets } } labels s →
      s.Undisturbed :=
  ⟨fun _ _ hv h => undisturbed_of_quiet hv h, fun _ _ hv h => undisturbed_of_quiet hv h⟩

/-! ## A restart beside two tasks -/

def twoTasks : WorkflowGraph where
  nodes := .ofList [
    (0, { definition := .task "worker" "a" none none, name := none, hasBreakpoint := false
          inputs := [], outputs := ["value"] }),
    (1, { definition := .task "worker" "b" none none, name := none, hasBreakpoint := false
          inputs := [], outputs := ["value"] }),
    (2, { definition := .output, name := none, hasBreakpoint := false
          inputs := [⟨"a", [⟨0, "value"⟩]⟩, ⟨"b", [⟨1, "value"⟩]⟩], outputs := [] })]
  outputIdx := 2
  output_mem := rfl
  link_mem := by decide

/-- The first task completes, the second fails, and the run ends. -/
def halfDone (r : RunAttempt) : List Turn :=
  [.wake [r], .plan, .process 1, .process 1, .report 0 (.complete ∅), .report 0 (.error "e" none),
    .processReport 0 2, .processReport 0 2, .wake [r], .plan, .process 3]

/-- The filter of a restart of the second task. -/
def secondTask : NodeCopyFilter := { clearRoots := {[.node 1], [.node 2]} }

section Scenario

variable {σ : Type} [RestartableState σ]

theorem eq_of_toOption {α β : Type} {x : Result α × β} {a : α} (h : x.1.toOption = some a) :
    x = (.ok a, x.2) := by
  obtain ⟨res, b⟩ := x
  cases res with
  | error f => cases h
  | ok a' =>
    cases h
    rfl

/-- A restart after which the runtime goes on, and what it has handed out. -/
def restarted (s₀ : System σ) (r : RunAttempt) : Option (List (RunAttempt × Location)) := do
  let x ← System.turns (Runtime.plain []) 2 (halfDone r) s₀
  let called := RestartableState.newAttempt x.2.store 4 r.1
  let target ← called.1.toOption
  let copied := RestartableState.copyNodeStatesFrom called.2 target r secondTask
  let _ ← copied.1.toOption
  let y ← System.turns (Runtime.plain []) 2 [.wake [target], .plan]
    ((x.2.setStore called.2).setStore copied.2)
  pure (y.2.dispatched.map TaskPlan.key)

theorem restarted_spec {s₀ : System σ} {r : RunAttempt} {keys : List (RunAttempt × Location)}
    (h : restarted s₀ r = some keys) : ∃ labels s,
      Steps (QuietStep (Runtime.plain [])) { system := s₀ } labels s ∧ s.copies.length = 1 ∧
        s.system.dispatched.map TaskPlan.key = keys := by
  obtain ⟨x, hx, h⟩ := Option.bind_eq_some_iff.1 h
  obtain ⟨target, hn, h⟩ := Option.bind_eq_some_iff.1 h
  obtain ⟨⟨⟩, hc, h⟩ := Option.bind_eq_some_iff.1 h
  obtain ⟨y, hy, h⟩ := Option.bind_eq_some_iff.1 h
  obtain ⟨hpre, hpl⟩ := System.steps_of_turns (fun _ _ _ => rfl) hx
  obtain ⟨hpost, hpol⟩ := System.steps_of_turns (fun _ _ _ => rfl) hy
  have hsteps := ((quiet_of_run hpre hpl []).append
    (quiet_restart (eq_of_toOption hn) (eq_of_toOption hc))).append (quiet_of_run hpost hpol _)
  exact ⟨_, _, hsteps, rfl, Option.some.inj h⟩

/-- A round of planning that falls between the new attempt and the copy: the new attempt, the
store before the copy, and what the runtime has handed out. -/
def interrupted (s₀ : System σ) (r : RunAttempt) :
    Option (RunAttempt × σ × List (RunAttempt × Location)) := do
  let x ← System.turns (Runtime.plain []) 2 (halfDone r) s₀
  let called := RestartableState.newAttempt x.2.store 4 r.1
  let target ← called.1.toOption
  let y ← System.turns (Runtime.plain []) 2 [.wake [target], .plan] (x.2.setStore called.2)
  let _ ← (RestartableState.copyNodeStatesFrom y.2.store target r secondTask).1.toOption
  pure (target, y.2.store, y.2.dispatched.map TaskPlan.key)

theorem interrupted_spec {s₀ : System σ} {r target : RunAttempt} {store : σ}
    {keys : List (RunAttempt × Location)} {loc : Location}
    (h : interrupted s₀ r = some (target, store, keys)) (hcl : secondTask.clears loc = false)
    (ho : LawfulRuntimeState.hasOutputs store r loc) (hk : (target, loc) ∈ keys) :
    ∃ labels s, Steps (RaceStep (Runtime.plain [])) { system := s₀ } labels s ∧
      ¬ s.Undisturbed := by
  obtain ⟨x, hx, h⟩ := Option.bind_eq_some_iff.1 h
  obtain ⟨target', hn, h⟩ := Option.bind_eq_some_iff.1 h
  obtain ⟨y, hy, h⟩ := Option.bind_eq_some_iff.1 h
  obtain ⟨⟨⟩, hc, h⟩ := Option.bind_eq_some_iff.1 h
  cases h
  obtain ⟨hpre, hpl⟩ := System.steps_of_turns (fun _ _ _ => rfl) hx
  obtain ⟨hpost, hpol⟩ := System.steps_of_turns (fun _ _ _ => rfl) hy
  have hrestart := race_of_run hpre hpl [] []
  have hmade : RaceStep (Runtime.plain []) ⟨x.2, [.resolved r secondTask], []⟩ .newAttempt
      ⟨x.2.setStore _, [.made target r secondTask], []⟩ :=
    .newAttempt (s := ⟨x.2, [.resolved r secondTask], []⟩) [] [] rfl (eq_of_toOption hn)
  have hround := race_of_run hpost hpol [.made target r secondTask] []
  have hcopy : RaceStep (Runtime.plain []) ⟨y.2, [.made target r secondTask], []⟩ .copy
      ⟨y.2.setStore _, [], [⟨target, r, secondTask, y.2.store, _⟩]⟩ :=
    .copy (s := ⟨y.2, [.made target r secondTask], []⟩) [] [] rfl (eq_of_toOption hc)
  refine ⟨_, _, hrestart.append (.cons (.resolve r secondTask) (.cons hmade
    (hround.append (.cons hcopy (.nil _))))), fun hu => ?_⟩
  obtain ⟨task, ht, he⟩ := List.mem_map.1 hk
  obtain ⟨hrun, hloc⟩ := Prod.mk.inj he
  refine (hu.copies _ (.head _)).2 task ht hrun ⟨?_, ?_, Finset.notMem_empty _⟩
  · rwa [hloc]
  · rwa [hloc]

end Scenario

theorem restarted_twoTasks_inMemory :
    restarted ({ store := .started twoTasks ∅, assets := .plain } : System InMemoryRuntimeState)
      (1, 0) = some [((1, 0), [.node 0]), ((1, 0), [.node 1]), ((1, 1), [.node 1])] := by
  decide +kernel

theorem restarted_twoTasks_sqlite :
    restarted ({ store := .started twoTasks, assets := .plain } : System SqliteStore) (0, 0) =
      some [((0, 0), [.node 0]), ((0, 0), [.node 1]), ((0, 1), [.node 1])] := by
  decide +kernel

theorem restart_undisturbed_twoTasks :
    (∃ s : Race InMemoryRuntimeState, s.copies.length = 1 ∧ s.system.dispatched.map TaskPlan.key =
      [((1, 0), [.node 0]), ((1, 0), [.node 1]), ((1, 1), [.node 1])] ∧ s.Undisturbed) ∧
    ∃ s : Race SqliteStore, s.copies.length = 1 ∧ s.system.dispatched.map TaskPlan.key =
      [((0, 0), [.node 0]), ((0, 0), [.node 1]), ((0, 1), [.node 1])] ∧ s.Undisturbed := by
  obtain ⟨labels, s, h, hcopies, hkeys⟩ := restarted_spec restarted_twoTasks_inMemory
  obtain ⟨labels', s', h', hcopies', hkeys'⟩ := restarted_spec restarted_twoTasks_sqlite
  exact ⟨⟨s, hcopies, hkeys, (restart_undisturbed _ _ labels).1 _ s
      (InMemoryRuntimeState.valid_started _ _) h⟩,
    s', hcopies', hkeys', (restart_undisturbed _ _ labels').2 _ s' (SqliteStore.valid_started _) h'⟩

theorem interrupted_inMemory :
    (interrupted ({ store := .started twoTasks ∅, assets := .plain } : System InMemoryRuntimeState)
      (1, 0)).any (fun o => ((o.2.1.run (1, 0)).read [.node 0]).outputs.isSome &&
        o.2.2.contains (o.1, [LocationComponent.node 0])) = true := by
  decide +kernel

theorem interrupted_sqlite :
    (interrupted ({ store := .started twoTasks, assets := .plain } : System SqliteStore)
      (0, 0)).any (fun o => (o.2.1.state.db.nodeStates.get? (0, 0, [.node 0])).any
          (fun row => row.completeTime.isSome) &&
        o.2.2.contains (o.1, [LocationComponent.node 0])) = true := by
  decide +kernel

/-- A round of planning between the two calls of a restart hands out again, for the new
attempt, the task that the copy then retains as complete. -/
theorem restart_disturbed :
    (¬ ∀ (labels : List RaceLabel) (s : Race InMemoryRuntimeState),
      Steps (RaceStep (Runtime.plain []))
        { system := { store := .started twoTasks ∅, assets := .plain } } labels s →
      s.Undisturbed) ∧
    ¬ ∀ (labels : List RaceLabel) (s : Race SqliteStore),
      Steps (RaceStep (Runtime.plain []))
        { system := { store := .started twoTasks, assets := .plain } } labels s →
      s.Undisturbed := by
  constructor
  · intro hall
    obtain ⟨⟨target, store, keys⟩, ho, hp⟩ := (Option.any_eq_true _ _).1 interrupted_inMemory
    obtain ⟨hout, hk⟩ := Bool.and_eq_true_iff.1 hp
    obtain ⟨labels, s, h, hu⟩ := interrupted_spec ho (by decide)
      (Option.isSome_iff_ne_none.1 hout) (List.contains_iff_mem.1 hk)
    exact hu (hall labels s h)
  · intro hall
    obtain ⟨⟨target, store, keys⟩, ho, hp⟩ := (Option.any_eq_true _ _).1 interrupted_sqlite
    obtain ⟨hout, hk⟩ := Bool.and_eq_true_iff.1 hp
    obtain ⟨row, hrow, hc⟩ := (Option.any_eq_true _ _).1 hout
    obtain ⟨labels, s, h, hu⟩ := interrupted_spec ho (by decide)
      ⟨row, hrow, Option.isSome_iff_ne_none.1 hc⟩ (List.contains_iff_mem.1 hk)
    exact hu (hall labels s h)

end Tierkreis
