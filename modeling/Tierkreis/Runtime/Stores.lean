import Tierkreis.Restart.Filter
import Tierkreis.Runtime.System

/-!
# What the runtime relies on in a store

A store knows the attempts that it holds, keeps their workflows, and never takes
back the outputs of a node, except by a restart that copies over them.
-/

namespace Tierkreis

open Lib

class LawfulRuntimeState (σ : Type) extends RuntimeState σ where
  /-- What holds of a store in any state. -/
  valid : σ → Prop
  known : σ → RunAttempt → Prop
  hasOutputs : σ → RunAttempt → Location → Prop
  valid_step : ∀ {st st' : σ}, StoreStep st st' → valid st → valid st'
  known_of_active : ∀ {st : σ} {r : RunAttempt}, valid st → r ∈ RuntimeState.activeRuns st →
    known st r
  known_step : ∀ {st st' : σ} {r : RunAttempt}, StoreStep st st' → known st r → known st' r
  workflow_step : ∀ {st st' : σ} {r : RunAttempt} {g : WorkflowGraph}, StoreStep st st' →
    known st r → RuntimeState.loadWorkflow st r = .ok g → RuntimeState.loadWorkflow st' r = .ok g
  hasOutputs_write : ∀ {st : σ} {r : RunAttempt} {loc : Location} (r' : RunAttempt) (now : Time)
    (e : WorkflowRunEvent), hasOutputs st r loc → hasOutputs (RuntimeState.write st r' now e).2 r loc
  hasOutputs_unpause : ∀ {st : σ} {r : RunAttempt} {loc : Location} (r' : RunAttempt) (now : Time)
    (locations : List Location), hasOutputs st r loc →
    hasOutputs (RuntimeState.unpause st r' now locations).2 r loc
  outputs_of_readMany : ∀ {st : σ} {r : RunAttempt} {loc : Location} {locations : List Location}
    {nodeStates : NodeStates}, hasOutputs st r loc →
    WorkflowRunState.readMany st r locations = .ok nodeStates → loc ∈ locations →
    (stateAt nodeStates loc).outputs ≠ none

/-! ## The in-memory store -/

namespace InMemory

theorem outputs_rename (s : NodeState) (name : Option String) : (rename s name).outputs = s.outputs := by
  unfold rename
  split_ifs <;> rfl

theorem completeTime_rename (s : NodeState) (name : Option String) :
    (rename s name).completeTime = s.completeTime := by
  unfold rename
  split_ifs <;> rfl

/-- Outputs are set by the first completion, and by nothing else. -/
theorem outputs_foldNodeEvent (now : Time) (s : NodeState) (e : NodeEvent) :
    (foldNodeEvent now s e).1.outputs = s.outputs ∨
      ∃ outputs, e.status = .complete outputs ∧ s.completeTime = none ∧
        (foldNodeEvent now s e).1.outputs = some outputs := by
  obtain ⟨loc, name, status⟩ := e
  rw [← outputs_rename s name, ← completeTime_rename s name]
  unfold foldNodeEvent
  generalize rename s name = s
  cases status with
  | complete outputs =>
    cases hc : s.completeTime with
    | none => exact .inr ⟨outputs, rfl, rfl, by simp [foldStatus, hc]⟩
    | some t => exact .inl (by simp [foldStatus, hc])
  | running update =>
    left
    rcases update with _ | _ | _ | _ | _ | _ <;> simp only [foldStatus] <;> split_ifs <;> rfl
  | error error detail =>
    left
    simp only [foldStatus]
    split_ifs <;> rfl
  | _ => exact .inl rfl

end InMemory

namespace RunAttemptState

theorem outputs_handleNodeEvents (now : Time) (loc : Location) {events : List NodeEvent} :
    ∀ {run : RunAttemptState}, (run.read loc).outputs ≠ none →
      ((run.handleNodeEvents now events).read loc).outputs ≠ none := by
  induction events with
  | nil => exact fun h => h
  | cons e events ih =>
    intro run h
    rw [handleNodeEvents, List.foldl_cons, ← handleNodeEvents]
    refine ih ?_
    rw [read_handleNodeEvent]
    split_ifs with hl
    · subst hl
      rcases InMemory.outputs_foldNodeEvent now (run.read e.loc) e with ho | ⟨outputs, -, -, ho⟩
      · rwa [ho]
      · rw [ho]
        exact Option.some_ne_none _
    · exact h

theorem outputs_writeEvent (now : Time) (loc : Location) {run : RunAttemptState}
    (e : WorkflowRunEvent) (h : (run.read loc).outputs ≠ none) :
    ((run.writeEvent now e).read loc).outputs ≠ none := by
  cases e with
  | nodeEvents events => exact outputs_handleNodeEvents now loc h
  | _ => exact h

end RunAttemptState

namespace InMemoryRuntimeState

/-- New workflows, new runs, and the two steps of a restart. -/
inductive Admin (st : InMemoryRuntimeState) : InMemoryRuntimeState → Prop
  | saveWorkflow {id : Uuid} (name : Option String) (workflow : WorkflowGraph)
      (h : st.workflows.get? id = none) :
      Admin st { st with workflows := st.workflows.insert id (name, workflow) }
  | newRun {runId : Uuid} (now : Time) (workflowId : Uuid) (inputs : Specs)
      (h : ∀ attempt, st.runs.get? (runId, attempt) = none) :
      Admin st (st.newWorkflowRunState now runId workflowId inputs)
  | newAttempt {runId : Uuid} {now : Time} {r : RunAttempt} {st' : InMemoryRuntimeState}
      (h : st.newAttempt now runId = .ok (r, st')) : Admin st st'
  | copyNodeStates {target source : RunAttempt} {f : NodeCopyFilter} {st' : InMemoryRuntimeState}
      (h : st.copyNodeStatesFrom target source f = .ok st') : Admin st st'

instance : RuntimeState InMemoryRuntimeState where
  activeRuns st := st.watch.activeRuns
  loadWorkflow := loadWorkflow
  write st r now e := (.ok (), st.write r now e)
  unpause st r now locations := (.ok (), st.unpause r now locations)
  admin := Admin
  reopen _ := { workflows := ∅, runs := ∅, watch := ⟨∅⟩ }

/-- A store changes the entries of one attempt, keeps the workflow of an entry, and keeps the
workflows. -/
theorem storeStep_frame {st st' : InMemoryRuntimeState} (h : StoreStep st st') :
    (∀ r, (st.runs.get? r).isSome → (st'.runs.get? r).isSome ∧
      (st'.run r).workflowId = (st.run r).workflowId) ∧
    (∀ id e, st.workflows.get? id = some e → st'.workflows.get? id = some e) ∧
    ∀ r ∈ st'.watch.activeRuns, r ∈ st.watch.activeRuns ∨ (st'.runs.get? r).isSome := by
  have hput : ∀ (r : RunAttempt) (run : RunAttemptState) (watch : RuntimeWatchState),
      ((st.runs.get? r).isSome → run.workflowId = (st.run r).workflowId) →
      (∀ r' ∈ watch.activeRuns, r' ∈ st.watch.activeRuns ∨ r' = r) →
      let st' := { st with runs := st.runs.insert r run, watch := watch }
      (∀ r, (st.runs.get? r).isSome → (st'.runs.get? r).isSome ∧
        (st'.run r).workflowId = (st.run r).workflowId) ∧
      (∀ id e, st.workflows.get? id = some e → st'.workflows.get? id = some e) ∧
      ∀ r ∈ st'.watch.activeRuns, r ∈ st.watch.activeRuns ∨ (st'.runs.get? r).isSome := by
    intro r run watch hw ha
    refine ⟨fun r' hr' => ?_, fun _ _ h => h, fun r' hr' => ?_⟩
    · by_cases e : r' = r
      · subst e
        simpa [InMemoryRuntimeState.run] using hw hr'
      · simpa [InMemoryRuntimeState.run, HashMap.get?_insert_ne _ _ e] using hr'
    · refine (ha r' hr').imp_right ?_
      rintro rfl
      simp
  have hupdate : ∀ (r : RunAttempt) (stopped : Bool),
      ∀ r' ∈ (st.watch.update r stopped).activeRuns, r' ∈ st.watch.activeRuns ∨ r' = r := by
    intro r stopped r' hr'
    rw [RuntimeWatchState.mem_update] at hr'
    split_ifs at hr' with e
    · exact .inr e
    · exact .inl hr'
  cases h with
  | write r now e =>
    refine hput r _ _ (fun _ => ?_) (hupdate r _)
    cases e with
    | nodeEvents events =>
      change ((st.run r).handleNodeEvents now events).workflowId = _
      rw [RunAttemptState.handleNodeEvents_frame]
    | _ => rfl
  | unpause r now locations =>
    refine hput r _ _ (fun _ => ?_) fun r' hr' => ?_
    · rw [RunAttemptState.unpause_frame]
    · split_ifs at hr'
      · exact .inl hr'
      · exact hupdate r false r' hr'
  | admin h =>
    cases h with
    | saveWorkflow name workflow h =>
      refine ⟨fun r hr => ⟨hr, rfl⟩, fun id e he => ?_, fun r hr => .inl hr⟩
      rw [HashMap.get?_insert_ne _ _ (by rintro rfl; rw [h] at he; cases he)]
      exact he
    | newRun now workflowId inputs h =>
      refine hput _ _ _ (fun hr => ?_) (hupdate _ false)
      rw [h 0] at hr
      cases hr
    | newAttempt h =>
      obtain ⟨hfree, last, inputs, -, -, rfl⟩ := st.newAttempt_eq_ok h
      refine hput _ _ _ (fun hr => ?_) (hupdate _ false)
      rw [hfree] at hr
      cases hr
    | copyNodeStates h =>
      obtain ⟨sourceRun, -, rfl⟩ := st.copyNodeStatesFrom_eq_ok.1 h
      exact hput _ _ _ (fun _ => rfl) fun r hr => .inl hr

theorem stateAt_readMany {st : InMemoryRuntimeState} {r : RunAttempt} {locations : List Location}
    {nodeStates : NodeStates} (h : st.readMany r locations = .ok nodeStates) {loc : Location}
    (hl : loc ∈ locations) : stateAt nodeStates loc = (st.run r).read loc := by
  unfold readMany getRunState okOr at h
  cases hr : st.runs.get? r with
  | none => simp [hr, Except.map] at h
  | some run =>
    simp only [hr, Except.map, Except.ok.injEq] at h
    subst h
    rw [stateAt, RunAttemptState.readMany, HashMap.get?_ofList_map (fun loc => run.read loc),
      if_pos hl, InMemoryRuntimeState.run, hr]
    rfl

instance : LawfulRuntimeState InMemoryRuntimeState where
  valid st := ∀ r ∈ st.watch.activeRuns, (st.runs.get? r).isSome
  known st r := (st.runs.get? r).isSome
  hasOutputs st r loc := ((st.run r).read loc).outputs ≠ none
  valid_step h hv r hr := by
    obtain ⟨hk, -, ha⟩ := storeStep_frame h
    rcases ha r hr with hr | hr
    · exact (hk r (hv r hr)).1
    · exact hr
  known_of_active hv hr := hv _ hr
  known_step h hk := ((storeStep_frame h).1 _ hk).1
  workflow_step {st st' r g} h hk hg := by
    obtain ⟨hr, hw, -⟩ := storeStep_frame h
    change st.loadWorkflow r = .ok g at hg
    change st'.loadWorkflow r = .ok g
    unfold loadWorkflow at hg ⊢
    rw [(hr r hk).2]
    cases he : st.workflows.get? (st.run r).workflowId with
    | none => simp [he, okOr, Except.map] at hg
    | some e => rwa [hw _ _ he, ← he]
  hasOutputs_write {st r loc} r' now e h := by
    change (((st.write r' now e).run r).read loc).outputs ≠ none
    by_cases hr : r = r'
    · subst hr
      rw [run_write]
      exact RunAttemptState.outputs_writeEvent now loc e h
    · rwa [run_write_of_ne _ hr]
  hasOutputs_unpause {st r loc} r' now locations h := by
    change (((st.unpause r' now locations).run r).read loc).outputs ≠ none
    by_cases hr : r = r'
    · subst hr
      rw [run_unpause, RunAttemptState.read_unpause]
      split_ifs <;> exact h
    · rwa [InMemoryRuntimeState.run, InMemoryRuntimeState.unpause, HashMap.get?_insert_ne _ _ hr]
  outputs_of_readMany {st r loc locations nodeStates} h hread hl := by
    have h' : stateAt nodeStates loc = (st.run r).read loc := stateAt_readMany hread hl
    rwa [h']

/-- A store with one workflow and a run of it that has just begun. -/
def started (g : WorkflowGraph) (inputs : Specs) : InMemoryRuntimeState :=
  { workflows := .ofList [(1, (none, g))], runs := ∅, watch := ⟨∅⟩ :
    InMemoryRuntimeState }.newWorkflowRunState 0 1 1 inputs

theorem valid_started (g : WorkflowGraph) (inputs : Specs) :
    LawfulRuntimeState.valid (started g inputs) := by
  intro r hr
  change r ∈ insert (1, 0) ∅ at hr
  obtain rfl : r = (1, 0) := by simpa using hr
  rfl

end InMemoryRuntimeState

end Tierkreis
