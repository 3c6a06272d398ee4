import Tierkreis.Runtime.SqliteStore
import Tierkreis.Runtime.Turns
import Tierkreis.State.Redelivery

/-!
# Duplicate running events

What becomes of the running events that wait to be written to a SQLite store,
in any state that the runtime can reach without outside faults.
-/

namespace Tierkreis

open Lib Lib.Run Lib.Txn Sql

namespace SqliteStore

/-- The event is accepted, and accepted again without effect. -/
def Harmless (st : SqliteStore) (q : RuntimeEvent) (now now' : Time) : Prop :=
  ∃ st', st.write (q.workflowRunId, q.attempt) now q.event = (.ok (), st') ∧
    ∃ st'', st'.write (q.workflowRunId, q.attempt) now' q.event = (.ok (), st'') ∧
      st''.state = st'.state

def Faultless (st : SqliteStore) : Prop := ∀ n, st.faults n = SqliteRuntimeState.noFaults

theorem write_eq_ok {st st' : SqliteStore} {r : RunAttempt} {now : Time} {e : WorkflowRunEvent}
    (hf : st.Faultless) (hr : hasAttempt st.state.db r = true) :
    st.write r now e = (.ok (), st') ↔
      ∃ state, st.state.write st.crates r SqliteRuntimeState.noFaults now e = (.ok (), state) ∧
        st' = st.after state := by
  obtain ⟨x, hx⟩ := readWorkflowRun_isOk.2 hr
  unfold write
  rw [hx]
  dsimp only
  rw [hf 0]
  cases st.state.write st.crates r SqliteRuntimeState.noFaults now e with
  | mk res state =>
    simp only [Prod.mk.injEq]
    constructor
    · rintro ⟨rfl, rfl⟩
      exact ⟨state, ⟨rfl, rfl⟩, rfl⟩
    · rintro ⟨_, ⟨rfl, rfl⟩, rfl⟩
      exact ⟨rfl, rfl⟩

theorem harmless_iff {st : SqliteStore} {q : RuntimeEvent} {e : NodeEvent} (hf : st.Faultless)
    (hr : hasAttempt st.state.db (q.workflowRunId, q.attempt) = true)
    (hev : q.event = .nodeEvents [e]) (he : e.status.isContainerRunning = true)
    (now now' : Time) : st.Harmless q now now' ↔ eventInputs e = [] ∧ e.status.Fits := by
  have hr' := hr
  simp only [hasAttempt, Bool.and_eq_true, decide_eq_true_eq] at hr'
  have ha : toI32 q.attempt = .ok (q.attempt : Int) := if_pos hr'.1.1
  rw [← SqliteRuntimeState.write_running_twice_iff (K := st.crates)
    (r := (q.workflowRunId, q.attempt)) ha hr'.2 he now now', Harmless, hev]
  have hkeep : ∀ state, st.state.write st.crates (q.workflowRunId, q.attempt)
      SqliteRuntimeState.noFaults now (.nodeEvents [e]) = (.ok (), state) →
      hasAttempt state.db (q.workflowRunId, q.attempt) = true := by
    intro state h
    have hg : CallFrame st.state (st.state.write st.crates (q.workflowRunId, q.attempt)
        SqliteRuntimeState.noFaults now (.nodeEvents [e])).2 := callFrame_write _ hr _ _
    rw [h] at hg
    exact hasAttempt_grows hg.1 hr
  have hf' : ∀ state, (st.after state).Faultless := fun _ n => hf (n + 1)
  constructor
  · rintro ⟨st', h₁, st'', h₂, he⟩
    rw [write_eq_ok hf hr] at h₁
    obtain ⟨state, h₁, rfl⟩ := h₁
    rw [write_eq_ok (hf' state) (hkeep state h₁)] at h₂
    obtain ⟨state', h₂, rfl⟩ := h₂
    obtain rfl : state' = state := he
    exact ⟨state', h₁, h₂⟩
  · rintro ⟨state, h₁, h₂⟩
    exact ⟨st.after state, (write_eq_ok hf hr).2 ⟨state, h₁, rfl⟩, (st.after state).after state,
      (write_eq_ok (hf' state) (hkeep state h₁)).2 ⟨state, h₂, rfl⟩, rfl⟩

/-- A call uses up its faults. -/
theorem faultless_step {st st' : SqliteStore} (h : StoreStep st st') (hf : st.Faultless) :
    st'.Faultless := by
  have hafter : ∀ state, (st.after state).Faultless := fun state n => hf (n + 1)
  cases h with
  | write r now e =>
    change (st.write r now e).2.Faultless
    unfold write
    cases readWorkflowRun st.state.db r with
    | error f => exact hf
    | ok x => exact hafter _
  | unpause r now locations =>
    change (st.unpause r now locations).2.Faultless
    unfold unpause
    cases readWorkflowRun st.state.db r with
    | error f => exact hf
    | ok x => exact hafter _
  | admin h =>
    cases h with
    | saveWorkflow name workflow hn => exact hf
    | _ => exact hafter _

end SqliteStore

section Queue

variable {R : Runtime} {s t : System SqliteStore}

/-- Events wait for attempts that have their rows, and no call is hit by a fault. -/
structure QueueInv (s : System SqliteStore) : Prop where
  faultless : s.store.Faultless
  known : ∀ q ∈ s.orchestratorEvents, hasAttempt s.store.state.db (q.workflowRunId, q.attempt) = true

theorem QueueInv.setStore {store : SqliteStore} (hs : QueueInv s) (h : StoreStep s.store store) :
    QueueInv (s.setStore store) where
  faultless := SqliteStore.faultless_step h hs.faultless
  known q hq := SqliteStore.hasAttempt_grows (SqliteStore.storeStep_frame h).1.1 (hs.known q hq)

theorem QueueInv.congr (hs : QueueInv s) (hst : t.store = s.store)
    (hq : ∀ q ∈ t.orchestratorEvents, q ∈ s.orchestratorEvents) : QueueInv t where
  faultless := hst ▸ hs.faultless
  known q h := by
    rw [hst]
    exact hs.known q (hq q h)

theorem QueueInv.deliver (hs : QueueInv s) (now : Time) (e : RuntimeEvent) :
    QueueInv (s.deliver now e) := by
  obtain ⟨processing, h⟩ := s.deliver_spec now e
  rw [h]
  exact (hs.setStore (.write _ now e.event)).congr rfl fun _ h => h

theorem QueueInv.step {label : Label} (hs : QueueInv s) (h : Step R s label t) : QueueInv t := by
  cases h with
  | wake _ _ _ _ => exact hs.congr rfl fun _ h => h
  | @plan r rs points c g actions performed u refused hp htodo hb hperm =>
    obtain ⟨events, tasks, planning, -, -, h⟩ := System.perform_spec (R := R) r refused
      (ActionPlan.ofActions R.orchestrator r performed).effects (s.planned r c u)
    rw [h]
    refine ⟨hs.faultless, fun q hq => ?_⟩
    rcases List.mem_append.1 hq with hq | hq
    · exact hs.known q hq
    · obtain ⟨e, -, rfl⟩ := List.mem_map.1 hq
      obtain ⟨x, hx, -⟩ := Result.bind_eq_ok.1 hb.graph
      exact readWorkflowRun_isOk.1 ⟨x, hx⟩
  | fail _ _ => exact hs.congr rfl fun _ h => h
  | process _ hq =>
    refine QueueInv.deliver ?_ _ _
    exact hs.congr rfl fun q h => hq ▸ .tail _ h
  | processReport _ _ =>
    refine QueueInv.deliver ?_ _ _
    exact hs.congr rfl fun _ h => h
  | report _ _ _ => exact hs.congr rfl fun _ h => h
  | unpause => exact hs.setStore (.unpause _ _ _)
  | record _ => exact hs.setStore (.write _ _ _)
  | admin h => exact hs.setStore (.admin h)
  | restart _ => exact ⟨hs.faultless, fun _ h => by cases h⟩

theorem QueueInv.steps {labels : List Label} (h : Steps (Step R) s labels t) (hs : QueueInv s) :
    QueueInv t := by
  induction h with
  | nil => exact hs
  | cons h _ ih => exact ih (hs.step h)

/-- A running event that waits to be written is harmless exactly when it carries no inputs. -/
theorem running_event_harmless_iff {store : SqliteStore} {assets : Assets} {labels : List Label}
    (hf : store.Faultless)
    (h : Steps (Step R) { store := store, assets := assets : System SqliteStore } labels s)
    {q : RuntimeEvent} (hq : q ∈ s.orchestratorEvents) {e : NodeEvent}
    (hev : q.event = .nodeEvents [e]) (he : e.status.isContainerRunning = true) (now now' : Time) :
    s.store.Harmless q now now' ↔ eventInputs e = [] ∧ e.status.Fits := by
  have hs := QueueInv.steps h ⟨hf, fun _ h => by cases h⟩
  exact SqliteStore.harmless_iff hs.faultless (hs.known q hq) hev he now now'

end Queue

/-! ## A duplicate that is refused -/

/-- A recursive `Eval` node with one input. -/
def evalOfConst : WorkflowGraph where
  nodes := .ofList [
    (0, { definition := .const .null, name := none, hasBreakpoint := false, inputs := []
          outputs := ["value"] }),
    (1, { definition := .eval none none, name := none, hasBreakpoint := false
          inputs := [⟨"x", [⟨0, "value"⟩]⟩], outputs := ["value"] }),
    (2, { definition := .output, name := none, hasBreakpoint := false
          inputs := [⟨"a", [⟨1, "value"⟩]⟩], outputs := [] })]
  outputIdx := 2
  output_mem := rfl
  link_mem := by decide

def startedEvalOfConst : System SqliteStore where
  store := .started evalOfConst
  assets := .plain

theorem faultless_started (g : WorkflowGraph) : (SqliteStore.started g).Faultless := fun _ => rfl

/-- The first running event that waits. -/
def waitingRunning (s : System SqliteStore) : Option (RuntimeEvent × NodeEvent) :=
  s.orchestratorEvents.findSome? fun q =>
    match q.event with
    | .nodeEvents [e] => if e.status.isContainerRunning then some (q, e) else none
    | _ => none

theorem waitingRunning_eq_some {s : System SqliteStore} {q : RuntimeEvent} {e : NodeEvent}
    (h : waitingRunning s = some (q, e)) : q ∈ s.orchestratorEvents ∧ q.event = .nodeEvents [e] ∧
      e.status.isContainerRunning = true := by
  obtain ⟨q', hq, h⟩ := List.exists_of_findSome?_eq_some h
  split at h
  · rename_i e' he
    split_ifs at h with hr
    cases h
    exact ⟨hq, he, hr⟩
  · cases h

/-- The running event of the first pass is not stored yet. -/
theorem running_event_harmless_iff_firstPass :
    ∃ (s : System SqliteStore) (q : RuntimeEvent) (e : NodeEvent), q ∈ s.orchestratorEvents ∧
      (eventInputs e).length = 1 ∧
      ∀ now now', s.store.Harmless q now now' ↔ eventInputs e = [] ∧ e.status.Fits := by
  have hrun : ((System.turns (Runtime.plain []) 2
      [.wake [(0, 0)], .plan, .process 1, .wake [(0, 0)], .plan] startedEvalOfConst).bind fun x =>
      (waitingRunning x.2).map fun w => (eventInputs w.2).length) = some 1 := by decide +kernel
  obtain ⟨⟨labels, s⟩, hs, hw⟩ := Option.bind_eq_some_iff.1 hrun
  obtain ⟨⟨q, e⟩, hw, hl⟩ := Option.map_eq_some_iff.1 hw
  obtain ⟨hq, hev, he⟩ := waitingRunning_eq_some hw
  have hsteps := (System.steps_of_turns (fun _ _ _ => rfl) hs).1
  exact ⟨s, q, e, hq, hl, fun now now' =>
    running_event_harmless_iff (faultless_started evalOfConst) hsteps hq hev he now now'⟩

/-- Planned twice before the first event is written, the second event is refused. -/
theorem running_event_not_harmless :
    startedEvalOfConst.store.Faultless ∧
      ∃ labels s, Steps (Step (Runtime.plain [])) startedEvalOfConst labels s ∧
        ∃ q ∈ s.orchestratorEvents, ∃ e, q.event = .nodeEvents [e] ∧
          e.status.isContainerRunning = true ∧ ¬ s.store.Harmless q 3 3 := by
  have hrun : ((System.turns (Runtime.plain []) 2
      [.wake [(0, 0)], .plan, .process 1, .wake [(0, 0)], .plan, .wake [(0, 0)], .plan, .process 2]
      startedEvalOfConst).bind fun x => (waitingRunning x.2).map fun w =>
        (x.2.store.write (w.1.workflowRunId, w.1.attempt) 3 w.1.event).1.toOption) = some none := by
    decide +kernel
  obtain ⟨⟨labels, s⟩, hs, hw⟩ := Option.bind_eq_some_iff.1 hrun
  obtain ⟨⟨q, e⟩, hw, hl⟩ := Option.map_eq_some_iff.1 hw
  obtain ⟨hq, hev, he⟩ := waitingRunning_eq_some hw
  have hsteps := (System.steps_of_turns (fun _ _ _ => rfl) hs).1
  refine ⟨faultless_started evalOfConst, labels, s, hsteps, q, hq, e, hev, he, ?_⟩
  rintro ⟨st', hst, -⟩
  rw [hst] at hl
  cases hl

end Tierkreis
