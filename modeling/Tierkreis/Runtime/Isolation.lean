import Tierkreis.Runtime.Turns
import Tierkreis.Runtime.Stores

/-!
# Failures of one run

A round of the planning loop takes the active attempts one after another. The
first that cannot be planned or performed ends the loop: what was done for the
attempts before it stands as if it were not there, and nothing is done any more
for the others.
-/

namespace Tierkreis

open Lib Lib.Run

/-- Steps inside a round. -/
def Label.WithinRound : Label → Prop
  | .wake _ | .fail | .restart => False
  | _ => True

/-- The event says that the run or one of its nodes has failed. -/
def WorkflowRunEvent.recordsError : WorkflowRunEvent → Bool
  | .errored => true
  | .nodeEvents events => events.any fun e =>
      match e.status with
      | .error .. => true
      | _ => false
  | _ => false

section Isolation

variable {σ : Type} [RuntimeState σ] (R : Runtime)

/-- The attempt cannot be planned: its context, its workflow or its actions fail. -/
inductive PassFails (s : System σ) (r : RunAttempt) (points : ReadPoint → Nat) : Prop
  | context {f : Failure} (h : s.contextFor R r = .error f)
  | graph {f : Failure} (h : RuntimeState.loadWorkflow s.store r = .error f)
  | build {c : RunContext} {g : WorkflowGraph} {fuel : Nat} {f : Failure}
      (hc : s.contextFor R r = .ok c) (hg : RuntimeState.loadWorkflow s.store r = .ok g)
      (hb : buildActions R.orchestrator (s.pass r points) fuel c.context g
        ⟨c.scheduled, c.cache, s.assets⟩ = .error f) (hf : f ≠ .outOfFuel)

/-- The pass of an attempt that fails: before anything is performed, or at an executor that
is unknown or whose call fails. `effects` is what was to be performed. -/
inductive FailedPass (s : System σ) (r : RunAttempt) : List Effect → System σ → Prop
  | planning {points : ReadPoint → Nat} (h : PassFails R s r points) :
      FailedPass s r [] { s with planning := false }
  | performing {points : ReadPoint → Nat} {c : RunContext} {g : WorkflowGraph}
      {actions performed : List Action} {t : PlanState} {refused : String → Option Nat}
      (hb : Planned R s r points c g actions t) (hperm : performed.Perm actions)
      (h : (System.perform R r refused (ActionPlan.ofActions R.orchestrator r performed).effects
        (s.planned r c t)).planning = false) :
      FailedPass s r (ActionPlan.ofActions R.orchestrator r performed).effects
        (System.perform R r refused (ActionPlan.ofActions R.orchestrator r performed).effects
          (s.planned r c t))

variable {R}

namespace ActionPlan

/-- What is performed before the state of the workflow is set. -/
def nodeEffects (plan : ActionPlan) : List Effect :=
  plan.sendComplete ++ plan.sendPaused ++ plan.sendRunning ++
    plan.tasks.toList.flatMap fun e => executeTasks e.1 e.2

/-- No event of a plan records an error, but for that of the workflow. -/
theorem recordsError_nodeEffects (plan : ActionPlan) {e : WorkflowRunEvent}
    (h : Effect.send e ∈ plan.nodeEffects) : e.recordsError = false := by
  have hnode : ∀ (loc : Location) (name : Option String) (status : NodeStatus),
      Effect.send e = sendNode loc name status → (∀ error detail, status ≠ .error error detail) →
      e.recordsError = false := by
    intro loc name status he hs
    cases he
    cases status <;> simp_all [WorkflowRunEvent.recordsError]
  simp only [nodeEffects, List.mem_append] at h
  rcases h with ((h | h) | h) | h
  · unfold sendComplete at h
    split_ifs at h
    · cases h
    · cases List.mem_singleton.1 h
      simp [WorkflowRunEvent.recordsError]
  · unfold sendPaused at h
    split_ifs at h
    · cases h
    · cases List.mem_singleton.1 h
      simp [WorkflowRunEvent.recordsError]
  · simp only [sendRunning, List.mem_append, List.mem_map] at h
    rcases h with (((⟨x, -, hx⟩ | ⟨x, -, hx⟩) | ⟨x, -, hx⟩) | ⟨x, -, hx⟩) | ⟨x, -, hx⟩ <;>
      exact hnode _ _ _ hx.symm fun error detail h => by cases h
  · obtain ⟨x, -, hx⟩ := List.mem_flatMap.1 h
    rcases List.mem_append.1 hx with hx | hx
    · obtain ⟨task, -, hx⟩ := List.mem_map.1 hx
      exact hnode _ _ _ hx.symm fun error detail h => by cases h
    · cases List.mem_singleton.1 hx

end ActionPlan

namespace System

def withTodo (s : System σ) (todo : List RunAttempt) : System σ := { s with todo := todo }

omit [RuntimeState σ] in
theorem perform_withTodo (r : RunAttempt) (refused : String → Option Nat) (effects : List Effect)
    (todo : List RunAttempt) : ∀ s : System σ,
      perform R r refused effects (s.withTodo todo) = (perform R r refused effects s).withTodo todo := by
  induction effects with
  | nil => exact fun _ => rfl
  | cons e effects ih =>
    intro s
    cases e with
    | send e => exact ih { s with orchestratorEvents := s.orchestratorEvents ++ [event r e] }
    | execute name tasks =>
      by_cases hr : name ∈ R.executors
      · simp only [perform, if_pos hr]
        cases refused name with
        | none => exact ih (s.take tasks)
        | some n => rfl
      · simp only [perform, if_neg hr]
        rfl

omit [RuntimeState σ] in
theorem todo_perform (r : RunAttempt) (refused : String → Option Nat) (effects : List Effect)
    (s : System σ) : (perform R r refused effects s).todo = s.todo := by
  obtain ⟨events, tasks, planning, -, -, h⟩ := perform_spec (R := R) r refused effects s
  rw [h]

theorem deliver_withTodo (s : System σ) (now : Time) (e : RuntimeEvent) (todo : List RunAttempt) :
    (s.withTodo todo).deliver now e = (s.deliver now e).withTodo todo := by
  unfold deliver withTodo
  dsimp only
  rcases RuntimeState.write s.store (e.workflowRunId, e.attempt) now e.event with ⟨_ | _, store⟩ <;> rfl

theorem todo_deliver (s : System σ) (now : Time) (e : RuntimeEvent) :
    (s.deliver now e).todo = s.todo := by
  obtain ⟨processing, h⟩ := deliver_spec s now e
  rw [h]
  rfl

/-- A step inside a round does not depend on what is left of the round behind the attempts
`l`, as long as one of them is planned at most. -/
theorem step_withTodo {s t : System σ} {label : Label} {l m : List RunAttempt}
    (h : Step R s label t) (hw : label.WithinRound) (hs : s.todo = l ++ m)
    (ht : m.length ≤ t.todo.length) (m' : List RunAttempt) :
    ∃ l', t.todo = l' ++ m ∧ Step R (s.withTodo (l ++ m')) label (t.withTodo (l' ++ m')) := by
  cases h with
  | wake => cases hw
  | fail => cases hw
  | restart => cases hw
  | plan hp htodo hb hperm =>
    rename_i r rs points c g actions performed u refused
    have htail : (s.planned r c u).todo = rs := by
      change s.todo.tail = rs
      rw [htodo]
      rfl
    rw [todo_perform, htail] at ht ⊢
    rw [hs] at htodo
    cases l with
    | nil =>
      -- the attempt that is planned is not one of `l`
      rw [List.nil_append] at htodo
      rw [htodo, List.length_cons] at ht
      omega
    | cons r' l =>
      cases htodo
      refine ⟨l, rfl, ?_⟩
      rw [← perform_withTodo]
      exact .plan hp rfl ⟨hb.context, hb.graph, hb.build⟩ hperm
  | process hp h =>
    rename_i e es now
    refine ⟨l, (todo_deliver _ _ _).trans hs, ?_⟩
    rw [← deliver_withTodo]
    exact .process hp h
  | processReport hp h =>
    refine ⟨l, (todo_deliver _ _ _).trans hs, ?_⟩
    rw [← deliver_withTodo]
    exact .processReport hp h
  | report h hr he => exact ⟨l, hs, .report h hr he⟩
  | unpause => exact ⟨l, hs, .unpause⟩
  | record h => exact ⟨l, hs, .record h⟩
  | admin h => exact ⟨l, hs, .admin h⟩

theorem todo_length_step {s t : System σ} {label : Label} (h : Step R s label t)
    (hw : label.WithinRound) : t.todo.length ≤ s.todo.length := by
  cases h with
  | wake => cases hw
  | fail => cases hw
  | restart => cases hw
  | plan hp htodo hb hperm =>
    rw [todo_perform]
    exact List.length_tail.trans_le (Nat.sub_le _ _)
  | process hp h => rw [todo_deliver]
  | processReport hp h => rw [todo_deliver]
  | _ => exact Nat.le_refl _

theorem todo_length_steps {s t : System σ} {labels : List Label} (h : Steps (Step R) s labels t)
    (hw : ∀ label ∈ labels, label.WithinRound) : t.todo.length ≤ s.todo.length := by
  induction h with
  | nil s => exact Nat.le_refl _
  | cons h _ ih =>
    rw [List.forall_mem_cons] at hw
    exact (ih hw.2).trans (todo_length_step h hw.1)

theorem steps_withTodo {s t : System σ} {labels : List Label} (h : Steps (Step R) s labels t)
    (hw : ∀ label ∈ labels, label.WithinRound) {m : List RunAttempt}
    (ht : m.length ≤ t.todo.length) (m' : List RunAttempt) :
    ∀ {l}, s.todo = l ++ m → ∃ l', t.todo = l' ++ m ∧
      Steps (Step R) (s.withTodo (l ++ m')) labels (t.withTodo (l' ++ m')) := by
  induction h with
  | nil s => exact fun {l} hs => ⟨l, hs, .nil _⟩
  | cons h hrest ih =>
    intro l hs
    rw [List.forall_mem_cons] at hw
    obtain ⟨l₁, hl₁, hstep⟩ := step_withTodo h hw.1 hs (ht.trans (todo_length_steps hrest hw.2)) m'
    obtain ⟨l₂, hl₂, hsteps⟩ := ih hw.2 ht hl₁
    exact ⟨l₂, hl₂, .cons hstep hsteps⟩

/-- What a round does for its first attempts does not depend on the others. -/
theorem steps_round_iff {s t : System σ} {labels : List Label} {l : List RunAttempt}
    (hw : ∀ label ∈ labels, label.WithinRound) (m m' : List RunAttempt) :
    Steps (Step R) (s.withTodo (l ++ m)) labels (t.withTodo m) ↔
      Steps (Step R) (s.withTodo (l ++ m')) labels (t.withTodo m') := by
  suffices h : ∀ m m' : List RunAttempt,
      Steps (Step R) (s.withTodo (l ++ m)) labels (t.withTodo m) →
      Steps (Step R) (s.withTodo (l ++ m')) labels (t.withTodo m') from ⟨h m m', h m' m⟩
  intro m m' h
  obtain ⟨l', hl', hs⟩ := steps_withTodo h hw (Nat.le_refl _) m' rfl
  obtain rfl : l' = [] := List.append_cancel_right (show l' ++ m = [] ++ m from hl'.symm)
  exact hs

/-- Once the planning loop has ended, nothing is planned in this process. -/
theorem step_of_not_planning {s t : System σ} {label : Label} (h : Step R s label t)
    (hp : s.planning = false) (hr : label ≠ .restart) :
    t.planning = false ∧ t.dispatched = s.dispatched ∧
      t.orchestratorEvents <:+ s.orchestratorEvents := by
  cases h with
  | wake h => rw [hp] at h; cases h
  | plan h => rw [hp] at h; cases h
  | fail h => rw [hp] at h; cases h
  | restart => exact absurd rfl hr
  | process hq h =>
    rename_i e es now
    obtain ⟨processing, hd⟩ := deliver_spec ({ s with orchestratorEvents := es } : System σ) now e
    rw [hd, h]
    exact ⟨hp, rfl, List.suffix_cons _ _⟩
  | processReport hq h =>
    rename_i e index now
    obtain ⟨processing, hd⟩ := deliver_spec
      ({ s with executorEvents := s.executorEvents.eraseIdx index } : System σ) now e
    rw [hd]
    exact ⟨hp, rfl, List.suffix_refl _⟩
  | _ => exact ⟨hp, rfl, List.suffix_refl _⟩

theorem steps_of_not_planning {s t : System σ} {labels : List Label}
    (h : Steps (Step R) s labels t) (hp : s.planning = false) (hr : Label.restart ∉ labels) :
    t.planning = false ∧ t.dispatched = s.dispatched ∧
      t.orchestratorEvents <:+ s.orchestratorEvents := by
  induction h with
  | nil s => exact ⟨hp, rfl, List.suffix_refl _⟩
  | cons h _ ih =>
    rw [List.mem_cons, not_or] at hr
    obtain ⟨hp₁, hd₁, he₁⟩ := step_of_not_planning h hp (Ne.symm hr.1)
    obtain ⟨hp₂, hd₂, he₂⟩ := ih hp₁ hr.2
    exact ⟨hp₂, hd₂.trans hd₁, he₂.trans he₁⟩

/-- What is performed of effects up to a call of an executor that fails: what comes before the
call, and of the call the tasks that the executor has taken by then. -/
inductive CutOff : List Effect → List Effect → Prop
  | unknown (name : String) (tasks : List TaskPlan) (rest : List Effect) :
      CutOff (.execute name tasks :: rest) []
  | within (name : String) (tasks : List TaskPlan) (rest : List Effect) (n : Nat) :
      CutOff (.execute name tasks :: rest) [.execute name (tasks.take n)]
  | cons (e : Effect) {effects done : List Effect} (h : CutOff effects done) :
      CutOff (e :: effects) (e :: done)

omit [RuntimeState σ] in
/-- Performing stops at tasks that are not taken. -/
theorem perform_stops (r : RunAttempt) (refused : String → Option Nat) {effects : List Effect} :
    ∀ {s : System σ}, s.planning = true → (perform R r refused effects s).planning = false →
      ∃ done, CutOff effects done ∧ perform R r refused effects s = { s with
        orchestratorEvents := s.orchestratorEvents ++ (done.filterMap Effect.event?).map (event r)
        inFlight := s.inFlight ++ done.flatMap Effect.tasks
        dispatched := s.dispatched ++ done.flatMap Effect.tasks
        planning := false } := by
  induction effects with
  | nil =>
    intro s hp h
    rw [perform, hp] at h
    cases h
  | cons e effects ih =>
    intro s hp h
    cases e with
    | send e =>
      rw [perform] at h ⊢
      obtain ⟨done, hcut, hs⟩ := ih (by exact hp) h
      refine ⟨.send e :: done, .cons _ hcut, ?_⟩
      rw [hs]
      simp [Effect.event?, Effect.tasks]
    | execute name tasks =>
      rw [perform] at h ⊢
      by_cases hr : name ∈ R.executors
      · rw [if_pos hr] at h ⊢
        cases hn : refused name with
        | none =>
          rw [hn] at h
          obtain ⟨done, hcut, hs⟩ := ih (by exact hp) h
          refine ⟨.execute name tasks :: done, .cons _ hcut, ?_⟩
          dsimp only
          rw [hs, List.filterMap_cons_none
            (show Effect.event? (.execute name tasks) = none from rfl)]
          simp [take, Effect.tasks]
        | some n =>
          refine ⟨[.execute name (tasks.take n)], .within _ _ _ n, ?_⟩
          simp [take, Effect.event?, Effect.tasks]
      · rw [if_neg hr]
        exact ⟨[], .unknown _ _ _, by simp⟩

/-- The events that are sent come before the call that fails. -/
theorem CutOff.split {effects done : List Effect} (h : CutOff effects done) :
    ∃ before name tasks rest, effects = before ++ .execute name tasks :: rest ∧
      ∀ e, Effect.send e ∈ done → Effect.send e ∈ before := by
  induction h with
  | unknown name tasks rest => exact ⟨[], name, tasks, rest, rfl, fun e he => he⟩
  | within name tasks rest n =>
    refine ⟨[], name, tasks, rest, rfl, fun e he => ?_⟩
    cases List.mem_singleton.1 he
  | cons e' _ ih =>
    obtain ⟨before, name, tasks, rest, rfl, hsent⟩ := ih
    refine ⟨e' :: before, name, tasks, rest, rfl, fun e he => ?_⟩
    rcases List.mem_cons.1 he with rfl | he
    · exact .head _
    · exact .tail _ (hsent e he)

end System

/-- A pass that fails ends the loop. Nothing of a plan is performed when planning fails. Otherwise
events are sent, none of which records an error, and tasks are handed over up to the one at which an
executor fails. -/
theorem FailedPass.spec {s t : System σ} {r : RunAttempt} {effects : List Effect}
    (hp : s.planning = true) (h : FailedPass R s r effects t) :
    t.planning = false ∧ t.store = s.store ∧ ∃ done, (effects = [] ∧ done = [] ∨
        System.CutOff effects done) ∧
      (∀ e, Effect.send e ∈ done → e.recordsError = false) ∧
      t.orchestratorEvents = s.orchestratorEvents ++
        (done.filterMap Effect.event?).map (System.event r) ∧
      t.dispatched = s.dispatched ++ done.flatMap Effect.tasks := by
  cases h with
  | planning h =>
    exact ⟨rfl, rfl, [], .inl ⟨rfl, rfl⟩, fun e he => (by cases he), by simp, by simp⟩
  | performing hb hperm h =>
    rename_i points c g actions performed u refused
    obtain ⟨done, hcut, hs⟩ :=
      System.perform_stops r refused (show (s.planned r c u).planning = true from hp) h
    rw [hs]
    refine ⟨rfl, rfl, done, .inr hcut, fun e hm => ?_, rfl, rfl⟩
    obtain ⟨before, name, tasks, rest, he, hsent⟩ := hcut.split
    -- the failing effect is not the last one, which sets the state of the workflow
    have hsplit : (ActionPlan.ofActions R.orchestrator r performed).nodeEffects ++
        ((ActionPlan.ofActions R.orchestrator r performed).setWorkflowState.toList.map fun s =>
          Effect.send s.event) = before ++ .execute name tasks :: rest := he
    rcases List.append_eq_append_iff.1 hsplit with ⟨l, hd, hw⟩ | ⟨l, hn, -⟩
    · have hmem : Effect.execute name tasks ∈
          ((ActionPlan.ofActions R.orchestrator r performed).setWorkflowState.toList.map fun s =>
            Effect.send s.event) := by
        rw [hw]
        exact List.mem_append_right _ (.head _)
      obtain ⟨x, -, hx⟩ := List.mem_map.1 hmem
      cases hx
    · refine ActionPlan.recordsError_nodeEffects (ActionPlan.ofActions R.orchestrator r performed) ?_
      rw [hn]
      exact List.mem_append_left _ (hsent e hm)

/-- When the pass of `r` fails in a round, the passes before it in the round were what they
are without `r`, no error is recorded for `r`, and nothing more is planned in this process. -/
theorem failure_ends_round {s t u v : System σ} {before after : List RunAttempt} {r : RunAttempt}
    {labels labels' : List Label} {effects : List Effect}
    (hw : ∀ label ∈ labels, label.WithinRound)
    (hround : Steps (Step R) (s.withTodo (before ++ r :: after)) labels (t.withTodo (r :: after)))
    (hp : t.planning = true) (hf : FailedPass R (t.withTodo (r :: after)) r effects u)
    (hrest : Steps (Step R) u labels' v) (hn : Label.restart ∉ labels') :
    Steps (Step R) (s.withTodo (before ++ after)) labels (t.withTodo after) ∧
      (u.store = t.store ∧ ∃ done, (effects = [] ∧ done = [] ∨ System.CutOff effects done) ∧
        (∀ e, Effect.send e ∈ done → e.recordsError = false) ∧
        u.orchestratorEvents = t.orchestratorEvents ++
          (done.filterMap Effect.event?).map (System.event r) ∧
        u.dispatched = t.dispatched ++ done.flatMap Effect.tasks) ∧
      v.planning = false ∧ v.dispatched = u.dispatched ∧
        v.orchestratorEvents <:+ u.orchestratorEvents := by
  obtain ⟨hplanning, hstore, hdone⟩ :=
    hf.spec (show (t.withTodo (r :: after)).planning = true from hp)
  exact ⟨(System.steps_round_iff hw _ _).1 hround, ⟨hstore, hdone⟩,
    System.steps_of_not_planning hrest hplanning hn⟩

end Isolation

/-! ## Two runs -/

/-- One task, which may ask for an execution context. -/
def oneTask (remote : Bool) : WorkflowGraph where
  nodes := .ofList [
    (0, { definition := .task "worker" "task" (if remote then some "gpu" else none) none
          name := none, hasBreakpoint := false, inputs := [], outputs := ["value"] }),
    (1, { definition := .output, name := none, hasBreakpoint := false
          inputs := [⟨"a", [⟨0, "value"⟩]⟩], outputs := [] })]
  outputIdx := 1
  output_mem := rfl
  link_mem := by cases remote <;> decide

/-- Run 1 can be planned, and run 2 asks for a context without any profile. -/
def twoRuns : System InMemoryRuntimeState where
  store := (({ workflows := .ofList [(1, (none, oneTask false)), (2, (none, oneTask true))]
               runs := ∅
               watch := ⟨∅⟩ } : InMemoryRuntimeState).newWorkflowRunState 0 1 1 ∅).newWorkflowRunState
    0 2 2 ∅
  assets := .plain

theorem failedPass_twoRuns (after : List RunAttempt) :
    FailedPass (Runtime.plain []) (twoRuns.withTodo ((2, 0) :: after)) (2, 0) []
      { twoRuns.withTodo ((2, 0) :: after) with planning := false } := by
  have hb : (match buildActions (Runtime.plain []).orchestrator
      (twoRuns.pass (2, 0) fun _ => 0) 2 { profiles := none } (oneTask true)
      ⟨[], ∅, twoRuns.assets⟩ with
    | .error f => decide (f ≠ .outOfFuel)
    | .ok _ => false) = true := by decide +kernel
  split at hb
  · rename_i f hf
    exact .planning (.build rfl rfl hf (of_decide_eq_true hb))
  · cases hb

theorem failure_ends_round_twoRuns :
    ∃ u : System InMemoryRuntimeState, u.store = twoRuns.store ∧ u.planning = false ∧
      u.dispatched = [] := by
  have hround : Steps (Step (Runtime.plain [])) (twoRuns.withTodo ([] ++ (2, 0) :: [(1, 0)])) []
      (twoRuns.withTodo ((2, 0) :: [(1, 0)])) := .nil _
  have h := failure_ends_round (fun label h => by cases h) hround rfl
    (failedPass_twoRuns [(1, 0)]) (.nil _) List.not_mem_nil
  exact ⟨_, h.2.1.1, h.2.2.1, rfl⟩

/-- Without run 2 the task of run 1 is handed out. Behind run 2 it never is. -/
theorem not_isolated :
    ∃ t u effects labels, twoRuns.planning = true ∧
      FailedPass (Runtime.plain []) (twoRuns.withTodo [(2, 0), (1, 0)]) (2, 0) effects u ∧
      Steps (Step (Runtime.plain [])) (twoRuns.withTodo [(1, 0)]) labels t ∧
      (∀ label ∈ labels, label.WithinRound) ∧
      ¬ ∃ labels' v, Label.restart ∉ labels' ∧ Steps (Step (Runtime.plain [])) u labels' v ∧
        ∀ task ∈ t.dispatched, task.run ≠ (2, 0) → task ∈ v.dispatched := by
  have hp : ((System.planTurn (Runtime.plain []) 2 (twoRuns.withTodo [(1, 0)])).map fun x =>
      x.2.dispatched.map TaskPlan.run) = some [(1, 0)] := by decide +kernel
  obtain ⟨⟨label, t⟩, ht, hrun⟩ := Option.map_eq_some_iff.1 hp
  obtain ⟨hs, actions, rfl⟩ := System.step_of_planTurn rfl ht
  refine ⟨t, _, [], _, rfl, failedPass_twoRuns [(1, 0)], .cons hs (.nil t), fun label hm => ?_, ?_⟩
  · rw [List.mem_singleton.1 hm]
    trivial
  rintro ⟨labels', v, hn, hv, hd⟩
  obtain ⟨task, hm, hrun⟩ := List.mem_map.1
    (show (1, 0) ∈ t.dispatched.map TaskPlan.run by rw [hrun]; exact .head _)
  have hmem := hd task hm (by rw [hrun]; decide)
  rw [(System.steps_of_not_planning hv rfl hn).2.1] at hmem
  cases hmem

end Tierkreis
