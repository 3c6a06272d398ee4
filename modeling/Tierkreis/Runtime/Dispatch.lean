import Tierkreis.Orchestrator.Scheduled
import Tierkreis.Runtime.Stores
import Tierkreis.Runtime.Turns

/-!
# At most one dispatch

A context remembers the tasks that it handed out. As long as it lives, it hands
out none of them again; a new context does not know them, and hands out those
that have no outputs yet.
-/

namespace Tierkreis

open Lib Lib.Run

variable {σ : Type} [LawfulRuntimeState σ] {R : Runtime} {s t : System σ} {r : RunAttempt}
  {loc : Location} {g : WorkflowGraph}

/-- Every state that the current pass can read has outputs for the node. -/
def System.Settled (s : System σ) (r : RunAttempt) (loc : Location) : Prop :=
  ∀ st ∈ s.readable, LawfulRuntimeState.hasOutputs st r loc

/-- The context of the attempt remembers the task. -/
def System.Remembers (s : System σ) (r : RunAttempt) (loc : Location) : Prop :=
  ∃ c g, s.contexts.get? r = some c ∧ RuntimeState.loadWorkflow s.store r = .ok g ∧
    TaskAt g c.cache loc ∧ loc ∈ c.scheduled

/-- The turns of one process in which no context is made anew while a task that was handed
out for its attempt has no outputs, and no restart copies over outputs. -/
def CarefulStep (R : Runtime) (s : System σ) (label : Label) (t : System σ) : Prop :=
  Step R s label t ∧
    match label with
    | .plan .. => ∀ r rs, s.todo = r :: rs → s.contexts.get? r = none →
        ∀ task ∈ s.dispatched, task.run = r → s.Settled r task.loc
    | .admin => ∀ r loc, LawfulRuntimeState.hasOutputs s.store r loc →
        LawfulRuntimeState.hasOutputs t.store r loc
    | .restart => False
    | _ => True

structure DispatchInv (s : System σ) : Prop where
  valid : LawfulRuntimeState.valid s.store
  todo : ∀ r ∈ s.todo, LawfulRuntimeState.known s.store r
  root : ∀ r c, s.contexts.get? r = some c → c.context.parentLoc = Location.root
  nodup : (s.dispatched.map TaskPlan.key).Nodup
  tasks : ∀ task ∈ s.dispatched, LawfulRuntimeState.known s.store task.run ∧
    (s.Settled task.run task.loc ∨ s.Remembers task.run task.loc ∨
      s.contexts.get? task.run = none)

theorem DispatchInv.init {store : σ} (hv : LawfulRuntimeState.valid store) (assets : Assets) :
    DispatchInv { store := store, assets := assets : System σ } where
  valid := hv
  todo r hr := by cases hr
  root r c hc := by cases hc
  nodup := List.nodup_nil
  tasks task ht := by cases ht

/-- A change of the store that takes back no outputs. -/
theorem DispatchInv.setStore {store : σ} (hs : DispatchInv s) (h : StoreStep s.store store)
    (ho : ∀ r loc, LawfulRuntimeState.hasOutputs s.store r loc →
      LawfulRuntimeState.hasOutputs store r loc) : DispatchInv (s.setStore store) where
  valid := LawfulRuntimeState.valid_step h hs.valid
  todo r hr := LawfulRuntimeState.known_step h (hs.todo r hr)
  root := hs.root
  nodup := hs.nodup
  tasks task ht := by
    obtain ⟨hk, hd⟩ := hs.tasks task ht
    refine ⟨LawfulRuntimeState.known_step h hk, hd.imp ?_ (Or.imp_left ?_)⟩
    · rintro hset st hst
      rcases List.mem_cons.1 hst with rfl | hst
      · exact ho _ _ (hset _ (.head _))
      · exact hset st hst
    · rintro ⟨c, g, hc, hg, hta, hm⟩
      exact ⟨c, g, hc, LawfulRuntimeState.workflow_step h hk hg, hta, hm⟩

/-- Queues, assets and the running of the loops are of no account. -/
theorem DispatchInv.congr (hs : DispatchInv s) (hst : t.store = s.store) (htodo : t.todo = s.todo)
    (hc : t.contexts = s.contexts) (hseen : t.seen = s.seen) (hd : t.dispatched = s.dispatched) :
    DispatchInv t := by
  refine ⟨hst ▸ hs.valid, hst ▸ htodo ▸ hs.todo, hc ▸ hs.root, hd ▸ hs.nodup, fun task ht => ?_⟩
  obtain ⟨hk, h⟩ := hs.tasks task (hd ▸ ht)
  refine ⟨hst ▸ hk, h.imp ?_ (Or.imp ?_ ?_)⟩
  · intro hset st hm
    rw [System.readable, hst, hseen] at hm
    exact hset st hm
  · rintro ⟨c, g, hctx, hg, hrest⟩
    exact ⟨c, g, by rw [hc, hctx], by rw [hst, hg], hrest⟩
  · exact fun h => by rw [hc, h]

theorem DispatchInv.deliver (hs : DispatchInv s) (now : Time) (e : RuntimeEvent) :
    DispatchInv (s.deliver now e) := by
  obtain ⟨processing, h⟩ := s.deliver_spec now e
  rw [h]
  exact (hs.setStore (.write _ now e.event) fun _ _ =>
    LawfulRuntimeState.hasOutputs_write _ now e.event).congr rfl rfl rfl rfl rfl

/-- A node that a pass found without outputs is not settled. -/
theorem not_settled {points : ReadPoint → Nat} (h : Unfinished (s.pass r points) loc) :
    ¬s.Settled r loc := by
  obtain ⟨ctx, g, nodeStates, n, rfl, hn, hread, ho⟩ := h
  exact fun hset => LawfulRuntimeState.outputs_of_readMany
    (hset _ (s.view_mem points (.nodeStates ctx.parentLoc))) hread (List.mem_map_of_mem hn) ho

/-- What a pass plans for an attempt, given the graph that its context starts from. -/
theorem Planned.schedules {points : ReadPoint → Nat} {c : RunContext} {actions : List Action}
    {u : PlanState} (h : Planned R s r points c g actions u)
    (hroot : c.context.parentLoc = Location.root) :
    Schedules g (s.pass r points) (Below Location.root) ⟨c.scheduled, c.cache, s.assets⟩ actions u := by
  obtain ⟨fuel, hb⟩ := h.build
  have h : LevelSchedules g _ _ _ _ _ _ := buildActions_schedules hb
  rw [LevelSchedules, hroot] at h
  exact h rfl

omit [LawfulRuntimeState σ] in
/-- The context of a pass is the one that the attempt has, if it has one. -/
theorem contextFor_eq_ok {c : RunContext} (h : s.contextFor R r = .ok c) :
    s.contexts.get? r = some c ∨
      s.contexts.get? r = none ∧ c.context.parentLoc = Location.root ∧ c.scheduled = [] := by
  unfold System.contextFor at h
  cases hc : s.contexts.get? r with
  | some c' =>
    rw [hc] at h
    cases h
    exact .inl rfl
  | none =>
    rw [hc] at h
    obtain ⟨profiles, -, h⟩ := Result.bind_eq_ok.1 h
    cases h
    exact .inr ⟨rfl, rfl, rfl⟩

/-- The tasks that are handed out for a list of actions. -/
theorem performed_tasks {O : Orchestrator} {actions performed : List Action} {tasks : List TaskPlan}
    (hp : performed.Perm actions)
    (ht : tasks <+: (ActionPlan.ofActions O r performed).effects.flatMap Effect.tasks) :
    (∀ task ∈ tasks, task.run = r ∧ task.loc ∈ taskLocs actions) ∧
      ((taskLocs actions).Nodup → (tasks.map TaskPlan.key).Nodup) := by
  rw [ActionPlan.tasks_effects] at ht
  have hperm : ((ActionPlan.ofActions O r performed).allTasks.map TaskPlan.key).Perm
      ((taskLocs actions).map fun loc => (r, loc)) := by
    refine ((ActionPlan.allTasks_ofActions O r performed).map _).trans ?_
    refine .trans ?_ ((hp.filterMap Action.task?).map _)
    refine .of_eq ?_
    rw [List.map_filterMap, List.map_filterMap]
    refine List.filterMap_congr fun a _ => ?_
    unfold ActionPlan.taskOf Action.task?
    cases a.kind <;> rfl
  have hsub := ht.sublist.map TaskPlan.key
  constructor
  · intro task hm
    have := hperm.subset (hsub.subset (List.mem_map_of_mem hm))
    obtain ⟨loc, hl, he⟩ := List.mem_map.1 this
    obtain ⟨h₁, h₂⟩ := Prod.mk.inj he
    exact ⟨h₁.symm, h₂ ▸ hl⟩
  · intro hn
    exact (hperm.nodup_iff.2 (hn.map fun _ _ h => (Prod.mk.inj h).2)).sublist hsub

theorem DispatchInv.plan {points : ReadPoint → Nat} {rs : List RunAttempt} {c : RunContext}
    {actions performed : List Action} {u : PlanState} {refused : String → Option Nat}
    (hs : DispatchInv s)
    (htodo : s.todo = r :: rs) (hb : Planned R s r points c g actions u)
    (hperm : performed.Perm actions)
    (hnew : s.contexts.get? r = none → ∀ task ∈ s.dispatched, task.run = r → s.Settled r task.loc) :
    DispatchInv (System.perform R r refused
      (ActionPlan.ofActions R.orchestrator r performed).effects (s.planned r c u)) := by
  obtain ⟨events, tasks, planning, -, ht, hperf⟩ :=
    System.perform_spec (R := R) r refused
      (ActionPlan.ofActions R.orchestrator r performed).effects (s.planned r c u)
  rw [hperf]
  obtain ⟨htasks, hnodup⟩ := performed_tasks hperm ht
  have hroot : c.context.parentLoc = Location.root := by
    rcases contextFor_eq_ok hb.context with hc | ⟨-, hc, -⟩
    · exact hs.root r c hc
    · exact hc
  have hsch := hb.schedules hroot
  -- What is known of the tasks that were handed out before, in terms of the context.
  have hold : ∀ task ∈ s.dispatched, task.run = r →
      s.Settled r task.loc ∨ TaskAt g c.cache task.loc ∧ task.loc ∈ c.scheduled := by
    intro task hm hrun
    obtain ⟨-, h⟩ := hs.tasks task hm
    rw [hrun] at h
    rcases h with h | ⟨c', g', hc', hg', hta, hmem⟩ | h
    · exact .inl h
    · rcases contextFor_eq_ok hb.context with hc | ⟨hc, -⟩
      · rw [hc] at hc'
        cases hc'
        rw [hb.graph] at hg'
        cases hg'
        exact .inr ⟨hta, hmem⟩
      · rw [hc] at hc'
        cases hc'
    · exact .inl (hnew h task hm hrun)
  have hnovel : ∀ task ∈ tasks, ∀ old ∈ s.dispatched, old.key ≠ task.key := by
    intro task hm old hmo he
    obtain ⟨hrun, hloc⟩ := htasks task hm
    obtain ⟨-, hns, -, -, hu⟩ := hsch.tasks _ hloc
    obtain ⟨he₁, he₂⟩ := Prod.mk.inj he
    rw [← he₂] at hns hu
    rcases hold old hmo (he₁.trans hrun) with h | ⟨-, h⟩
    · exact not_settled hu h
    · exact hns h
  refine ⟨hs.valid, fun r' hr' => hs.todo r' (List.mem_of_mem_tail hr'), fun r' c' hc' => ?_, ?_,
    fun task hm => ?_⟩
  · change (s.contexts.insert r _).get? r' = some c' at hc'
    rw [HashMap.get?_insert] at hc'
    split_ifs at hc'
    · cases hc'
      exact hroot
    · exact hs.root r' c' hc'
  · change ((s.dispatched ++ tasks).map TaskPlan.key).Nodup
    rw [List.map_append]
    refine hs.nodup.append (hnodup hsch.nodup) fun k hk hk' => ?_
    obtain ⟨old, hmo, rfl⟩ := List.mem_map.1 hk
    obtain ⟨task, hm, he⟩ := List.mem_map.1 hk'
    exact hnovel task hm old hmo he.symm
  · have hsettled : ∀ r' loc, s.Settled r' loc →
        System.Settled { s.planned r c u with planning := planning } r' loc := by
      intro r' loc h st hst
      obtain rfl := List.mem_singleton.1 hst
      exact h _ (.head _)
    rcases List.mem_append.1 hm with hm | hm
    · obtain ⟨hk, h⟩ := hs.tasks task hm
      refine ⟨hk, ?_⟩
      by_cases hrun : task.run = r
      · rw [hrun]
        refine (hold task hm hrun).imp (hsettled r _) fun ⟨hta, hmem⟩ => .inl ?_
        refine ⟨_, g, HashMap.get?_insert_self _ _ _, hb.graph, hsch.cache.taskAt hta, ?_⟩
        exact hsch.keeps _ (.refl _) _ (hsch.cache.taskAt hta) hmem
      · refine h.imp (hsettled _ _) (Or.imp ?_ ?_)
        · rintro ⟨c', g', hc', hrest⟩
          exact ⟨c', g', (HashMap.get?_insert_ne _ _ hrun).trans hc', hrest⟩
        · exact fun h => (HashMap.get?_insert_ne _ _ hrun).trans h
    · obtain ⟨hrun, hloc⟩ := htasks task hm
      obtain ⟨-, -, hmem, hta, -⟩ := hsch.tasks _ hloc
      rw [hrun]
      refine ⟨hs.todo r (by rw [htodo]; exact .head _), .inr (.inl ?_)⟩
      exact ⟨_, g, HashMap.get?_insert_self _ _ _, hb.graph, hta, hmem⟩

theorem DispatchInv.step {label : Label} (hs : DispatchInv s) (h : CarefulStep R s label t) :
    DispatchInv t := by
  obtain ⟨h, hcare⟩ := h
  cases h with
  | wake hp htodo ht hn =>
    refine ⟨hs.valid, fun r hr => LawfulRuntimeState.known_of_active hs.valid ((ht r).1 hr),
      fun r c hc => ?_, hs.nodup, fun task hm => ?_⟩
    · change (s.contexts.filterMap _).get? r = some c at hc
      rw [HashMap.get?_filterMap] at hc
      obtain ⟨c', hc', h⟩ := Option.bind_eq_some_iff.1 hc
      split_ifs at h
      cases h
      exact hs.root r c hc'
    · obtain ⟨hk, h⟩ := hs.tasks task hm
      refine ⟨hk, ?_⟩
      rcases h with h | ⟨c, g, hc, hrest⟩ | h
      · refine .inl fun st hst => ?_
        obtain rfl := List.mem_singleton.1 hst
        exact h _ (.head _)
      · refine .inr ?_
        by_cases ha : task.run ∈ RuntimeState.activeRuns s.store
        · refine .inl ⟨c, g, ?_, hrest⟩
          change (s.contexts.filterMap _).get? _ = _
          rw [HashMap.get?_filterMap, hc, Option.bind_some, if_pos ha]
        · refine .inr ?_
          change (s.contexts.filterMap _).get? _ = _
          rw [HashMap.get?_filterMap, hc, Option.bind_some, if_neg ha]
      · refine .inr (.inr ?_)
        change (s.contexts.filterMap _).get? _ = _
        rw [HashMap.get?_filterMap, h, Option.bind_none]
  | plan hp htodo hb hperm => exact hs.plan htodo hb hperm (hcare _ _ htodo)
  | fail _ _ => exact hs.congr rfl rfl rfl rfl rfl
  | process _ _ | processReport _ _ =>
    refine DispatchInv.deliver ?_ _ _
    exact hs.congr rfl rfl rfl rfl rfl
  | report _ _ _ => exact hs.congr rfl rfl rfl rfl rfl
  | unpause => exact hs.setStore (.unpause _ _ _) fun _ _ => LawfulRuntimeState.hasOutputs_unpause _ _ _
  | record _ => exact hs.setStore (.write _ _ _) fun _ _ => LawfulRuntimeState.hasOutputs_write _ _ _
  | admin h => exact hs.setStore (.admin h) hcare
  | restart _ => exact hcare.elim

theorem DispatchInv.steps {labels : List Label} (h : Steps (CarefulStep R) s labels t)
    (hs : DispatchInv s) : DispatchInv t := by
  induction h with
  | nil => exact hs
  | cons h _ ih => exact ih (hs.step h)

/-- A process hands out each task of an attempt at most once, as long as its turns are
careful. -/
theorem dispatched_at_most_once {store : σ} {assets : Assets} {labels : List Label}
    (hv : LawfulRuntimeState.valid store)
    (h : Steps (CarefulStep R) { store := store, assets := assets : System σ } labels t) :
    (t.dispatched.map TaskPlan.key).Nodup :=
  (DispatchInv.steps h (.init hv assets)).nodup

/-! ## A task that is handed out twice -/

/-- A task next to a constant with a breakpoint. -/
def taskBesideBreakpoint : WorkflowGraph where
  nodes := .ofList [
    (0, { definition := .task "worker" "task" none none, name := none, hasBreakpoint := false
          inputs := [], outputs := ["value"] }),
    (1, { definition := .const .null, name := none, hasBreakpoint := true
          inputs := [], outputs := ["value"] }),
    (2, { definition := .output, name := none, hasBreakpoint := false
          inputs := [⟨"a", [⟨0, "value"⟩]⟩, ⟨"b", [⟨1, "value"⟩]⟩], outputs := [] })]
  outputIdx := 2
  output_mem := rfl
  link_mem := by decide

def startedBesideBreakpoint : System InMemoryRuntimeState where
  store := .started taskBesideBreakpoint ∅
  assets := .plain

theorem dispatched_at_most_once_firstPass :
    ∃ labels t, Steps (CarefulStep (Runtime.plain [])) startedBesideBreakpoint labels t ∧
      t.dispatched.map TaskPlan.key = [((1, 0), [.node 0])] ∧
      (t.dispatched.map TaskPlan.key).Nodup := by
  let s₁ : System InMemoryRuntimeState :=
    { startedBesideBreakpoint with todo := [(1, 0)], contexts := ∅, seen := [] }
  have hw : Step (Runtime.plain []) startedBesideBreakpoint (.wake [(1, 0)]) s₁ :=
    .wake rfl rfl (fun r => by
      change _ ↔ r ∈ insert (1, 0) ∅
      simp) (List.nodup_singleton _)
  have hp : ((System.planTurn (Runtime.plain []) 2 s₁).map fun x =>
      x.2.dispatched.map TaskPlan.key) = some [((1, 0), [.node 0])] := by decide +kernel
  obtain ⟨⟨label, t⟩, ht, he⟩ := Option.map_eq_some_iff.1 hp
  obtain ⟨hs, actions, rfl⟩ := System.step_of_planTurn rfl ht
  have h : Steps (CarefulStep (Runtime.plain [])) startedBesideBreakpoint
      [.wake [(1, 0)], .plan (fun _ => 0) actions fun _ => none] t :=
    .cons ⟨hw, trivial⟩ (.cons ⟨hs, fun r rs _ _ task hm => by cases hm⟩ (.nil t))
  exact ⟨_, t, h, he, dispatched_at_most_once (InMemoryRuntimeState.valid_started _ _) h⟩

/-- While the task runs, the constant is paused, and nothing else is ready: the workflow
counts as paused, and its context goes. Unpausing makes a new one. -/
theorem not_dispatched_at_most_once :
    LawfulRuntimeState.valid startedBesideBreakpoint.store ∧
      ∃ labels t, Steps (Step (Runtime.plain [])) startedBesideBreakpoint labels t ∧
        Label.restart ∉ labels ∧ ¬ (t.dispatched.map TaskPlan.key).Nodup := by
  have hrun : ((System.turns (Runtime.plain []) 2
      [.wake [(1, 0)], .plan, .process 1, .process 2, .wake [(1, 0)], .plan, .process 3, .wake [],
        .unpause (1, 0) [[.node 1]] 4, .wake [(1, 0)], .plan] startedBesideBreakpoint).map fun x =>
      x.2.dispatched.map TaskPlan.key) = some [((1, 0), [.node 0]), ((1, 0), [.node 0])] := by
    decide +kernel
  obtain ⟨⟨labels, t⟩, ht, he⟩ := Option.map_eq_some_iff.1 hrun
  obtain ⟨hs, hr⟩ := System.steps_of_turns (fun _ _ _ => rfl) ht
  refine ⟨InMemoryRuntimeState.valid_started _ _, labels, t, hs, fun hm => (hr _ hm).2 rfl, ?_⟩
  rw [he]
  decide

end Tierkreis
