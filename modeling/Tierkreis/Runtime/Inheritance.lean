import Tierkreis.Orchestrator.Scheduled
import Tierkreis.Runtime.Stores
import Tierkreis.Runtime.Turns
import Mathlib.Data.List.Infix

/-!
# Inheritance of execution contexts

A task runs in the context, and on the executor, that the nearest node sets
around it, the task itself first. The planner carries both down level by level;
here they are read off the location of the task, which names the nodes around
it.
-/

namespace Tierkreis

open Lib Lib.StateExcept

/-- The execution context that a node sets. -/
def NodeDefinition.context : NodeDefinition → Option String
  | .task _ _ context _ | .eval context _ | .loop context _ | .map _ context _ => context
  | _ => none

/-- The executor that a node sets. -/
def NodeDefinition.executor : NodeDefinition → Option String
  | .task _ _ _ executor | .eval _ executor | .loop _ executor | .map _ _ executor => executor
  | _ => none

/-- The node at a location, if it is one, in the graph that runs at the level above it. -/
def nodeAt (graphs : Location → Option WorkflowGraph) (loc : Location) : Option NodeDefinition :=
  match loc.getLast? with
  | some (.node n) => (graphs loc.dropLast).bind fun g => g.nodeDefinition n
  | _ => none

/-- The nodes that enclose a location, from the outside in, and the one at it. -/
def enclosingNodes (graphs : Location → Option WorkflowGraph) (loc : Location) :
    List NodeDefinition :=
  loc.inits.filterMap (nodeAt graphs)

/-- What the nearest enclosing node sets that sets anything. -/
def nearest (graphs : Location → Option WorkflowGraph) (setting : NodeDefinition → Option String)
    (loc : Location) : Option String :=
  (enclosingNodes graphs loc).reverse.findSome? setting

/-- The executor that a profile names for a context. -/
def profileExecutor (profiles : Option ResourceProfiles) (context : Option String) :
    Option String :=
  profiles.bind fun p => context.bind fun name => (p.profiles.get? name).bind ResolvedContext.executor

/-- The graphs of the levels that have been loaded. -/
def RunsGraphs (graphs : Location → Option WorkflowGraph) (root : WorkflowGraph)
    (cache : HashMap Location WorkflowGraph) : Prop :=
  ∀ loc g, graphAt root cache loc = some g → graphs loc = some g

/-! ## What encloses a location -/

section Enclosing

variable {graphs : Location → Option WorkflowGraph} {setting : NodeDefinition → Option String}
  {loc : Location} {g : WorkflowGraph} {n : NodeIndex} {definition : NodeDefinition}

theorem enclosingNodes_concat (c : LocationComponent) :
    enclosingNodes graphs (loc ++ [c]) =
      enclosingNodes graphs loc ++ (nodeAt graphs (loc ++ [c])).toList := by
  unfold enclosingNodes
  rw [List.inits_append, List.filterMap_append]
  cases h : nodeAt graphs (loc ++ [c]) <;> simp [h]

theorem nodeAt_withNode (hg : graphs loc = some g) (hd : g.nodeDefinition n = some definition) :
    nodeAt graphs (loc.withNode n) = some definition := by
  unfold nodeAt Location.withNode
  rw [List.getLast?_concat, List.dropLast_concat, hg]
  exact hd

@[simp] theorem nearest_root : nearest graphs setting Location.root = none := rfl

/-- A node comes before those around it. -/
theorem nearest_withNode (hg : graphs loc = some g)
    (hd : g.nodeDefinition n = some definition) :
    nearest graphs setting (loc.withNode n) = (setting definition).or (nearest graphs setting loc) := by
  have h : nodeAt graphs (loc ++ [.node n]) = some definition := nodeAt_withNode hg hd
  unfold nearest Location.withNode
  rw [enclosingNodes_concat, h, Option.toList_some, List.reverse_concat, List.findSome?_cons]
  cases setting definition <;> rfl

theorem enclosingNodes_index {c : LocationComponent} (h : ∀ n, c ≠ .node n) :
    enclosingNodes graphs (loc ++ [c]) = enclosingNodes graphs loc := by
  have hnone : nodeAt graphs (loc ++ [c]) = none := by
    unfold nodeAt
    rw [List.getLast?_concat]
    cases c with
    | node n => exact absurd rfl (h n)
    | loopIndex i => rfl
    | mapIndex i => rfl
  rw [enclosingNodes_concat, hnone, Option.toList_none, List.append_nil]

@[simp] theorem nearest_withLoopIndex (i : Nat) :
    nearest graphs setting (loc.withLoopIndex i) = nearest graphs setting loc := by
  unfold nearest Location.withLoopIndex
  rw [enclosingNodes_index fun n h => by cases h]

@[simp] theorem nearest_withMapIndex (i : Nat) :
    nearest graphs setting (loc.withMapIndex i) = nearest graphs setting loc := by
  unfold nearest Location.withMapIndex
  rw [enclosingNodes_index fun n h => by cases h]

end Enclosing

/-! ## What a level hands down -/

section Inherits

variable (graphs : Location → Option WorkflowGraph) (profiles : Option ResourceProfiles)

/-- Every node around a location, and the one at it, stands in a graph that runs there. -/
def Enclosed (loc : Location) : Prop :=
  ∀ (parentLoc : Location) (n : NodeIndex),
    parentLoc.withNode n <+: loc → (nodeAt graphs (parentLoc.withNode n)).isSome

/-- A context that has what the nodes around its level set. -/
structure AtLevel (ctx : OrchestrationContext) : Prop where
  profiles : ctx.profiles = profiles
  context : ctx.inheritedContext = nearest graphs NodeDefinition.context ctx.parentLoc
  executor : ctx.inheritedExecutor = nearest graphs NodeDefinition.executor ctx.parentLoc
  enclosed : Enclosed graphs ctx.parentLoc

/-- A task to perform is resolved from what is set around it. -/
def TaskInherits (a : Action) : Prop :=
  ∀ workerName taskName inputs outputs handle resolved,
    a.kind = .performTask workerName taskName inputs outputs handle resolved →
      Enclosed graphs a.loc ∧ ∃ ctx, AtLevel graphs profiles ctx ∧ ctx.parentLoc = a.loc ∧
        resolveContext ctx a.loc = .ok resolved

/-- What a part of a pass does when it is started right. -/
structure Inherits (root : WorkflowGraph) (right : Prop) (s : PlanState) (actions : List Action)
    (t : PlanState) : Prop where
  cache : CacheGrows s.cache t.cache
  tasks : right → RunsGraphs graphs root t.cache → ∀ a ∈ actions, TaskInherits graphs profiles a

/-- A level is started right with the graph that runs there, and what the nodes around it set. -/
def StartsRight (ctx : OrchestrationContext) (g : WorkflowGraph) : Prop :=
  graphs ctx.parentLoc = some g ∧ AtLevel graphs profiles ctx

def LevelInherits (root : WorkflowGraph) : LevelRel := fun ctx g =>
  Inherits graphs profiles root (StartsRight graphs profiles ctx g)

variable {graphs profiles} {root g subgraph : WorkflowGraph} {ctx : OrchestrationContext}
  {nodeStates : NodeStates} {n : NodeIndex} {s t u : PlanState} {actions rest : List Action}
  {definition : NodeDefinition} {loc : Location} {right right' : Prop}

theorem RunsGraphs.of_grows {a b : HashMap Location WorkflowGraph} (h : RunsGraphs graphs root b)
    (hc : CacheGrows a b) : RunsGraphs graphs root a :=
  fun loc g hg => h loc g (hc.graphAt hg)

theorem Inherits.quiet (hc : CacheGrows s.cache t.cache)
    (ha : ∀ a ∈ actions, a.task? = none) : Inherits graphs profiles root right s actions t where
  cache := hc
  tasks := fun _ _ a hmem _ _ _ _ _ _ hk => by
    have h := ha a hmem
    rw [Action.task?, hk] at h
    cases h

theorem Inherits.append (h : Inherits graphs profiles root right s actions t)
    (h' : Inherits graphs profiles root right t rest u) :
    Inherits graphs profiles root right s (actions ++ rest) u where
  cache := h.cache.trans h'.cache
  tasks := fun hr hg a ha => by
    rcases List.mem_append.1 ha with ha | ha
    · exact h.tasks hr (hg.of_grows h'.cache) a ha
    · exact h'.tasks hr hg a ha

/-- A nested level, after what loads its graph. -/
theorem Inherits.nested (h : Inherits graphs profiles root right t actions u)
    (hc : CacheGrows s.cache t.cache)
    (hright : right' → RunsGraphs graphs root u.cache → right) :
    Inherits graphs profiles root right' s actions u where
  cache := hc.trans h.cache
  tasks := fun hr hg => h.tasks (hright hr hg) hg

theorem Inherits.collect {ι : Type} {step : ι → PlanState → List Action → PlanState → Prop}
    {l : List ι} (h : Collect step l s actions t)
    (hstep : ∀ i s acts t, step i s acts t → Inherits graphs profiles root right s acts t) :
    Inherits graphs profiles root right s actions t := by
  induction h with
  | nil s => exact .quiet (.refl _) fun a ha => absurd ha List.not_mem_nil
  | cons hi _ ih => exact (hstep _ _ _ _ hi).append ih

/-- A prefix of a node's location that ends in a node is that location, or one of its level. -/
theorem withNode_prefix_concat {p : Location} {m : NodeIndex} {c : LocationComponent}
    (h : p.withNode m <+: loc ++ [c]) : p.withNode m = loc ++ [c] ∨ p.withNode m <+: loc :=
  (List.prefix_concat_iff.1 h)

theorem Enclosed.withNode (h : Enclosed graphs loc) (hg : graphs loc = some g)
    (hd : g.nodeDefinition n = some definition) : Enclosed graphs (loc.withNode n) := by
  intro p m hp
  rcases withNode_prefix_concat hp with he | hp
  · rw [he]
    exact Option.isSome_iff_exists.2 ⟨definition, nodeAt_withNode hg hd⟩
  · exact h p m hp

theorem Enclosed.index (h : Enclosed graphs loc) {c : LocationComponent} (hc : ∀ n, c ≠ .node n) :
    Enclosed graphs (loc ++ [c]) := by
  intro p m hp
  rcases withNode_prefix_concat hp with he | hp
  · exact absurd (List.append_inj_right' he rfl) fun e => hc m (List.cons.inj e).1.symm
  · exact h p m hp

/-- The context below a node of a level. -/
theorem AtLevel.withNode (h : AtLevel graphs profiles ctx) (hg : graphs ctx.parentLoc = some g)
    (hd : g.nodeDefinition n = some definition) :
    AtLevel graphs profiles
      ((ctx.withExecutionContext definition.context definition.executor).withLocation
        (ctx.parentLoc.withNode n)) where
  profiles := h.profiles
  context := by
    show definition.context.or ctx.inheritedContext = _
    rw [h.context]
    exact (nearest_withNode hg hd).symm
  executor := by
    show definition.executor.or ctx.inheritedExecutor = _
    rw [h.executor]
    exact (nearest_withNode hg hd).symm
  enclosed := h.enclosed.withNode hg hd

theorem AtLevel.withLoopIndex (h : AtLevel graphs profiles (ctx.withLocation loc)) (i : Nat) :
    AtLevel graphs profiles (ctx.withLocation (loc.withLoopIndex i)) where
  profiles := h.profiles
  context := h.context.trans (nearest_withLoopIndex i).symm
  executor := h.executor.trans (nearest_withLoopIndex i).symm
  enclosed := h.enclosed.index fun n hn => by cases hn

theorem AtLevel.withMapIndex (h : AtLevel graphs profiles (ctx.withLocation loc)) (i : Nat) :
    AtLevel graphs profiles (ctx.withLocation (loc.withMapIndex i)) where
  profiles := h.profiles
  context := h.context.trans (nearest_withMapIndex i).symm
  executor := h.executor.trans (nearest_withMapIndex i).symm
  enclosed := h.enclosed.index fun n hn => by cases hn

end Inherits

/-! ## One level -/

section Level

variable {graphs : Location → Option WorkflowGraph} {profiles : Option ResourceProfiles}
  {σ : Type} [WorkflowRunState σ] {O : Orchestrator} {pass : Pass σ} {root g subgraph : WorkflowGraph}
  {ctx : OrchestrationContext} {nodeStates : NodeStates} {n : NodeIndex} {s t : PlanState}
  {actions : List Action} {definition : NodeDefinition} {loc : Location}

theorem inherits_elements {size : Nat} {l : List Nat} {right : Prop}
    (hat : right → AtLevel graphs profiles (ctx.withLocation loc))
    (hg : s.cache.get? loc = some subgraph)
    (h : Collect (ElementStep pass (LevelInherits graphs profiles root) ctx loc size subgraph) l s
      actions t) : Inherits graphs profiles root right s actions t := by
  induction h with
  | nil s => exact .quiet (.refl _) fun a ha => absurd ha List.not_mem_nil
  | @cons i l s t u bs rest hi _ ih =>
    have hlevel {acts : List Action}
        (h : LevelInherits graphs profiles root (ctx.withLocation (loc.withMapIndex i)) subgraph s
          acts t) : Inherits graphs profiles root right s acts t := by
      refine h.nested (.refl _) fun hr hruns => ⟨hruns _ _ ?_, (hat hr).withMapIndex i⟩
      show graphAt root t.cache (loc.withMapIndex i) = _
      rw [graphAt_withMapIndex]
      exact h.cache _ _ hg
    have helement : Inherits graphs profiles root right s bs t := by
      cases hi with
      | pending h hr ho => exact hlevel h
      | complete h hr ho =>
        refine (hlevel h).append (.quiet (.refl _) fun a ha => ?_)
        rw [List.mem_singleton.1 ha]
        rfl
    exact helement.append (ih (helement.cache _ _ hg))

theorem inherits_node
    (h : NodeStep O pass (LevelInherits graphs profiles root) ctx g nodeStates n s actions t) :
    Inherits graphs profiles root (StartsRight graphs profiles ctx g) s actions t := by
  have hload {allow : Bool} {subgraph : WorkflowGraph} {t₁ : PlanState}
      (hl : loadSubgraph O ctx g nodeStates n allow s = .ok (subgraph, t₁)) :=
    loadSubgraph_spec hl
  have hleaf {a : Action} (ha : a.task? = none) : ∀ b ∈ [a], b.task? = none := by
    intro b hb
    rw [List.mem_singleton.1 hb, ha]
  cases h with
  | input | const | evalStart | loopStart | ifElseCond | ifElseBranch | eagerIfElse =>
    exact .quiet (.refl _) (hleaf rfl)
  | output hd hi =>
    refine .quiet (.refl _) fun a ha => ?_
    rcases List.mem_cons.1 ha with rfl | ha
    · rfl
    · split at ha
      · rw [List.mem_singleton.1 ha]
        rfl
      · exact absurd ha List.not_mem_nil
  | task hd hi ho hr =>
    refine ⟨.refl _, fun hright _ a ha => ?_⟩
    rw [List.mem_singleton.1 ha]
    intro w k i o h resolved hk
    cases hk
    have hbelow := hright.2.withNode hright.1 hd
    exact ⟨hbelow.enclosed, _, hbelow, rfl, hr⟩
  | evalDone hd hr hl hn ho => exact .quiet (hload hl).2.1 (hleaf rfl)
  | evalNested hd hr hl hn ho h =>
    obtain ⟨hget, hgrows, -⟩ := hload hl
    refine h.nested hgrows fun hright hruns => ⟨hruns _ _ ?_, hright.2.withNode hright.1 hd⟩
    show graphAt root t.cache (ctx.parentLoc.withNode n) = _
    rw [graphAt_withNode]
    exact h.cache _ _ hget
  | loopNested hd hx hl hn ho h =>
    obtain ⟨hget, hgrows, -⟩ := hload hl
    refine h.nested hgrows fun hright hruns =>
      ⟨hruns _ _ ?_, (hright.2.withNode hright.1 hd).withLoopIndex _⟩
    show graphAt root t.cache ((ctx.parentLoc.withNode n).withLoopIndex _) = _
    rw [graphAt_withLoopIndex]
    exact h.cache _ _ hget
  | loopNext hd hx hl hn ho hc hi => exact .quiet (hload hl).2.1 (hleaf rfl)
  | loopDone hd hx hl hn ho hc hb => exact .quiet (hload hl).2.1 (hleaf rfl)
  | mapStart hd hl hm hi hu =>
    refine .quiet ?_ (hleaf rfl)
    rw [(unfoldInputs_spec hu).2]
    exact (hload hl).2.1
  | mapDone hd hl hm hc hn he hf =>
    refine .quiet ?_ (hleaf rfl)
    rw [(foldBundles_spec hf).2]
    exact (hload hl).2.1
  | mapElements hd hl hm hc h =>
    obtain ⟨hget, hgrows, -⟩ := hload hl
    refine (inherits_elements (fun hright => ?_) hget h).nested hgrows fun hright _ => hright
    exact hright.2.withNode hright.1 hd

theorem inherits_level
    (h : LevelStep O pass (LevelInherits graphs profiles root) ctx g s actions t) :
    LevelInherits graphs profiles root ctx g s actions t := by
  cases h with
  | scheduled => exact .quiet (.refl _) fun a ha => absurd ha List.not_mem_nil
  | verdict hns h hr hv =>
    refine .quiet (.refl _) fun a ha => ?_
    rw [List.mem_singleton.1 ha]
    unfold deadlockVerdict at hv
    split at hv
    · cases hv
      rfl
    · split at hv
      · cases hv
        rfl
      · cases hv
  | nodes hns h hr hv hc =>
    refine Inherits.nested (Inherits.collect hc fun i s acts t hi => ?_) (.refl _) fun h _ => h
    cases hi with
    | pause h =>
      refine .quiet (.refl _) fun a ha => ?_
      rw [List.mem_singleton.1 ha]
      rfl
    | run hb h => exact inherits_node h

/-- A pass over the root graph. -/
theorem inherits_pass {fuel : Nat} (hruns : RunsGraphs graphs root t.cache)
    (h : buildActions O pass fuel { profiles := profiles } root s = .ok (actions, t)) :
    ∀ a ∈ actions, TaskInherits graphs profiles a := by
  have hlevel : LevelInherits graphs profiles root { profiles := profiles } root s actions t :=
    buildActions_induction (fun _ _ _ _ _ => inherits_level) fuel _ _ _ _ _ h
  refine hlevel.tasks ⟨hruns _ _ (if_pos rfl), rfl, rfl, rfl, fun p n hp => ?_⟩ hruns
  exact absurd (List.prefix_nil.1 hp) (Location.withNode_ne_root p n)

end Level

/-! ## What is handed to an executor -/

/-- What a task is resolved to. -/
theorem resolveContext_spec {ctx : OrchestrationContext} {loc : Location} {resolved : ResolvedContext}
    (h : resolveContext ctx loc = .ok resolved) :
    resolved.name = ctx.inheritedContext ∧
      resolved.executor =
        ctx.inheritedExecutor.or (profileExecutor ctx.profiles ctx.inheritedContext) := by
  unfold resolveContext at h
  unfold profileExecutor
  cases hp : ctx.profiles with
  | none =>
    cases hc : ctx.inheritedContext with
    | none =>
      rw [hp, hc] at h
      cases h
      exact ⟨rfl, by simp⟩
    | some requested =>
      rw [hp, hc] at h
      cases h
  | some profiles =>
    rw [hp] at h
    dsimp only at h
    cases hc : ctx.inheritedContext with
    | none =>
      rw [hc] at h
      cases h
      exact ⟨rfl, rfl⟩
    | some requested =>
      rw [hc, ResourceProfiles.resolve, Result.bind_eq_ok] at h
      obtain ⟨profile, hprofile, h⟩ := h
      cases h
      have hget := okOr_eq_ok.1 hprofile
      rw [Option.bind_some, Option.bind_some, hget]
      exact ⟨rfl, rfl⟩

/-- A task that is put under the executor that its action is resolved to. -/
def PlannedBy (O : Orchestrator) (a : Action) (executor : String) (task : TaskPlan) : Prop :=
  ∃ workerName taskName inputs outputs handle resolved,
    a.kind = .performTask workerName taskName inputs outputs handle resolved ∧
      task.loc = a.loc ∧ task.executionContext = resolved.name ∧
      executor = resolved.executor.getD O.defaultExecutorName

namespace ActionPlan

variable {O : Orchestrator} {run : RunAttempt} {executor : String} {tasks : List TaskPlan}
  {task : TaskPlan}

theorem mem_tasks_add {plan : ActionPlan} {a : Action}
    (hget : (plan.add O run a).tasks.get? executor = some tasks) (htask : task ∈ tasks) :
    PlannedBy O a executor task ∨ ∃ old, plan.tasks.get? executor = some old ∧ task ∈ old := by
  unfold add at hget
  cases hk : a.kind with
  | performTask w k i o h resolved =>
    rw [hk] at hget
    dsimp only at hget
    rw [HashMap.get?_modify] at hget
    split at hget
    · rename_i he
      cases hget
      rcases List.mem_append.1 htask with hold | hnew
      · cases hp : plan.tasks.get? (resolved.executor.getD O.defaultExecutorName) with
        | none =>
          rw [hp] at hold
          cases hold
        | some old =>
          rw [hp] at hold
          exact .inr ⟨old, he ▸ hp, hold⟩
      · rw [List.mem_singleton.1 hnew]
        exact .inl ⟨w, k, i, o, h, resolved, hk, rfl, rfl, he⟩
    · exact .inr ⟨tasks, hget, htask⟩
  | _ =>
    rw [hk] at hget
    exact .inr ⟨tasks, hget, htask⟩

/-- The tasks of a plan come from its actions. -/
theorem mem_tasks_ofActions {actions : List Action}
    (hget : (ofActions O run actions).tasks.get? executor = some tasks) (htask : task ∈ tasks) :
    ∃ a ∈ actions, PlannedBy O a executor task := by
  suffices h : ∀ (plan : ActionPlan) (tasks : List TaskPlan),
      (actions.foldl (add O run) plan).tasks.get? executor = some tasks → task ∈ tasks →
        (∃ a ∈ actions, PlannedBy O a executor task) ∨
          ∃ old, plan.tasks.get? executor = some old ∧ task ∈ old by
    rcases h {} tasks hget htask with h | ⟨old, hold, -⟩
    · exact h
    · cases hold
  clear hget htask
  induction actions with
  | nil => exact fun plan tasks hget htask => .inr ⟨tasks, hget, htask⟩
  | cons a actions ih =>
    intro plan tasks hget htask
    rcases ih (plan.add O run a) tasks hget htask with ⟨b, hb, hp⟩ | ⟨old, hold, hmem⟩
    · exact .inl ⟨b, List.mem_cons_of_mem _ hb, hp⟩
    · rcases mem_tasks_add hold hmem with hp | hold
      · exact .inl ⟨a, List.mem_cons_self, hp⟩
      · exact .inr hold

end ActionPlan

/-- Whatever pass plans a task: it is handed over with the context that the nearest node around it
sets, the task itself first; to the executor that the nearest node around it sets, or else to the
one that the profile names for the context, or else to the default one. -/
theorem tasks_inherit (graphs : Location → Option WorkflowGraph) (profiles : Option ResourceProfiles)
    {σ : Type} [WorkflowRunState σ] (O : Orchestrator) (pass : Pass σ) (root : WorkflowGraph)
    {fuel : Nat} {s t : PlanState} {actions : List Action} {executor : String}
    {tasks : List TaskPlan} {task : TaskPlan}
    (hpass : buildActions O pass fuel { profiles := profiles } root s = .ok (actions, t))
    (hruns : RunsGraphs graphs root t.cache)
    (hget : (ActionPlan.ofActions O pass.run actions).tasks.get? executor = some tasks)
    (htask : task ∈ tasks) :
    Enclosed graphs task.loc ∧
      task.executionContext = nearest graphs NodeDefinition.context task.loc ∧
      executor = ((nearest graphs NodeDefinition.executor task.loc).or
        (profileExecutor profiles (nearest graphs NodeDefinition.context task.loc))).getD
          O.defaultExecutorName := by
  obtain ⟨a, ha, w, k, i, o, h, resolved, hkind, hloc, hcontext, hexecutor⟩ :=
    ActionPlan.mem_tasks_ofActions hget htask
  obtain ⟨henclosed, ctx, hat, hparent, hresolved⟩ := inherits_pass hruns hpass a ha _ _ _ _ _ _ hkind
  obtain ⟨hname, hexec⟩ := resolveContext_spec hresolved
  rw [hat.context, hparent] at hname
  rw [hat.executor, hat.context, hat.profiles, hparent] at hexec
  rw [hloc, hcontext, hexecutor, hname, hexec]
  exact ⟨henclosed, rfl, rfl⟩

/-! ## A task in a recursive eval node -/

/-- An eval node that asks for a context, and evaluates the graph that it is in. -/
def evalInContext : WorkflowGraph where
  nodes := .ofList [
    (0, { definition := .eval (some "gpu") none, name := none, hasBreakpoint := false
          inputs := [], outputs := ["value"] }),
    (1, { definition := .task "worker" "task" none none, name := none, hasBreakpoint := false
          inputs := [], outputs := ["value"] }),
    (2, { definition := .output, name := none, hasBreakpoint := false
          inputs := [⟨"a", [⟨0, "value"⟩]⟩, ⟨"b", [⟨1, "value"⟩]⟩], outputs := [] })]
  outputIdx := 2
  output_mem := rfl
  link_mem := by decide

def gpuProfile : ResourceProfiles where
  profiles := .ofList [("gpu", { executor := some "slurm" })]

/-- The eval node of the run is running. -/
def evalRunning : InMemoryRuntimeState :=
  InMemoryRuntimeState.write (.started evalInContext ∅) (1, 0) 1
    (.nodeEvents [{ loc := [.node 0], name := none, status := .running (some (.evalling ∅)) }])

def evalPass : Pass InMemoryRuntimeState := ⟨(1, 0), fun _ => evalRunning⟩

theorem tasks_inherit_eval :
    ∃ (t : HashMap Location WorkflowGraph) (executor : String) (task : TaskPlan),
      task.loc = [.node 0, .node 1] ∧ task.executionContext = some "gpu" ∧
      Enclosed (graphAt evalInContext t) task.loc ∧
      task.executionContext =
        nearest (graphAt evalInContext t) NodeDefinition.context task.loc ∧
      executor = ((nearest (graphAt evalInContext t) NodeDefinition.executor task.loc).or
        (profileExecutor (some gpuProfile)
          (nearest (graphAt evalInContext t) NodeDefinition.context task.loc))).getD "local" ∧
      executor = "slurm" := by
  have hp : (buildActions (Orchestrator.plain []) evalPass 3 { profiles := some gpuProfile }
      evalInContext ⟨[], ∅, .plain⟩).toOption.any (fun r =>
        ((ActionPlan.ofActions (Orchestrator.plain []) evalPass.run r.1).tasks.get? "slurm").any
          fun tasks => tasks.any fun task =>
            task.loc = [.node 0, .node 1] ∧ task.executionContext = some "gpu") = true := by
    decide +kernel
  obtain ⟨⟨actions, t⟩, hpass, hp⟩ := (Option.any_eq_true _ _).1 hp
  have hpass := Lib.StateExcept.toOption_eq_some_iff.1 hpass
  obtain ⟨tasks, hget, hany⟩ := (Option.any_eq_true _ _).1 hp
  obtain ⟨task, htask, heq⟩ := List.any_eq_true.1 hany
  obtain ⟨hloc, hcontext⟩ := of_decide_eq_true heq
  obtain ⟨henclosed, hname, hexecutor⟩ := tasks_inherit (graphAt evalInContext t.cache)
    (some gpuProfile) (Orchestrator.plain []) evalPass evalInContext hpass (fun _ _ h => h) hget
    htask
  exact ⟨t.cache, _, task, hloc, hcontext, henclosed, hname, hexecutor, rfl⟩

end Tierkreis
