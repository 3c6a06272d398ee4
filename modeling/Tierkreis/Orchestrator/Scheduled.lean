import Tierkreis.Orchestrator.Steps
import Tierkreis.Orchestrator.Ready

/-!
# What a pass schedules

A pass works below one location. It hands out each task once, only when the
task was not scheduled before, and leaves it scheduled.
-/

namespace Tierkreis

open Lib Lib.StateExcept

/-- The container that a level runs in: its location without the iteration or element. -/
def container (loc : Location) : Location :=
  match loc.getLast? with
  | some (.node _) => loc
  | _ => loc.dropLast

@[simp] theorem container_withNode (loc : Location) (n : NodeIndex) :
    container (loc.withNode n) = loc.withNode n := by
  simp [container, Location.withNode]

@[simp] theorem container_withLoopIndex (loc : Location) (i : Nat) :
    container (loc.withLoopIndex i) = loc := by
  simp [container, Location.withLoopIndex]

@[simp] theorem container_withMapIndex (loc : Location) (i : Nat) :
    container (loc.withMapIndex i) = loc := by
  simp [container, Location.withMapIndex]

/-- The graph of a level, as a context with this cache has it. -/
def graphAt (root : WorkflowGraph) (cache : HashMap Location WorkflowGraph) (loc : Location) :
    Option WorkflowGraph :=
  if loc = Location.root then some root else cache.get? (container loc)

def CacheGrows (cache cache' : HashMap Location WorkflowGraph) : Prop :=
  ∀ loc g, cache.get? loc = some g → cache'.get? loc = some g

theorem CacheGrows.refl (cache : HashMap Location WorkflowGraph) : CacheGrows cache cache :=
  fun _ _ h => h

theorem CacheGrows.trans {a b c : HashMap Location WorkflowGraph} (h : CacheGrows a b)
    (h' : CacheGrows b c) : CacheGrows a c := fun loc g hg => h' loc g (h loc g hg)

theorem CacheGrows.graphAt {root : WorkflowGraph} {a b : HashMap Location WorkflowGraph}
    (h : CacheGrows a b) {loc : Location} {g : WorkflowGraph} (hg : graphAt root a loc = some g) :
    Tierkreis.graphAt root b loc = some g := by
  unfold Tierkreis.graphAt at hg ⊢
  split_ifs at hg ⊢
  · exact hg
  · exact h _ _ hg

/-- A load reads or fills the cache entry of its node, and changes nothing else. -/
theorem loadSubgraph_spec {O : Orchestrator} {ctx : OrchestrationContext} {g subgraph : WorkflowGraph}
    {nodeStates : NodeStates} {n : NodeIndex} {allowRecursion : Bool} {s t : PlanState}
    (h : loadSubgraph O ctx g nodeStates n allowRecursion s = .ok (subgraph, t)) :
    t.cache.get? (ctx.parentLoc.withNode n) = some subgraph ∧ CacheGrows s.cache t.cache ∧
      t.scheduled = s.scheduled ∧ t.assets = s.assets := by
  unfold loadSubgraph at h
  dsimp only at h
  cases hc : s.cache.get? (ctx.parentLoc.withNode n) with
  | some sub =>
    rw [hc] at h
    cases h
    exact ⟨hc, .refl _, rfl, rfl⟩
  | none =>
    rw [hc] at h
    cases hg : graphInput O ctx g nodeStates n allowRecursion s.assets with
    | error e => simp [hg, Except.map] at h
    | ok sub =>
      simp only [hg, Except.map, Except.ok.injEq, Prod.mk.injEq] at h
      obtain ⟨rfl, rfl⟩ := h
      refine ⟨HashMap.get?_insert_self _ _ _, fun loc g' hg => ?_, rfl, rfl⟩
      rw [HashMap.get?_insert_ne, hg]
      rintro rfl
      rw [hc] at hg
      cases hg

def isTask (g : WorkflowGraph) (n : NodeIndex) : Prop :=
  ∃ worker task context executor, g.nodeDefinition n = some (.task worker task context executor)

/-- `loc` is a task in the graph that a context has for its level. -/
def TaskAt (root : WorkflowGraph) (cache : HashMap Location WorkflowGraph) (loc : Location) : Prop :=
  ∃ parentLoc n g, loc = parentLoc.withNode n ∧ graphAt root cache parentLoc = some g ∧ isTask g n

theorem CacheGrows.taskAt {root : WorkflowGraph} {a b : HashMap Location WorkflowGraph}
    (h : CacheGrows a b) {loc : Location} (ht : TaskAt root a loc) : TaskAt root b loc := by
  obtain ⟨p, n, g, rfl, hg, ht⟩ := ht
  exact ⟨p, n, g, rfl, h.graphAt hg, ht⟩

/-- A task in one cache is a task of the same graph in a larger one. -/
theorem TaskAt.isTask {root g : WorkflowGraph} {a b : HashMap Location WorkflowGraph}
    {parentLoc : Location} {n : NodeIndex} (ht : TaskAt root b (parentLoc.withNode n))
    (h : CacheGrows a b) (hg : graphAt root a parentLoc = some g) : isTask g n := by
  obtain ⟨p, m, g', he, hg', ht⟩ := ht
  obtain ⟨rfl, rfl⟩ := Location.withNode_inj.1 he
  rw [h.graphAt hg] at hg'
  cases hg'
  exact ht

theorem isTask.alwaysRun {g : WorkflowGraph} {n : NodeIndex} (h : isTask g n) :
    (g.nodeDefinition n).any Tierkreis.alwaysRun = true := by
  obtain ⟨w, t, c, e, h⟩ := h
  rw [h]
  rfl

def Action.task? (a : Action) : Option Location :=
  match a.kind with
  | .performTask .. => some a.loc
  | _ => none

/-- The locations of the tasks to perform. -/
def taskLocs (actions : List Action) : List Location := actions.filterMap Action.task?

theorem taskLocs_task {loc : Location} {worker task : String} {inputs : Specs}
    {outputs : List String} {handle : Option TaskHandle} {resources : ResolvedContext} :
    taskLocs [⟨loc, .performTask worker task inputs outputs handle resources⟩] = [loc] := rfl

@[simp] theorem taskLocs_append (a b : List Action) :
    taskLocs (a ++ b) = taskLocs a ++ taskLocs b := List.filterMap_append

/-- A pass has read that `loc` has no outputs. -/
def Unfinished {σ : Type} [WorkflowRunState σ] (pass : Pass σ) (loc : Location) : Prop :=
  ∃ (ctx : OrchestrationContext) (g : WorkflowGraph) (nodeStates : NodeStates) (n : NodeIndex),
    loc = ctx.parentLoc.withNode n ∧ n ∈ g.nodeIds ∧
    collectNodeStates pass ctx g = .ok nodeStates ∧ (stateAt nodeStates loc).outputs = none

/-- What planning `inside` some locations does to what is scheduled. -/
structure Schedules {σ : Type} [WorkflowRunState σ] (root : WorkflowGraph) (pass : Pass σ)
    (inside : Location → Prop) (s : PlanState) (actions : List Action) (t : PlanState) : Prop where
  cache : CacheGrows s.cache t.cache
  frame : ∀ loc, ¬inside loc → (loc ∈ t.scheduled ↔ loc ∈ s.scheduled)
  keeps : ∀ c, CacheGrows t.cache c → ∀ loc, TaskAt root c loc → loc ∈ s.scheduled →
    loc ∈ t.scheduled
  nodup : (taskLocs actions).Nodup
  tasks : ∀ loc ∈ taskLocs actions, inside loc ∧ loc ∉ s.scheduled ∧ loc ∈ t.scheduled ∧
    TaskAt root t.cache loc ∧ Unfinished pass loc

/-- Forget that some locations are scheduled. -/
def PlanState.unschedule (s : PlanState) (locs : List Location) : PlanState :=
  { s with scheduled := s.scheduled.filter fun l => l ∉ locs }

@[simp] theorem PlanState.mem_unschedule {s : PlanState} {locs : List Location} {loc : Location} :
    loc ∈ (s.unschedule locs).scheduled ↔ loc ∈ s.scheduled ∧ loc ∉ locs := by
  simp [PlanState.unschedule]

namespace Schedules

variable {σ : Type} [WorkflowRunState σ] {root : WorkflowGraph} {pass : Pass σ}
  {inside inside' : Location → Prop} {s t u : PlanState} {actions actions' : List Action}

theorem quiet (hc : CacheGrows s.cache t.cache)
    (hf : ∀ loc, ¬inside loc → (loc ∈ t.scheduled ↔ loc ∈ s.scheduled))
    (hk : ∀ loc ∈ s.scheduled, loc ∈ t.scheduled) (ha : taskLocs actions = []) :
    Schedules root pass inside s actions t where
  cache := hc
  frame := hf
  keeps _ _ loc _ h := hk loc h
  nodup := by rw [ha]; exact List.nodup_nil
  tasks loc h := by rw [ha] at h; cases h

theorem weaken (h : Schedules root pass inside s actions t) (hi : ∀ loc, inside loc → inside' loc) :
    Schedules root pass inside' s actions t :=
  { h with
    frame := fun loc hn => h.frame loc fun hl => hn (hi loc hl)
    tasks := fun loc hl => ⟨hi loc (h.tasks loc hl).1, (h.tasks loc hl).2⟩ }

/-- Planning inside disjoint sets of locations, one after the other. -/
theorem append (h : Schedules root pass inside s actions t)
    (h' : Schedules root pass inside' t actions' u) (hd : ∀ loc, inside loc → ¬inside' loc) :
    Schedules root pass (fun loc => inside loc ∨ inside' loc) s (actions ++ actions') u where
  cache := h.cache.trans h'.cache
  frame loc hn := by
    rw [not_or] at hn
    rw [h'.frame loc hn.2, h.frame loc hn.1]
  keeps c hc loc ht hs := h'.keeps c hc loc ht (h.keeps c (h'.cache.trans hc) loc ht hs)
  nodup := by
    rw [taskLocs_append]
    exact h.nodup.append h'.nodup fun loc hl hl' => hd loc (h.tasks loc hl).1 (h'.tasks loc hl').1
  tasks loc hl := by
    rw [taskLocs_append, List.mem_append] at hl
    rcases hl with hl | hl
    · obtain ⟨hi, hs, ht, hta, hu⟩ := h.tasks loc hl
      exact ⟨.inl hi, hs, (h'.frame loc (hd loc hi)).2 ht, h'.cache.taskAt hta, hu⟩
    · obtain ⟨hi, hs, ht, hta, hu⟩ := h'.tasks loc hl
      exact ⟨.inr hi, fun hm => hs ((h.frame loc fun hi' => hd loc hi' hi).2 hm), ht, hta, hu⟩

/-- Locations outside may be forgotten on both sides. -/
theorem unschedule (h : Schedules root pass inside s actions t) (locs : List Location)
    (hl : ∀ loc ∈ locs, ¬inside loc) :
    Schedules root pass inside (s.unschedule locs) actions (t.unschedule locs) where
  cache := h.cache
  frame loc hn := by
    rw [PlanState.mem_unschedule, PlanState.mem_unschedule, h.frame loc hn]
  keeps c hc loc ht hs := by
    rw [PlanState.mem_unschedule] at hs ⊢
    exact ⟨h.keeps c hc loc ht hs.1, hs.2⟩
  nodup := h.nodup
  tasks loc hm := by
    obtain ⟨hi, hs, ht, hta, hu⟩ := h.tasks loc hm
    rw [PlanState.mem_unschedule, PlanState.mem_unschedule]
    exact ⟨hi, fun h => hs h.1, ⟨ht, fun h => hl loc h hi⟩, hta, hu⟩

/-- Planning strictly below a location, seen from that location, which itself may have been
scheduled just before. -/
theorem below (h : Schedules root pass inside s actions t) (base : Location)
    (hi : ∀ loc, inside loc → base <+: loc ∧ loc ≠ base) :
    Schedules root pass (fun loc => base <+: loc) (s.unschedule [base]) actions t where
  cache := h.cache
  frame loc hn := by
    have hne : loc ≠ base := fun e => hn (e ▸ List.prefix_refl _)
    rw [h.frame loc fun hl => hn (hi loc hl).1, PlanState.mem_unschedule]
    simp [hne]
  keeps c hc loc ht hs := h.keeps c hc loc ht (PlanState.mem_unschedule.1 hs).1
  nodup := h.nodup
  tasks loc hl := by
    obtain ⟨hin, hs, ht⟩ := h.tasks loc hl
    exact ⟨(hi loc hin).1, fun hm => hs (PlanState.mem_unschedule.1 hm).1, ht⟩

/-- Planning inside pairwise disjoint sets, one for each item of a loop. -/
theorem collect {ι : Type} (within : ι → Location → Prop)
    {step : ι → PlanState → List Action → PlanState → Prop} {c : HashMap Location WorkflowGraph}
    {l : List ι} (h : Collect step l s actions t) (hc : CacheGrows c s.cache)
    (hstep : ∀ i s acts t, i ∈ l → CacheGrows c s.cache → step i s acts t →
      Schedules root pass (within i) s acts t)
    (hd : l.Pairwise fun i j => ∀ loc, within i loc → ¬within j loc) :
    Schedules root pass (fun loc => ∃ i ∈ l, within i loc) s actions t := by
  induction h with
  | nil s => exact .quiet (.refl _) (fun _ _ => Iff.rfl) (fun _ h => h) rfl
  | cons hi _ ih =>
    rw [List.pairwise_cons] at hd
    have h₁ := hstep _ _ _ _ (.head _) hc hi
    have h₂ := ih (hc.trans h₁.cache) (fun i s acts t hm => hstep i s acts t (.tail _ hm)) hd.2
    refine (h₁.append h₂ ?_).weaken ?_
    · rintro loc hl ⟨j, hj, hw⟩
      exact hd.1 j hj loc hl hw
    · rintro loc (hl | ⟨j, hj, hw⟩)
      · exact ⟨_, .head _, hl⟩
      · exact ⟨j, .tail _ hj, hw⟩

end Schedules

/-! ## One level -/

section Level

variable {σ : Type} [WorkflowRunState σ] {O : Orchestrator} {pass : Pass σ} {root g : WorkflowGraph}
  {ctx : OrchestrationContext} {nodeStates : NodeStates} {n : NodeIndex} {s t : PlanState}
  {actions : List Action}

/-- Strictly below a location. -/
def Below (base loc : Location) : Prop := base <+: loc ∧ loc ≠ base

/-- What a level does, if it is planned with the graph that the context has for it. -/
def LevelSchedules (root : WorkflowGraph) (pass : Pass σ) : LevelRel :=
  fun ctx g s actions t => graphAt root s.cache ctx.parentLoc = some g →
    Schedules root pass (Below ctx.parentLoc) s actions t

theorem prefix_withNode (loc : Location) (n : NodeIndex) : loc <+: loc.withNode n :=
  List.prefix_append _ _

theorem prefix_withLoopIndex (loc : Location) (i : Nat) : loc <+: loc.withLoopIndex i :=
  List.prefix_append _ _

theorem prefix_withMapIndex (loc : Location) (i : Nat) : loc <+: loc.withMapIndex i :=
  List.prefix_append _ _

theorem below_of_prefix {base loc below : Location} (h : base <+: below) (hb : Below below loc) :
    Below base loc := by
  refine ⟨h.trans hb.1, fun e => hb.2 ?_⟩
  subst e
  exact h.eq_of_length_le hb.1.length_le |>.symm ▸ rfl

theorem graphAt_withNode {cache : HashMap Location WorkflowGraph} {loc : Location} :
    graphAt root cache (loc.withNode n) = cache.get? (loc.withNode n) := by
  have h : loc.withNode n ≠ Location.root := Location.withNode_ne_root loc n
  rw [graphAt, if_neg h, container_withNode]

theorem graphAt_withLoopIndex {cache : HashMap Location WorkflowGraph} {loc : Location} {i : Nat} :
    graphAt root cache (loc.withLoopIndex i) = cache.get? loc := by
  rw [graphAt, if_neg (by simp [Location.withLoopIndex, Location.root]), container_withLoopIndex]

theorem graphAt_withMapIndex {cache : HashMap Location WorkflowGraph} {loc : Location} {i : Nat} :
    graphAt root cache (loc.withMapIndex i) = cache.get? loc := by
  rw [graphAt, if_neg (by simp [Location.withMapIndex, Location.root]), container_withMapIndex]

/-- A step of a node that performs no task and plans no level. -/
theorem schedules_leaf {base : Location} (hc : CacheGrows s.cache t.cache)
    (hs : t.scheduled = s.scheduled) (ha : taskLocs actions = []) :
    Schedules root pass (fun loc => base <+: loc) (s.unschedule [base]) actions t := by
  refine .quiet hc (fun loc hn => ?_) (fun loc hl => ?_) ha
  · have hne : loc ≠ base := fun e => hn (e ▸ List.prefix_refl _)
    rw [hs, PlanState.mem_unschedule]
    simp [hne]
  · rw [hs]
    exact (PlanState.mem_unschedule.1 hl).1

/-- A nested level, seen from the node it runs in. -/
theorem schedules_nested {base level : Location} {t₁ : PlanState} (hb : base <+: level)
    (hc : CacheGrows s.cache t₁.cache) (hs : t₁.scheduled = s.scheduled)
    (h : Schedules root pass (Below level) t₁ actions t) :
    Schedules root pass (fun loc => base <+: loc) (s.unschedule [base]) actions t := by
  have h := h.below base fun loc hl => below_of_prefix hb hl
  refine { h with cache := hc.trans h.cache, frame := ?_, keeps := ?_, tasks := ?_ }
  · intro loc hn
    rw [h.frame loc hn, PlanState.mem_unschedule, PlanState.mem_unschedule, hs]
  · intro c hg loc ht hm
    rw [PlanState.mem_unschedule, ← hs, ← PlanState.mem_unschedule] at hm
    exact h.keeps c hg loc ht hm
  · intro loc hm
    obtain ⟨hi, hn, hrest⟩ := h.tasks loc hm
    rw [PlanState.mem_unschedule, hs, ← PlanState.mem_unschedule] at hn
    exact ⟨hi, hn, hrest⟩

theorem foldBundles_spec {elements : List Specs} {names : List String} :
    ∀ {outputs outputs' : Specs} {s t : PlanState},
      foldBundles O elements names outputs s = .ok (outputs', t) →
      t.scheduled = s.scheduled ∧ t.cache = s.cache := by
  induction names with
  | nil =>
    intro outputs outputs' s t h
    obtain ⟨-, rfl⟩ := pure_eq_ok.1 h
    exact ⟨rfl, rfl⟩
  | cons name names ih =>
    intro outputs outputs' s t h
    rw [foldBundles, bind_eq_ok] at h
    obtain ⟨spec, s₁, hs, h⟩ := h
    obtain ⟨A, -, rfl⟩ := withAssets_eq_ok.1 hs
    obtain ⟨hs, hc⟩ := ih h
    exact ⟨hs, hc⟩

theorem unfoldInputs_spec {inputs : Specs} {ports : List String} :
    ∀ {sets sets' : List Specs} {s t : PlanState},
      unfoldInputs O inputs ports sets s = .ok (sets', t) →
      t.scheduled = s.scheduled ∧ t.cache = s.cache := by
  induction ports with
  | nil =>
    intro sets sets' s t h
    obtain ⟨-, rfl⟩ := pure_eq_ok.1 h
    exact ⟨rfl, rfl⟩
  | cons port ports ih =>
    intro sets sets' s t h
    rw [unfoldInputs, bind_eq_ok] at h
    obtain ⟨assets, s₁, hs, h⟩ := h
    obtain ⟨A, -, rfl⟩ := withAssets_eq_ok.1 hs
    rw [lift_bind_eq_ok] at h
    obtain ⟨sets₁, -, h⟩ := h
    obtain ⟨hs, hc⟩ := ih h
    exact ⟨hs, hc⟩

theorem pairwise_pendingIndices (completed : List Bool) :
    (pendingIndices completed).Pairwise (· ≠ ·) :=
  (List.nodup_range).filter _

theorem schedules_elements {loc : Location} {size : Nat} {subgraph : WorkflowGraph}
    {l : List Nat} (hl : l.Pairwise (· ≠ ·)) (hg : s.cache.get? loc = some subgraph)
    (h : Collect (ElementStep pass (LevelSchedules root pass) ctx loc size subgraph) l s actions t) :
    Schedules root pass (Below loc) s actions t := by
  refine (Schedules.collect (fun i => Below (loc.withMapIndex i)) h
    (CacheGrows.refl s.cache) ?_ ?_).weaken ?_
  · intro i s₁ acts t₁ _ hc hstep
    have hgraph : graphAt root s₁.cache (loc.withMapIndex i) = some subgraph := by
      rw [graphAt_withMapIndex]
      exact hc _ _ hg
    cases hstep with
    | pending h _ _ => exact h hgraph
    | complete h _ _ =>
      have h := h hgraph
      have hquiet : taskLocs [⟨loc, .setMapElemComplete size i⟩] = [] := rfl
      refine { h with nodup := ?_, tasks := ?_ }
      · rw [taskLocs_append, hquiet, List.append_nil]
        exact h.nodup
      · rw [taskLocs_append, hquiet, List.append_nil]
        exact h.tasks
  · refine hl.imp fun {i j} hij l hi hj => hij ?_
    have hlen : (loc.withMapIndex i).length = (loc.withMapIndex j).length := by simp
    have := (List.prefix_of_prefix_length_le hi.1 hj.1 hlen.le).eq_of_length hlen
    exact (Location.withMapIndex_inj.1 this).2
  · rintro l ⟨i, -, hi⟩
    exact below_of_prefix (prefix_withMapIndex loc i) hi

/-- A ready node that was just scheduled. -/
theorem schedules_ready (hg : graphAt root s.cache ctx.parentLoc = some g)
    (hns : collectNodeStates pass ctx g = .ok nodeStates) (hn : n ∈ g.nodeIds)
    (ho : (stateAt nodeStates (ctx.parentLoc.withNode n)).outputs = none)
    (hs : ctx.parentLoc.withNode n ∈ s.scheduled)
    (h : ReadyStep O pass (LevelSchedules root pass) ctx g nodeStates n s actions t) :
    Schedules root pass (fun loc => ctx.parentLoc.withNode n <+: loc)
      (s.unschedule [ctx.parentLoc.withNode n]) actions t := by
  have hload {allow : Bool} {subgraph : WorkflowGraph} {t₁ : PlanState}
      (hl : loadSubgraph O ctx g nodeStates n allow s = .ok (subgraph, t₁)) :=
    loadSubgraph_spec hl
  cases h with
  | pause h =>
    have : s.unschedule [ctx.parentLoc.withNode n] =
        { s with scheduled := s.scheduled.filter fun l => l ≠ ctx.parentLoc.withNode n } := by
      simp [PlanState.unschedule]
    rw [this]
    exact .quiet (.refl _) (fun _ _ => Iff.rfl) (fun _ h => h) rfl
  | run hb h =>
    cases h with
    | task hd hi hout hr =>
      have hleaf : Schedules root pass (fun loc => ctx.parentLoc.withNode n <+: loc)
          (s.unschedule [ctx.parentLoc.withNode n]) [] s := schedules_leaf (.refl _) rfl rfl
      refine { hleaf with nodup := ?_, tasks := ?_ }
      · rw [taskLocs_task]
        exact List.nodup_singleton _
      · rw [taskLocs_task]
        intro loc hl
        rw [List.mem_singleton] at hl
        subst hl
        exact ⟨List.prefix_refl _, by simp, hs, ⟨_, n, g, rfl, hg, _, _, _, _, hd⟩,
          ctx, g, nodeStates, n, rfl, hn, hns, ho⟩
    | evalNested hd hr hl hn ho h =>
      obtain ⟨hc, hgrow, hsch, -⟩ := hload hl
      exact schedules_nested (List.prefix_refl _) hgrow hsch (h (graphAt_withNode.trans hc))
    | loopNested hd hx hl hn ho h =>
      obtain ⟨hc, hgrow, hsch, -⟩ := hload hl
      exact schedules_nested (prefix_withLoopIndex _ _) hgrow hsch
        (h (graphAt_withLoopIndex.trans hc))
    | mapElements hd hl hm hc h =>
      obtain ⟨hcache, hgrow, hsch, -⟩ := hload hl
      exact schedules_nested (List.prefix_refl _) hgrow hsch
        (schedules_elements (pairwise_pendingIndices _) hcache h)
    | evalDone _ _ hl _ _ | loopNext _ _ hl _ _ _ _ | loopDone _ _ hl _ _ _ _ =>
      obtain ⟨-, hgrow, hsch, -⟩ := hload hl
      exact schedules_leaf hgrow hsch rfl
    | mapStart _ hl _ _ hu =>
      obtain ⟨-, hgrow, hsch, -⟩ := hload hl
      obtain ⟨hs', hc'⟩ := unfoldInputs_spec hu
      exact schedules_leaf (hc' ▸ hgrow) (hs'.trans hsch) rfl
    | mapDone _ hl _ _ _ _ hf =>
      obtain ⟨-, hgrow, hsch, -⟩ := hload hl
      obtain ⟨hs', hc'⟩ := foldBundles_spec hf
      exact schedules_leaf (hc' ▸ hgrow) (hs'.trans hsch) rfl
    | output _ _ =>
      refine schedules_leaf (CacheGrows.refl _) rfl ?_
      split_ifs <;> rfl
    | _ => exact schedules_leaf (CacheGrows.refl _) rfl rfl

theorem PlanState.unschedule_cons (s : PlanState) (loc : Location) (locs : List Location) :
    (s.unschedule [loc]).unschedule locs = s.unschedule (loc :: locs) := by
  simp only [PlanState.unschedule, List.filter_filter, List.mem_cons, List.not_mem_nil, or_false,
    not_or, decide_not, Bool.decide_and]
  congr 1
  exact List.filter_congr fun l _ => Bool.and_comm _ _

/-- The ready nodes of a level, one after the other. -/
theorem schedules_readyNodes (hns : collectNodeStates pass ctx g = .ok nodeStates)
    {ready : List NodeIndex} (hnd : ready.Nodup) (hn : ∀ n ∈ ready, n ∈ g.nodeIds)
    (ho : ∀ n ∈ ready, (stateAt nodeStates (ctx.parentLoc.withNode n)).outputs = none)
    (h : Collect (ReadyStep O pass (LevelSchedules root pass) ctx g nodeStates) ready s actions t)
    (hg : graphAt root s.cache ctx.parentLoc = some g)
    (hs : ∀ n ∈ ready, ctx.parentLoc.withNode n ∈ s.scheduled) :
    Schedules root pass (fun loc => ∃ n ∈ ready, ctx.parentLoc.withNode n <+: loc)
      (s.unschedule (ready.map fun n => ctx.parentLoc.withNode n)) actions t := by
  induction h with
  | nil s => exact .quiet (.refl _) (fun _ _ => by simp) (fun _ h => by simpa using h) rfl
  | @cons n l s s₁ u acts rest hstep _ ih =>
    rw [List.nodup_cons] at hnd
    have hsep : ∀ m ∈ l, ∀ loc, ctx.parentLoc.withNode n <+: loc →
        ¬ctx.parentLoc.withNode m <+: loc := by
      rintro m hm loc hp hp'
      have hlen : (ctx.parentLoc.withNode n).length = (ctx.parentLoc.withNode m).length := by simp
      have := (List.prefix_of_prefix_length_le hp hp' hlen.le).eq_of_length hlen
      exact hnd.1 ((Location.withNode_inj.1 this).2 ▸ hm)
    have h₁ := schedules_ready hg hns (hn n (.head _)) (ho n (.head _)) (hs n (.head _)) hstep
    have hs₁ : ∀ m ∈ l, ctx.parentLoc.withNode m ∈ s₁.scheduled := by
      intro m hm
      have hne : ctx.parentLoc.withNode m ≠ ctx.parentLoc.withNode n := by
        intro e
        exact hsep m hm _ (e ▸ List.prefix_refl _) (List.prefix_refl _)
      refine (h₁.frame _ fun hp => hsep m hm _ hp (List.prefix_refl _)).2 ?_
      rw [PlanState.mem_unschedule, List.mem_singleton]
      exact ⟨hs m (.tail _ hm), hne⟩
    have h₂ := ih hnd.2 (fun m hm => hn m (.tail _ hm)) (fun m hm => ho m (.tail _ hm))
      (h₁.cache.graphAt hg) hs₁
    have h₁ := h₁.unschedule (l.map fun m => ctx.parentLoc.withNode m) (by
      intro loc hl hp
      obtain ⟨m, hm, rfl⟩ := List.mem_map.1 hl
      exact hsep m hm _ hp (List.prefix_refl _))
    rw [PlanState.unschedule_cons] at h₁
    refine (h₁.append h₂ ?_).weaken ?_
    · rintro loc hp ⟨m, hm, hp'⟩
      exact hsep m hm loc hp hp'
    · rintro loc (hp | ⟨m, hm, hp⟩)
      · exact ⟨n, .head _, hp⟩
      · exact ⟨m, .tail _ hm, hp⟩

theorem deadlockVerdict_eq_some {verdict : ActionKind} (h : deadlockVerdict nodeStates = some verdict) :
    verdict = .workflowErrored ∧ (∃ e ∈ nodeStates.toList, e.2.errorTime.isSome = true) ∨
      verdict = .workflowPaused ∧ (∀ e ∈ nodeStates.toList, e.2.errorTime = none) ∧
        ∃ e ∈ nodeStates.toList, e.2.isPaused = true := by
  unfold deadlockVerdict at h
  split_ifs at h with he hp
  · cases h
    exact .inl ⟨rfl, List.any_eq_true.1 he⟩
  · cases h
    refine .inr ⟨rfl, fun e hm => ?_, List.any_eq_true.1 hp⟩
    simp only [List.any_eq_true, not_exists, not_and, Bool.not_eq_true, Option.isSome_eq_false_iff,
      Option.isNone_iff_eq_none] at he
    exact he e hm

theorem levelSchedules_of_step (h : LevelStep O pass (LevelSchedules root pass) ctx g s actions t) :
    LevelSchedules root pass ctx g s actions t := by
  intro hg
  cases h with
  | scheduled _ _ => exact .quiet (.refl _) (fun _ _ => Iff.rfl) (fun _ h => h) rfl
  | verdict _ _ _ hv =>
    refine .quiet (.refl _) (fun _ _ => Iff.rfl) (fun _ h => h) ?_
    rcases deadlockVerdict_eq_some hv with ⟨rfl, -⟩ | ⟨rfl, -⟩ <;> rfl
  | @nodes t nodeStates ready actions hns _ hr _ hc =>
    have hd := fun n hn => demanded_of_ready (n := n) hr hn
    have hsch : ∀ n ∈ ready, ctx.parentLoc.withNode n ∈ (s.schedule ctx.parentLoc ready).scheduled :=
      fun n hn => List.mem_append_right _ (List.mem_map_of_mem hn)
    have h := schedules_readyNodes hns (findReadyNodes_spec hr).1 (fun n hn => (hd n hn).mem)
      (fun n hn => (traverse_of_demanded (hd n hn)).1) hc hg hsch
    -- A task that is ready was not scheduled before the level scheduled it.
    have hfresh : ∀ c, CacheGrows s.cache c → ∀ loc, TaskAt root c loc → loc ∈ s.scheduled →
        loc ∈ ((s.schedule ctx.parentLoc ready).unschedule
          (ready.map fun n => ctx.parentLoc.withNode n)).scheduled := by
      intro c hg' loc ht hm
      rw [PlanState.mem_unschedule]
      refine ⟨List.mem_append_left _ hm, fun hl => ?_⟩
      obtain ⟨n, hn, rfl⟩ := List.mem_map.1 hl
      exact (traverse_of_demanded (hd n hn)).2.2 (ht.isTask hg' hg).alwaysRun hm
    have hbelow : ∀ loc, (∃ n ∈ ready, ctx.parentLoc.withNode n <+: loc) →
        Below ctx.parentLoc loc := by
      rintro loc ⟨n, -, hp⟩
      refine ⟨(prefix_withNode _ n).trans hp, fun e => ?_⟩
      have := (e ▸ hp).length_le
      rw [Location.length_withNode] at this
      omega
    refine { h with frame := ?_, keeps := ?_, tasks := ?_ }
    · intro loc hn
      rw [h.frame loc fun hi => hn (hbelow loc hi), PlanState.mem_unschedule]
      constructor
      · rintro ⟨hm, hl⟩
        exact (List.mem_append.1 hm).resolve_right hl
      · refine fun hm => ⟨List.mem_append_left _ hm, fun hl => hn ?_⟩
        obtain ⟨n, hr, rfl⟩ := List.mem_map.1 hl
        exact hbelow _ ⟨n, hr, List.prefix_refl _⟩
    · exact fun c hgrow loc ht hm =>
        h.keeps c hgrow loc ht (hfresh c (h.cache.trans hgrow) loc ht hm)
    · intro loc hm
      obtain ⟨hi, hs, ht, hta, hu⟩ := h.tasks loc hm
      exact ⟨hbelow loc hi, fun hmem => hs (hfresh _ h.cache loc hta hmem), ht, hta, hu⟩

/-- A pass hands out a task only if it was not scheduled and has no outputs, and leaves it
scheduled. -/
theorem buildActions_schedules {fuel : Nat}
    (h : buildActions O pass fuel ctx g s = .ok (actions, t)) :
    LevelSchedules root pass ctx g s actions t :=
  buildActions_induction (fun _ _ _ _ _ => levelSchedules_of_step) fuel ctx g s actions t h

end Level

end Tierkreis
