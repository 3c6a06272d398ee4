import Tierkreis.Orchestrator.Plan
import Tierkreis.State.InMemory

/-!
# Restarts

A restart of some tasks makes a new attempt and copies the nodes of an earlier
one that the restarted tasks leave valid. Which nodes those are is worked out
along the path of each restarted location, graph by graph.
-/

namespace Tierkreis

open Lib

/-- What a user action makes invalid. `clearRoots` go with everything below them, the keys
of the two maps are `Loop` and `Map` nodes, and `truncateExact` are nodes to run again. -/
structure NodeCopyFilter where
  clearRoots : Finset Location := ∅
  resetLoopIndex : HashMap Location Nat := ∅
  resetMapElems : HashMap Location (List Bool) := ∅
  truncateExact : Finset Location := ∅

namespace NodeCopyFilter

/-- The smaller index stays. -/
def mergeLoopIndex (m : HashMap Location Nat) (e : Location × Nat) : HashMap Location Nat :=
  m.modify e.2 e.1 (min · e.2)

/-- The longer set of bits decides the length. -/
def mergeMapElems (m : HashMap Location (List Bool)) (e : Location × List Bool) :
    HashMap Location (List Bool) :=
  m.modify [] e.1 fun existing =>
    bitorAssign (existing ++ List.replicate (e.2.length - existing.length) false) e.2

def merge (f other : NodeCopyFilter) : NodeCopyFilter where
  clearRoots := f.clearRoots ∪ other.clearRoots
  resetLoopIndex := other.resetLoopIndex.toList.foldl mergeLoopIndex f.resetLoopIndex
  resetMapElems := other.resetMapElems.toList.foldl mergeMapElems f.resetMapElems
  truncateExact := f.truncateExact ∪ other.truncateExact

/-- Whether a location or one of its ancestors is cleared. -/
def clears (f : NodeCopyFilter) (loc : Location) : Bool :=
  decide (loc ∈ f.clearRoots) || (Location.nodeAncestors loc).any fun a => decide (a ∈ f.clearRoots)

theorem clears_iff {f : NodeCopyFilter} {loc : Location} :
    f.clears loc = true ↔ ∃ a ∈ f.clearRoots, a <+: loc := by
  have h : (loc ∈ f.clearRoots ∨ ∃ a ∈ Location.nodeAncestors loc, a ∈ f.clearRoots) ↔ _ :=
    Location.self_or_ancestor
  simp only [clears, Bool.or_eq_true, decide_eq_true_eq, List.any_eq_true]
  rw [h]
  constructor
  · rintro ⟨a, hp, ha⟩
    exact ⟨a, ha, hp⟩
  · rintro ⟨a, ha, hp⟩
    exact ⟨a, hp, ha⟩

@[simp] theorem mem_clearRoots_merge {f other : NodeCopyFilter} {loc : Location} :
    loc ∈ (f.merge other).clearRoots ↔ loc ∈ f.clearRoots ∨ loc ∈ other.clearRoots :=
  Finset.mem_union

@[simp] theorem mem_truncateExact_merge {f other : NodeCopyFilter} {loc : Location} :
    loc ∈ (f.merge other).truncateExact ↔ loc ∈ f.truncateExact ∨ loc ∈ other.truncateExact :=
  Finset.mem_union

/-- A cleared location stays cleared. -/
theorem clears_merge {f other : NodeCopyFilter} {loc : Location} :
    (f.merge other).clears loc = true ↔ f.clears loc = true ∨ other.clears loc = true := by
  simp only [clears_iff, mem_clearRoots_merge, or_and_right, exists_or]

/-- Bring a node back to where it has not run. -/
def truncate (s : NodeState) : NodeState :=
  { s with
    scheduledTime := none
    queuedTime := none
    runningTime := none
    completeTime := none
    cancelledTime := none
    errorTime := none
    outputs := none
    error := none
    errorDetail := none
    handle := none }

/-- The state in which a node is copied. -/
def copyState (f : NodeCopyFilter) (loc : Location) (s : NodeState) : NodeState :=
  let s := if loc ∈ f.truncateExact then truncate s else s
  let s :=
    match f.resetLoopIndex.get? loc with
    | some index => { s with loopIndex := some index }
    | none => s
  match f.resetMapElems.get? loc with
  | some bits => { s with mapCompleted := s.mapCompleted.map (bitxorAssign · bits) }
  | none => s

theorem outputs_copyState (f : NodeCopyFilter) (loc : Location) (s : NodeState) :
    (f.copyState loc s).outputs = if loc ∈ f.truncateExact then none else s.outputs := by
  unfold copyState
  cases f.resetLoopIndex.get? loc <;> cases f.resetMapElems.get? loc <;>
    by_cases h : loc ∈ f.truncateExact <;> simp [h, truncate]

end NodeCopyFilter

/-! ## Working out the filter -/

section Build

variable {σ : Type} [WorkflowRunState σ] (C : Codec) (W : Portgraph) (st : σ) (r : RunAttempt)
  (A : Assets)

/-- Follow the `graph` inputs along a path, from the graph of the level at `parentLoc`. -/
def findSubgraphFrom : List LocationComponent → WorkflowGraph → Location → Result WorkflowGraph
  | [], workflow, _ => pure workflow
  | .node node :: components, workflow, parentLoc => do
    let nodeStates ← WorkflowRunState.readMany st r
      (workflow.nodeIds.map fun n => parentLoc.withNode n)
    let graphAssetSpec ← collectInput workflow nodeStates parentLoc node "graph"
    let workflow ← loadSubgraphFromAsset C A graphAssetSpec
    findSubgraphFrom components workflow (parentLoc.withNode node)
  | .loopIndex index :: components, workflow, parentLoc =>
    findSubgraphFrom components workflow (parentLoc.withLoopIndex index)
  | .mapIndex index :: components, workflow, parentLoc =>
    findSubgraphFrom components workflow (parentLoc.withMapIndex index)

def findSubgraphInput (workflow : WorkflowGraph) (location : Location) : Result WorkflowGraph :=
  findSubgraphFrom C st r A location workflow Location.root

/-- The nodes that depend on a node, at its level. -/
def dependents (workflow : WorkflowGraph) (workingLocation : Location) (node : NodeIndex) :
    Finset Location :=
  (((W.postorder workflow node).filter fun d => d ≠ node).map fun d =>
    workingLocation.withNode d).toFinset

/-- One turn of the walk along the path of `location` at a node in `workflow`. -/
def visitNode (location : Location) (workflow : WorkflowGraph) (workingLocation : Location)
    (node : NodeIndex) (f : NodeCopyFilter) : NodeCopyFilter :=
  { f with
    clearRoots := f.clearRoots ∪ dependents W workflow workingLocation node
    truncateExact :=
      if workingLocation.withNode node ≠ location then
        insert (workingLocation.withNode node) f.truncateExact
      else f.truncateExact }

/-- The rest of the walk along the path of `location`. The graph of a nested level is
looked for from `workflow` with the whole path so far. -/
def walkComponents (location : Location) :
    List LocationComponent → WorkflowGraph → Location → NodeCopyFilter → Result NodeCopyFilter
  | [], _, _, f => pure f
  | .node node :: components, workflow, workingLocation, f => do
    let workflow ←
      if workingLocation.isRoot then pure workflow
      else findSubgraphInput C st r A workflow workingLocation
    walkComponents location components workflow (workingLocation.withNode node)
      (visitNode W location workflow workingLocation node f)
  | .loopIndex index :: components, workflow, workingLocation, f =>
    walkComponents location components workflow (workingLocation.withLoopIndex index)
      { f with resetLoopIndex := f.resetLoopIndex.insert workingLocation index }
  | .mapIndex index :: components, workflow, workingLocation, f =>
    walkComponents location components workflow (workingLocation.withMapIndex index)
      { f with
        resetMapElems :=
          f.resetMapElems.insert workingLocation (List.replicate index false ++ [true]) }

def buildNodeCopyFilter (workflow : WorkflowGraph) (location : Location) : Result NodeCopyFilter :=
  walkComponents C W st r A location location workflow Location.root { clearRoots := {location} }

/-- The filters of several locations, merged into `invalidated`. -/
def mergeFilters (workflow : WorkflowGraph) :
    List Location → NodeCopyFilter → Result NodeCopyFilter
  | [], invalidated => pure invalidated
  | location :: locs, invalidated => do
    let f ← buildNodeCopyFilter C W st r A workflow location
    mergeFilters workflow locs (invalidated.merge f)

end Build

/-! ## The in-memory store -/

namespace InMemoryRuntimeState

variable (st : InMemoryRuntimeState)

/-- The first attempt without an entry, counted up from `attempt`. -/
def nextAttempt (runId : Uuid) : Nat → Nat → Nat
  | 0, attempt => attempt
  | n + 1, attempt =>
    if st.runs.contains (runId, attempt) then nextAttempt runId n (attempt + 1) else attempt

def hasRootInputs (r : RunAttempt) : Bool := (st.run r).inputs.contains Location.root

def newAttempt (now : Time) (runId : Uuid) : Result (RunAttempt × InMemoryRuntimeState) :=
  let next := st.nextAttempt runId (st.runs.toList.length + 1) 0
  if (List.range next).any fun attempt => !st.hasRootInputs (runId, attempt) then
    .error (.miette "No inputs found for previous run")
  else
    match next with
    | 0 => .error (.miette s!"No existing run found for run_id: {runId}")
    | maxAttempt + 1 => do
      let last := st.run (runId, maxAttempt)
      let inputs ← okOr (last.inputs.get? Location.root) "No inputs found for previous run"
      if last.cancelledTime.isNone && last.errorTime.isNone && last.completeTime.isNone then
        .error (.miette "Cannot create a new attempt for a run that is still active")
      else
        pure ((runId, maxAttempt + 1),
          st.startAttempt (runId, maxAttempt + 1) now last.workflowId inputs)

/-- The nodes of `source` as they are copied. -/
def copiedNodes (source : RunAttemptState) (f : NodeCopyFilter) : HashMap Location NodeState :=
  source.nodes.filterMap fun loc state =>
    if f.clears loc then none else some (f.copyState loc state)

def copiedInputs (source : RunAttemptState) (f : NodeCopyFilter) : HashMap Location Specs :=
  source.inputs.filterMap fun loc inputs => if f.clears loc then none else some inputs

def copyNodeStatesFrom (target source : RunAttempt) (f : NodeCopyFilter) :
    Result InMemoryRuntimeState := do
  let sourceRun ← okOr (st.runs.get? source) "Source run attempt not found"
  let targetRun := st.run target
  pure { st with
    runs := st.runs.insert target { targetRun with
      nodes := targetRun.nodes.extend (copiedNodes sourceRun f)
      inputs := targetRun.inputs.extend (copiedInputs sourceRun f) } }

def loadWorkflow (r : RunAttempt) : Result WorkflowGraph :=
  (okOr (st.workflows.get? (st.run r).workflowId)
    s!"Workflow not found with workflow id: {(st.run r).workflowId}").map Prod.snd

/-- The entry of an attempt is made when it is not there. -/
def loadWorkflowRunState (r : RunAttempt) : InMemoryRuntimeState :=
  { st with runs := if st.runs.contains r then st.runs else st.runs.insert r {} }

/-! ## What a restart leaves alone -/

theorem nextAttempt_free {runId : Uuid} :
    ∀ (n attempt : Nat), (∀ k < attempt, st.runs.contains (runId, k) = true) →
      st.runs.toList.length < attempt + n →
      st.runs.contains (runId, st.nextAttempt runId n attempt) = false ∧
        ∀ k < st.nextAttempt runId n attempt, st.runs.contains (runId, k) = true
  | 0, attempt, hk, hn => by
    -- More attempts than entries.
    exfalso
    have hnd : ((List.range attempt).map fun k => (runId, k)).Nodup :=
      List.nodup_range.map fun a b h => (Prod.mk.inj h).2
    have hsub : (List.range attempt).map (fun k => (runId, k)) ⊆ st.runs.toList.map Prod.fst := by
      intro key hkey
      obtain ⟨k, hlt, rfl⟩ := List.mem_map.1 hkey
      obtain ⟨run, hrun⟩ := Option.isSome_iff_exists.1 (hk k (List.mem_range.1 hlt))
      exact List.mem_map.2 ⟨_, HashMap.get?_eq_some_iff.1 hrun, rfl⟩
    have := (hnd.subperm hsub).length_le
    simp only [List.length_map, List.length_range] at this
    omega
  | n + 1, attempt, hk, hn => by
    unfold nextAttempt
    split_ifs with h
    · refine nextAttempt_free n (attempt + 1) (fun k hlt => ?_) (by omega)
      rcases Nat.lt_succ_iff_lt_or_eq.1 hlt with hlt | rfl
      · exact hk k hlt
      · exact h
    · exact ⟨by simpa using h, hk⟩

/-- A new attempt has no entry yet, and starts from the one before it. -/
theorem newAttempt_eq_ok {now : Time} {runId : Uuid} {r : RunAttempt} {st' : InMemoryRuntimeState}
    (h : st.newAttempt now runId = .ok (r, st')) :
    st.runs.get? r = none ∧ ∃ last inputs, st.runs.contains (runId, last) = true ∧
      r = (runId, last + 1) ∧
      st' = st.startAttempt r now (st.run (runId, last)).workflowId inputs := by
  have hfree := @nextAttempt_free st runId (st.runs.toList.length + 1) 0
    (fun k hk => absurd hk (Nat.not_lt_zero k)) (by omega)
  unfold newAttempt at h
  dsimp only at h
  split_ifs at h
  split at h
  · cases h
  · rename_i last hlast
    rw [hlast] at hfree
    rw [Result.bind_eq_ok] at h
    obtain ⟨inputs, -, h⟩ := h
    split_ifs at h
    obtain ⟨rfl, rfl⟩ := Prod.mk.inj (Except.ok.inj h)
    refine ⟨?_, last, inputs, hfree.2 last (Nat.lt_succ_self last), rfl, rfl⟩
    simpa [HashMap.contains] using hfree.1

theorem copyNodeStatesFrom_eq_ok {target source : RunAttempt} {f : NodeCopyFilter}
    {st' : InMemoryRuntimeState} :
    st.copyNodeStatesFrom target source f = .ok st' ↔
      ∃ sourceRun, st.runs.get? source = some sourceRun ∧
        st' = { st with
          runs := st.runs.insert target { st.run target with
            nodes := (st.run target).nodes.extend (copiedNodes sourceRun f)
            inputs := (st.run target).inputs.extend (copiedInputs sourceRun f) } } := by
  unfold copyNodeStatesFrom
  rw [Result.bind_eq_ok]
  simp only [okOr_eq_ok]
  constructor
  · rintro ⟨sourceRun, hs, h⟩
    exact ⟨sourceRun, hs, (Except.ok.inj h).symm⟩
  · rintro ⟨sourceRun, hs, rfl⟩
    exact ⟨sourceRun, hs, rfl⟩

end InMemoryRuntimeState

end Tierkreis
