import Tierkreis.Resources
import Tierkreis.State.Interface

/-!
# Planning

`buildActions` walks a graph and the nested graphs that run in it, and collects
the actions to perform. A planning pass reads the run state several times while
other parties write to it, so each read goes through a `view`, which says in
which state of the store that read happens.

The streams of the ready nodes run interleaved. What they share is the set of
scheduled locations and the cache of subgraphs, where each touches entries of
its own; so they are run here one after another, and whoever performs the
actions takes them in any order.
-/

namespace Tierkreis

open Lib

inductive ActionKind where
  | performTask (workerName taskName : String) (inputs : Specs) (outputs : List String)
      (taskHandle : Option TaskHandle) (resources : ResolvedContext)
  | setPaused
  | setSwitching (cond : Bool)
  | setRunningEval (inputs : Specs)
  | setRunningLoop (index : Nat) (inputs : Specs) (name : Option String)
  | setRunningMap (inputSets : List Specs)
  | setMapElemComplete (size index : Nat)
  | setComplete (outputs : Specs)
  | workflowPaused
  | workflowErrored
  | workflowCompleted

structure Action where
  loc : Location
  kind : ActionKind

/-- The part of a context that is copied on the way down. -/
structure OrchestrationContext where
  parentLoc : Location := Location.root
  profiles : Option ResourceProfiles := none
  inheritedContext : Option String := none
  inheritedExecutor : Option String := none

namespace OrchestrationContext

def withLocation (ctx : OrchestrationContext) (location : Location) : OrchestrationContext :=
  { ctx with parentLoc := location }

def withExecutionContext (ctx : OrchestrationContext) (context executor : Option String) :
    OrchestrationContext :=
  { ctx with
    inheritedContext := context.or ctx.inheritedContext
    inheritedExecutor := executor.or ctx.inheritedExecutor }

@[simp] theorem parentLoc_withLocation (ctx : OrchestrationContext) (location : Location) :
    (ctx.withLocation location).parentLoc = location := rfl

@[simp] theorem parentLoc_withExecutionContext (ctx : OrchestrationContext)
    (context executor : Option String) :
    (ctx.withExecutionContext context executor).parentLoc = ctx.parentLoc := rfl

end OrchestrationContext

/-- What a pass shares and changes: the locations scheduled in this context, the subgraphs
loaded in it, and the assets. -/
structure PlanState where
  scheduled : List Location := []
  cache : HashMap Location WorkflowGraph := ∅
  assets : Assets

abbrev Plan := StateT PlanState (Except Failure)

/-- The fixed parts of an orchestrator and the crates it rests on. -/
structure Orchestrator where
  codec : Codec
  portgraph : Portgraph
  defaultExecutorName : String
  defaultStorageName : String

/-- A read of the run state, by what it reads. -/
inductive ReadPoint where
  | nodeStates (parent : Location)
  | node (loc : Location)
  | namedInput (loc : Location) (name : String)
  deriving DecidableEq

/-- A planning pass for one attempt: which state of the store each read sees. -/
structure Pass (σ : Type) where
  run : RunAttempt
  view : ReadPoint → σ

/-- The state of a node, which is the default when the store has none. -/
def stateAt (nodeStates : NodeStates) (loc : Location) : NodeState := (nodeStates.get? loc).getD {}

def hasOutputs (nodeStates : NodeStates) (loc : Location) : Bool :=
  (stateAt nodeStates loc).outputs.isSome

/-! ## Inputs -/

/-- The asset at an output port that is linked to a node. -/
def linkedOutput (nodeStates : NodeStates) (parentLoc : Location) (port : OutPort) :
    Result AssetSpec := do
  let state ← okOr (nodeStates.get? (parentLoc.withNode port.node))
    s!"Could not find node outputs for node: {port.node}"
  let outputs ← okOr state.outputs s!"Could not find node outputs for node: {port.node}"
  okOr (outputs.get? port.port)
    s!"Could not get node output for node: {port.node} and port name: {port.port}"

def collectInput (g : WorkflowGraph) (nodeStates : NodeStates) (parentLoc : Location)
    (node : NodeIndex) (portName : String) : Result AssetSpec := do
  let link ← g.connectedInputByPortName node portName
  linkedOutput nodeStates parentLoc link

/-- The assets of some links, by input port. -/
def collectLinks (nodeStates : NodeStates) (parentLoc : Location) :
    List (String × OutPort) → Specs → Result Specs
  | [], inputs => pure inputs
  | (name, port) :: links, inputs => do
    let spec ← linkedOutput nodeStates parentLoc port
    collectLinks nodeStates parentLoc links (inputs.insert name spec)

def collectInputs (g : WorkflowGraph) (nodeStates : NodeStates) (parentLoc : Location)
    (node : NodeIndex) : Result Specs :=
  collectLinks nodeStates parentLoc (g.inputLinks node) ∅

/-! ## Ready nodes -/

section Ready

variable (W : Portgraph) (g : WorkflowGraph) (nodeStates : NodeStates) (parentLoc : Location)
  (scheduled : List Location)

/-- Nodes that are not planned twice in one context. -/
def alwaysRun : NodeDefinition → Bool
  | .task .. | .input _ | .const _ | .output => true
  | _ => false

/-- A node to traverse: it has no outputs, is not paused and not scheduled for good. -/
def traverseNode (n : NodeIndex) : Bool :=
  let state := stateAt nodeStates (parentLoc.withNode n)
  let scheduledThisLifetime := scheduled.contains (parentLoc.withNode n)
  state.outputs.isNone && !state.isPaused &&
    !((g.nodeDefinition n).any alwaysRun && scheduledThisLifetime)

def isIfElse (n : NodeIndex) : Bool :=
  match g.nodeDefinition n with
  | some .ifElse => true
  | _ => false

/-- A port to traverse. Other ports of an `IfElse` node panic, see `unexpectedPort`. -/
def shouldTraverseIfElsePort (cond : Option Bool) (portName : String) : Bool :=
  if portName = "pred" then true
  else if portName = "if_true" then cond == some true
  else if portName = "if_false" then cond == some false
  else false

def traversePort (n : NodeIndex) (portName : String) : Bool :=
  !isIfElse g n ||
    shouldTraverseIfElsePort (stateAt nodeStates (parentLoc.withNode n)).cond portName

def unexpectedPort (n : NodeIndex) : Bool :=
  isIfElse g n && ((g.node? n).any fun node =>
    node.inputs.any fun p => p.name ∉ ["pred", "if_true", "if_false"])

def portHasInput (n : NodeIndex) (portName : String) : Result Bool := do
  let link ← g.connectedInputByPortName n portName
  pure (hasOutputs nodeStates (parentLoc.withNode link.node))

/-- The port that an `IfElse` node waits for. -/
def ifElsePort (cond : Option Bool) : String :=
  match cond with
  | none => "pred"
  | some true => "if_true"
  | some false => "if_false"

def ifElseReady (n : NodeIndex) : Result Bool :=
  let port := ifElsePort (stateAt nodeStates (parentLoc.withNode n)).cond
  match portHasInput g nodeStates parentLoc n port with
  | .ok b => .ok b
  | .error _ => .error (.panic s!"No `{port}` port on `IfElse` node")

def nodeReady (n : NodeIndex) : Result Bool :=
  if isIfElse g n then ifElseReady g nodeStates parentLoc n
  else pure (g.allInputs n fun incoming => hasOutputs nodeStates (parentLoc.withNode incoming))

/-- The nodes to look at, from the output backwards. -/
def demandedNodes : List NodeIndex :=
  W.toposortFiltered g (traverseNode g nodeStates parentLoc scheduled)
    (traversePort g nodeStates parentLoc)

/-- Keep the ready ones. -/
def filterReady : List NodeIndex → Result (List NodeIndex)
  | [] => pure []
  | n :: ns => do
    let ready ← nodeReady g nodeStates parentLoc n
    let rest ← filterReady ns
    pure (if ready then n :: rest else rest)

def findReadyNodes : Result (List NodeIndex) :=
  let demanded := demandedNodes W g nodeStates parentLoc scheduled
  if demanded.any (unexpectedPort g) then .error (.panic "Unexpected port name for `IfElse`")
  else filterReady g nodeStates parentLoc demanded

end Ready

/-- What a pass says of a level with nothing ready. -/
def deadlockVerdict (nodeStates : NodeStates) : Option ActionKind :=
  if nodeStates.toList.any fun e => e.2.errorTime.isSome then some .workflowErrored
  else if nodeStates.toList.any fun e => e.2.isPaused then some .workflowPaused
  else none

/-! ## Actions of single nodes -/

section Build

variable {σ : Type} [WorkflowRunState σ] (O : Orchestrator) (pass : Pass σ)

def withAssets {α : Type} (f : Assets → Result (α × Assets)) : Plan α := fun s =>
  (f s.assets).map fun r => (r.1, { s with assets := r.2 })

def readAssets {α : Type} (f : Assets → Result α) : Plan α := fun s =>
  (f s.assets).map fun a => (a, s)

def readNode (loc : Location) : Result NodeState :=
  WorkflowRunState.read (pass.view (.node loc)) pass.run loc

def collectNodeStates (ctx : OrchestrationContext) (g : WorkflowGraph) : Result NodeStates :=
  WorkflowRunState.readMany (pass.view (.nodeStates ctx.parentLoc)) pass.run
    (g.nodeIds.map fun n => ctx.parentLoc.withNode n)

/-- The `graph` input of a node. A recursive node without one runs the graph it is in. -/
def graphInput (ctx : OrchestrationContext) (g : WorkflowGraph) (nodeStates : NodeStates)
    (n : NodeIndex) (allowRecursion : Bool) (A : Assets) : Result WorkflowGraph :=
  match collectInput g nodeStates ctx.parentLoc n "graph" with
  | .ok spec => loadSubgraphFromAsset O.codec A spec
  | .error e => if allowRecursion then pure g else .error e

/-- From the cache, or from the `graph` input. -/
def loadSubgraph (ctx : OrchestrationContext) (g : WorkflowGraph) (nodeStates : NodeStates)
    (n : NodeIndex) (allowRecursion : Bool) : Plan WorkflowGraph := fun s =>
  let graphLoc := ctx.parentLoc.withNode n
  match s.cache.get? graphLoc with
  | some subgraph => .ok (subgraph, s)
  | none =>
    (graphInput O ctx g nodeStates n allowRecursion s.assets).map fun subgraph =>
      (subgraph, { s with cache := s.cache.insert graphLoc subgraph })

def buildPauseAction (ctx : OrchestrationContext) (n : NodeIndex) : Plan Action := fun s =>
  let loc := ctx.parentLoc.withNode n
  .ok (⟨loc, .setPaused⟩, { s with scheduled := s.scheduled.filter fun l => l ≠ loc })

def buildInputAction (ctx : OrchestrationContext) (n : NodeIndex) (name : String) :
    Plan Action := do
  let spec ← (WorkflowRunState.loadNamedInputFromLocation
    (pass.view (.namedInput ctx.parentLoc name)) pass.run ctx.parentLoc name : Result AssetSpec)
  pure ⟨ctx.parentLoc.withNode n, .setComplete ((∅ : Specs).insert name spec)⟩

def buildConstAction (ctx : OrchestrationContext) (n : NodeIndex) (value : Json) :
    Plan Action := do
  let spec ← withAssets fun A => A.saveAsset O.defaultStorageName (O.codec.toVec value)
  pure ⟨ctx.parentLoc.withNode n, .setComplete ((∅ : Specs).insert "value" spec)⟩

def buildOutputActions (ctx : OrchestrationContext) (g : WorkflowGraph) (nodeStates : NodeStates)
    (n : NodeIndex) : Plan (List Action) := do
  let inputs ← (collectInputs g nodeStates ctx.parentLoc n : Result Specs)
  let loc := ctx.parentLoc.withNode n
  let isRootWorkflow := loc = Location.fromNodeIndexIter [g.outputIdx]
  pure (⟨loc, .setComplete inputs⟩ :: if isRootWorkflow then [⟨loc, .workflowCompleted⟩] else [])

/-- The context of a task: resolved by the profile, or only its executor. -/
def resolveContext (ctx : OrchestrationContext) (loc : Location) : Result ResolvedContext :=
  match ctx.profiles, ctx.inheritedContext with
  | some profiles, requested => profiles.resolve requested ctx.inheritedExecutor
  | none, some requested => .error (.miette
      (s!"Task at {loc.toText} requests execution context `{requested}` " ++
        "but no resource deployment is selected"))
  | none, none => pure { executor := ctx.inheritedExecutor }

def buildTaskAction (ctx : OrchestrationContext) (g : WorkflowGraph) (nodeStates : NodeStates)
    (n : NodeIndex) (workerName taskName : String) : Plan Action := do
  let loc := ctx.parentLoc.withNode n
  let inputs ← (collectInputs g nodeStates ctx.parentLoc n : Result Specs)
  let outputs ← (g.outputNames n : Result (List String))
  let resolved ← (resolveContext ctx loc : Result ResolvedContext)
  pure ⟨loc, .performTask workerName taskName inputs outputs (stateAt nodeStates loc).handle resolved⟩

def buildBranchAction (ctx : OrchestrationContext) (g : WorkflowGraph) (nodeStates : NodeStates)
    (n : NodeIndex) (portName : String) : Result Action := do
  let link ← g.connectedInputByPortName n portName
  let state ← okOr (nodeStates.get? (ctx.parentLoc.withNode link.node))
    s!"Cannot find state for `{portName}` node"
  let outputs ← okOr state.outputs s!"No outputs found on node connected to `{portName}` port."
  let value ← okOr (outputs.get? link.port) s!"No outputs found for `{link.port}` port."
  pure ⟨ctx.parentLoc.withNode n, .setComplete ((∅ : Specs).insert "value" value)⟩

def loadPred (ctx : OrchestrationContext) (g : WorkflowGraph) (nodeStates : NodeStates)
    (n : NodeIndex) (A : Assets) : Result Bytes := do
  let link ← g.connectedInputByPortName n "pred"
  let state ← okOr (nodeStates.get? (ctx.parentLoc.withNode link.node))
    "Cannot find state for `pred` node"
  let outputs ← okOr state.outputs "`pred` node has no outputs"
  A.loadAsset outputs link.port

def buildIfElseAction (ctx : OrchestrationContext) (g : WorkflowGraph) (nodeStates : NodeStates)
    (n : NodeIndex) : Plan Action :=
  match (stateAt nodeStates (ctx.parentLoc.withNode n)).cond with
  | none => do
    let predBytes ← readAssets (loadPred ctx g nodeStates n)
    pure ⟨ctx.parentLoc.withNode n, .setSwitching (predBytes == btrue)⟩
  | some b => (buildBranchAction ctx g nodeStates n (ifElsePort (some b)) : Result Action)

def buildEagerIfElseAction (ctx : OrchestrationContext) (g : WorkflowGraph)
    (nodeStates : NodeStates) (n : NodeIndex) : Plan Action := do
  let inputs ← (collectInputs g nodeStates ctx.parentLoc n : Result Specs)
  let predBytes ← readAssets fun A => A.loadAsset inputs "pred"
  let port := if predBytes = btrue then "if_true" else "if_false"
  match inputs.get? port with
  | some value => pure ⟨ctx.parentLoc.withNode n, .setComplete ((∅ : Specs).insert "value" value)⟩
  | none => throw (.panic "called `Option::unwrap()` on a `None` value")

/-! ## Actions of containers

`rec` plans a nested graph. -/

variable (rec : OrchestrationContext → WorkflowGraph → Plan (List Action))

def buildEvalActions (ctx : OrchestrationContext) (g : WorkflowGraph) (nodeStates : NodeStates)
    (n : NodeIndex) : Plan (List Action) := do
  let location := ctx.parentLoc.withNode n
  if (stateAt nodeStates location).runningTime.isSome then
    let subgraph ← loadSubgraph O ctx g nodeStates n true
    let outputState ← (readNode pass (location.withNode subgraph.outputIdx) : Result NodeState)
    match outputState.outputs with
    | some outputs => pure [⟨location, .setComplete outputs⟩]
    | none => rec (ctx.withLocation location) subgraph
  else
    let inputs ← (collectInputs g nodeStates ctx.parentLoc n : Result Specs)
    pure [⟨location, .setRunningEval (inputs.erase "graph")⟩]

def buildLoopActions (ctx : OrchestrationContext) (g : WorkflowGraph) (nodeStates : NodeStates)
    (n : NodeIndex) (name : Option String) : Plan (List Action) := do
  let loc := ctx.parentLoc.withNode n
  match (stateAt nodeStates loc).loopIndex with
  | none =>
    let inputs ← (collectInputs g nodeStates ctx.parentLoc n : Result Specs)
    pure [⟨loc, .setRunningLoop 0 (inputs.erase "graph") name⟩]
  | some index =>
    let loopLoc := loc.withLoopIndex index
    let subgraph ← loadSubgraph O ctx g nodeStates n false
    let outputState ← (readNode pass (loopLoc.withNode subgraph.outputIdx) : Result NodeState)
    match outputState.outputs with
    | none => rec (ctx.withLocation loopLoc) subgraph
    | some outputs =>
      let shouldContinue ← readAssets fun A => A.loadAsset outputs "should_continue"
      if shouldContinue = btrue then
        let inputs ← (collectInputs g nodeStates ctx.parentLoc n : Result Specs)
        pure [⟨loc, .setRunningLoop (index + 1) (inputs.extend outputs) name⟩]
      else pure [⟨loc, .setComplete outputs⟩]

/-- Put the assets of a mapped port into the input sets, one each. -/
def insertMapped (port : String) : List AssetSpec → List Specs → Result (List Specs)
  | [], sets => pure sets
  | _ :: _, [] => .error (.panic "called `Option::unwrap()` on a `None` value")
  | asset :: assets, set :: sets => do
    let sets ← insertMapped port assets sets
    pure (set.insert port asset :: sets)

/-- Unfold the mapped ports, one after another. -/
def unfoldInputs (inputs : Specs) : List String → List Specs → Plan (List Specs)
  | [], sets => pure sets
  | port :: ports, sets => do
    let assets ← withAssets fun A => A.unfoldAsset O.codec.toSerde inputs port
    let sets := if sets.isEmpty then List.replicate assets.length inputs else sets
    let sets ← (insertMapped port assets sets : Result (List Specs))
    unfoldInputs inputs ports sets

def buildInitialMapActions (ctx : OrchestrationContext) (g : WorkflowGraph)
    (nodeStates : NodeStates) (mappedPorts : List String) (n : NodeIndex) :
    Plan (List Action) := do
  let inputs ← (collectInputs g nodeStates ctx.parentLoc n : Result Specs)
  let inputSets ← unfoldInputs O (inputs.erase "graph") mappedPorts []
  pure [⟨ctx.parentLoc.withNode n, .setRunningMap inputSets⟩]

/-- The outputs of the elements of a map, in index order. -/
def elementOutputs (loc : Location) (outputIdx : NodeIndex) : List Nat → Result (List Specs)
  | [] => pure []
  | index :: indices => do
    let state ← readNode pass ((loc.withMapIndex index).withNode outputIdx)
    let outputs ← okOr state.outputs "No outputs!"
    let rest ← elementOutputs loc outputIdx indices
    pure (outputs :: rest)

/-- The names that get a bundle: the output ports, and what the elements have. -/
def bundleNames (names : List String) (elements : List Specs) : List String :=
  (names ++ elements.flatMap fun o => o.toList.map Prod.fst).dedup

/-- Fold the bundle of each name. -/
def foldBundles (elements : List Specs) : List String → Specs → Plan Specs
  | [], outputs => pure outputs
  | name :: names, outputs => do
    let spec ← withAssets fun A => A.foldAssets O.codec.toSerde O.defaultStorageName
      (elements.filterMap fun o => o.get? name)
    foldBundles elements names (outputs.insert name spec)

def buildCompletedMapAction (ctx : OrchestrationContext) (g : WorkflowGraph) (n : NodeIndex)
    (mapSize : Nat) (outputIdx : NodeIndex) : Plan Action := do
  let loc := ctx.parentLoc.withNode n
  let names ← (g.outputNames n : Result (List String))
  let elements ← (elementOutputs pass loc outputIdx (List.range mapSize) : Result (List Specs))
  let outputs ← foldBundles O elements (bundleNames names elements) ∅
  pure ⟨loc, .setComplete outputs⟩

/-- Plan an element, and then see whether it has become complete. -/
def buildElementActions (ctx : OrchestrationContext) (n : NodeIndex) (mapSize : Nat)
    (subgraph : WorkflowGraph) (index : Nat) : Plan (List Action) := do
  let location := ctx.parentLoc.withNode n
  let mapLoc := location.withMapIndex index
  let actions ← rec (ctx.withLocation mapLoc) subgraph
  let outputState ← (readNode pass (mapLoc.withNode subgraph.outputIdx) : Result NodeState)
  match outputState.outputs with
  | none => pure actions
  | some _ => pure (actions ++ [⟨location, .setMapElemComplete mapSize index⟩])

/-- The actions of each item of a list in turn. -/
def collectActions {α : Type} (f : α → Plan (List Action)) : List α → Plan (List Action)
  | [] => pure []
  | a :: l => do
    let actions ← f a
    let rest ← collectActions f l
    pure (actions ++ rest)

/-- The indices of the bits that are not set. -/
def pendingIndices (completed : List Bool) : List Nat :=
  (List.range completed.length).filter fun i => completed[i]? == some false

def buildMapActions (ctx : OrchestrationContext) (g : WorkflowGraph) (nodeStates : NodeStates)
    (mappedPorts : List String) (n : NodeIndex) : Plan (List Action) := do
  let subgraph ← loadSubgraph O ctx g nodeStates n false
  match (stateAt nodeStates (ctx.parentLoc.withNode n)).mapCompleted with
  | none => buildInitialMapActions O ctx g nodeStates mappedPorts n
  | some completed =>
    if completed.all id then
      let action ← buildCompletedMapAction O pass ctx g n completed.length subgraph.outputIdx
      pure [action]
    else
      collectActions (buildElementActions pass rec ctx n completed.length subgraph)
        (pendingIndices completed)

/-- The actions of a ready node. -/
def buildNodeActions (ctx : OrchestrationContext) (g : WorkflowGraph) (nodeStates : NodeStates)
    (n : NodeIndex) : Plan (List Action) :=
  match g.nodeDefinition n with
  | none => throw (.miette "Could not find node definition")
  | some definition =>
    if g.hasBreakpoint n &&
        (stateAt nodeStates (ctx.parentLoc.withNode n)).unpausedTime.isNone then
      return [← buildPauseAction ctx n]
    else
      match definition with
      | .input name => return [← buildInputAction pass ctx n name]
      | .const value => return [← buildConstAction O ctx n value]
      | .output => buildOutputActions ctx g nodeStates n
      | .task workerName taskName context executor =>
        return [← buildTaskAction (ctx.withExecutionContext context executor) g nodeStates n
          workerName taskName]
      | .eval context executor =>
        buildEvalActions O pass rec (ctx.withExecutionContext context executor) g nodeStates n
      | .loop context executor =>
        buildLoopActions O pass rec (ctx.withExecutionContext context executor) g nodeStates n
          (g.nodeName n)
      | .map mappedPorts context executor =>
        buildMapActions O pass rec (ctx.withExecutionContext context executor) g nodeStates
          mappedPorts n
      | .ifElse => return [← buildIfElseAction ctx g nodeStates n]
      | .eagerIfElse => return [← buildEagerIfElseAction ctx g nodeStates n]

/-- One level of a pass. -/
def buildLevel (ctx : OrchestrationContext) (g : WorkflowGraph) : Plan (List Action) := do
  let nodeStates ← (collectNodeStates pass ctx g : Result NodeStates)
  let loc := ctx.parentLoc.withNode g.outputIdx
  if (← get).scheduled.contains loc then
    -- Output is already scheduled, no actions to perform.
    return []
  let readyNodes ← (findReadyNodes O.portgraph g nodeStates ctx.parentLoc (← get).scheduled :
    Result (List NodeIndex))
  match readyNodes, deadlockVerdict nodeStates with
  | [], some verdict => return [⟨ctx.parentLoc, verdict⟩]
  | _, _ =>
    modify fun s => { s with
      scheduled := s.scheduled ++ readyNodes.map fun n => ctx.parentLoc.withNode n }
    collectActions (buildNodeActions O pass rec ctx g nodeStates) readyNodes

/-- The nested graphs of a pass are as deep as the containers that run; `fuel` bounds the
depth. -/
def buildActions : Nat → OrchestrationContext → WorkflowGraph → Plan (List Action)
  | 0 => fun _ _ => throw .outOfFuel
  | fuel + 1 => buildLevel O pass (buildActions fuel)

end Build

end Tierkreis
