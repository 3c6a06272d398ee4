import Tierkreis.Orchestrator.Plan
import Tierkreis.Lib.StateExcept

/-!
# What a pass does

`LevelStep R` says everything that one level of a successful pass can do, where
`R` says what the levels below it do, and `NodeStep R` the same of one ready
node. A property of levels that is closed under `LevelStep` holds of every
successful pass.
-/

namespace Tierkreis

open Lib Lib.StateExcept

section Steps

variable {σ : Type} [WorkflowRunState σ] (O : Orchestrator) (pass : Pass σ)

/-- What one level does: its context and graph, the state before, the actions, the state
after. -/
abbrev LevelRel :=
  OrchestrationContext → WorkflowGraph → PlanState → List Action → PlanState → Prop

/-- One element of a map: its level, and then the output of that level. -/
inductive ElementStep (R : LevelRel) (ctx : OrchestrationContext) (loc : Location) (size : Nat)
    (subgraph : WorkflowGraph) (index : Nat) : PlanState → List Action → PlanState → Prop
  | pending {s t : PlanState} {actions : List Action} {state : NodeState}
      (h : R (ctx.withLocation (loc.withMapIndex index)) subgraph s actions t)
      (hr : readNode pass ((loc.withMapIndex index).withNode subgraph.outputIdx) = .ok state)
      (ho : state.outputs = none) : ElementStep R ctx loc size subgraph index s actions t
  | complete {s t : PlanState} {actions : List Action} {state : NodeState} {outputs : Specs}
      (h : R (ctx.withLocation (loc.withMapIndex index)) subgraph s actions t)
      (hr : readNode pass ((loc.withMapIndex index).withNode subgraph.outputIdx) = .ok state)
      (ho : state.outputs = some outputs) :
      ElementStep R ctx loc size subgraph index s
        (actions ++ [⟨loc, .setMapElemComplete size index⟩]) t

/-- A ready node that is not held at a breakpoint. -/
inductive NodeStep (R : LevelRel) (ctx : OrchestrationContext) (g : WorkflowGraph)
    (nodeStates : NodeStates) (n : NodeIndex) : PlanState → List Action → PlanState → Prop
  | input {s : PlanState} {name : String} {spec : AssetSpec}
      (hd : g.nodeDefinition n = some (.input name))
      (hl : WorkflowRunState.loadNamedInputFromLocation
        (pass.view (.namedInput ctx.parentLoc name)) pass.run ctx.parentLoc name = .ok spec) :
      NodeStep R ctx g nodeStates n s
        [⟨ctx.parentLoc.withNode n, .setComplete ((∅ : Specs).insert name spec)⟩] s
  | const {s : PlanState} {value : Json} {spec : AssetSpec} {A : Assets}
      (hd : g.nodeDefinition n = some (.const value))
      (hs : s.assets.saveAsset O.defaultStorageName (O.codec.toVec value) = .ok (spec, A)) :
      NodeStep R ctx g nodeStates n s
        [⟨ctx.parentLoc.withNode n, .setComplete ((∅ : Specs).insert "value" spec)⟩]
        { s with assets := A }
  | output {s : PlanState} {inputs : Specs} (hd : g.nodeDefinition n = some .output)
      (hi : collectInputs g nodeStates ctx.parentLoc n = .ok inputs) :
      NodeStep R ctx g nodeStates n s
        (⟨ctx.parentLoc.withNode n, .setComplete inputs⟩ ::
          if ctx.parentLoc.withNode n = Location.fromNodeIndexIter [g.outputIdx] then
            [⟨ctx.parentLoc.withNode n, .workflowCompleted⟩] else []) s
  | task {s : PlanState} {workerName taskName : String} {context executor : Option String}
      {inputs : Specs} {outputs : List String} {resolved : ResolvedContext}
      (hd : g.nodeDefinition n = some (.task workerName taskName context executor))
      (hi : collectInputs g nodeStates ctx.parentLoc n = .ok inputs)
      (ho : g.outputNames n = .ok outputs)
      (hr : resolveContext (ctx.withExecutionContext context executor)
        (ctx.parentLoc.withNode n) = .ok resolved) :
      NodeStep R ctx g nodeStates n s
        [⟨ctx.parentLoc.withNode n, .performTask workerName taskName inputs outputs
          (stateAt nodeStates (ctx.parentLoc.withNode n)).handle resolved⟩] s
  | evalStart {s : PlanState} {context executor : Option String} {inputs : Specs}
      (hd : g.nodeDefinition n = some (.eval context executor))
      (hr : (stateAt nodeStates (ctx.parentLoc.withNode n)).runningTime = none)
      (hi : collectInputs g nodeStates ctx.parentLoc n = .ok inputs) :
      NodeStep R ctx g nodeStates n s
        [⟨ctx.parentLoc.withNode n, .setRunningEval (inputs.erase "graph")⟩] s
  | evalDone {s t : PlanState} {context executor : Option String} {subgraph : WorkflowGraph}
      {state : NodeState} {outputs : Specs}
      (hd : g.nodeDefinition n = some (.eval context executor))
      (hr : (stateAt nodeStates (ctx.parentLoc.withNode n)).runningTime ≠ none)
      (hl : loadSubgraph O ctx g nodeStates n true s = .ok (subgraph, t))
      (hn : readNode pass ((ctx.parentLoc.withNode n).withNode subgraph.outputIdx) = .ok state)
      (ho : state.outputs = some outputs) :
      NodeStep R ctx g nodeStates n s [⟨ctx.parentLoc.withNode n, .setComplete outputs⟩] t
  | evalNested {s t u : PlanState} {context executor : Option String} {subgraph : WorkflowGraph}
      {state : NodeState} {actions : List Action}
      (hd : g.nodeDefinition n = some (.eval context executor))
      (hr : (stateAt nodeStates (ctx.parentLoc.withNode n)).runningTime ≠ none)
      (hl : loadSubgraph O ctx g nodeStates n true s = .ok (subgraph, t))
      (hn : readNode pass ((ctx.parentLoc.withNode n).withNode subgraph.outputIdx) = .ok state)
      (ho : state.outputs = none)
      (h : R ((ctx.withExecutionContext context executor).withLocation
        (ctx.parentLoc.withNode n)) subgraph t actions u) :
      NodeStep R ctx g nodeStates n s actions u
  | loopStart {s : PlanState} {context executor : Option String} {inputs : Specs}
      (hd : g.nodeDefinition n = some (.loop context executor))
      (hx : (stateAt nodeStates (ctx.parentLoc.withNode n)).loopIndex = none)
      (hi : collectInputs g nodeStates ctx.parentLoc n = .ok inputs) :
      NodeStep R ctx g nodeStates n s
        [⟨ctx.parentLoc.withNode n,
          .setRunningLoop 0 (inputs.erase "graph") (g.nodeName n)⟩] s
  | loopNested {s t u : PlanState} {context executor : Option String} {index : Nat}
      {subgraph : WorkflowGraph} {state : NodeState} {actions : List Action}
      (hd : g.nodeDefinition n = some (.loop context executor))
      (hx : (stateAt nodeStates (ctx.parentLoc.withNode n)).loopIndex = some index)
      (hl : loadSubgraph O ctx g nodeStates n false s = .ok (subgraph, t))
      (hn : readNode pass (((ctx.parentLoc.withNode n).withLoopIndex index).withNode
        subgraph.outputIdx) = .ok state)
      (ho : state.outputs = none)
      (h : R ((ctx.withExecutionContext context executor).withLocation
        ((ctx.parentLoc.withNode n).withLoopIndex index)) subgraph t actions u) :
      NodeStep R ctx g nodeStates n s actions u
  | loopNext {s t : PlanState} {context executor : Option String} {index : Nat}
      {subgraph : WorkflowGraph} {state : NodeState} {outputs inputs : Specs}
      (hd : g.nodeDefinition n = some (.loop context executor))
      (hx : (stateAt nodeStates (ctx.parentLoc.withNode n)).loopIndex = some index)
      (hl : loadSubgraph O ctx g nodeStates n false s = .ok (subgraph, t))
      (hn : readNode pass (((ctx.parentLoc.withNode n).withLoopIndex index).withNode
        subgraph.outputIdx) = .ok state)
      (ho : state.outputs = some outputs)
      (hc : t.assets.loadAsset outputs "should_continue" = .ok btrue)
      (hi : collectInputs g nodeStates ctx.parentLoc n = .ok inputs) :
      NodeStep R ctx g nodeStates n s
        [⟨ctx.parentLoc.withNode n,
          .setRunningLoop (index + 1) (inputs.extend outputs) (g.nodeName n)⟩] t
  | loopDone {s t : PlanState} {context executor : Option String} {index : Nat}
      {subgraph : WorkflowGraph} {state : NodeState} {outputs : Specs} {bytes : Bytes}
      (hd : g.nodeDefinition n = some (.loop context executor))
      (hx : (stateAt nodeStates (ctx.parentLoc.withNode n)).loopIndex = some index)
      (hl : loadSubgraph O ctx g nodeStates n false s = .ok (subgraph, t))
      (hn : readNode pass (((ctx.parentLoc.withNode n).withLoopIndex index).withNode
        subgraph.outputIdx) = .ok state)
      (ho : state.outputs = some outputs)
      (hc : t.assets.loadAsset outputs "should_continue" = .ok bytes) (hb : bytes ≠ btrue) :
      NodeStep R ctx g nodeStates n s [⟨ctx.parentLoc.withNode n, .setComplete outputs⟩] t
  | mapStart {s t u : PlanState} {mappedPorts : List String} {context executor : Option String}
      {subgraph : WorkflowGraph} {inputs : Specs} {inputSets : List Specs}
      (hd : g.nodeDefinition n = some (.map mappedPorts context executor))
      (hl : loadSubgraph O ctx g nodeStates n false s = .ok (subgraph, t))
      (hm : (stateAt nodeStates (ctx.parentLoc.withNode n)).mapCompleted = none)
      (hi : collectInputs g nodeStates ctx.parentLoc n = .ok inputs)
      (hu : unfoldInputs O (inputs.erase "graph") mappedPorts [] t = .ok (inputSets, u)) :
      NodeStep R ctx g nodeStates n s
        [⟨ctx.parentLoc.withNode n, .setRunningMap inputSets⟩] u
  | mapDone {s t u : PlanState} {mappedPorts : List String} {context executor : Option String}
      {subgraph : WorkflowGraph} {completed : List Bool} {names : List String}
      {elements : List Specs} {outputs : Specs}
      (hd : g.nodeDefinition n = some (.map mappedPorts context executor))
      (hl : loadSubgraph O ctx g nodeStates n false s = .ok (subgraph, t))
      (hm : (stateAt nodeStates (ctx.parentLoc.withNode n)).mapCompleted = some completed)
      (hc : completed.all id = true) (hn : g.outputNames n = .ok names)
      (he : elementOutputs pass (ctx.parentLoc.withNode n) subgraph.outputIdx
        (List.range completed.length) = .ok elements)
      (hf : foldBundles O elements (bundleNames names elements) ∅ t = .ok (outputs, u)) :
      NodeStep R ctx g nodeStates n s [⟨ctx.parentLoc.withNode n, .setComplete outputs⟩] u
  | mapElements {s t u : PlanState} {mappedPorts : List String} {context executor : Option String}
      {subgraph : WorkflowGraph} {completed : List Bool} {actions : List Action}
      (hd : g.nodeDefinition n = some (.map mappedPorts context executor))
      (hl : loadSubgraph O ctx g nodeStates n false s = .ok (subgraph, t))
      (hm : (stateAt nodeStates (ctx.parentLoc.withNode n)).mapCompleted = some completed)
      (hc : completed.all id = false)
      (h : Collect (ElementStep pass R (ctx.withExecutionContext context executor)
        (ctx.parentLoc.withNode n) completed.length subgraph) (pendingIndices completed) t actions
        u) :
      NodeStep R ctx g nodeStates n s actions u
  | ifElseCond {s : PlanState} {link : OutPort} {outputs : Specs} {bytes : Bytes}
      (hd : g.nodeDefinition n = some .ifElse)
      (hc : (stateAt nodeStates (ctx.parentLoc.withNode n)).cond = none)
      (hl : g.connectedInputByPortName n "pred" = .ok link)
      (ho : (stateAt nodeStates (ctx.parentLoc.withNode link.node)).outputs = some outputs)
      (hb : s.assets.loadAsset outputs link.port = .ok bytes) :
      NodeStep R ctx g nodeStates n s
        [⟨ctx.parentLoc.withNode n, .setSwitching (bytes == btrue)⟩] s
  | ifElseBranch {s : PlanState} {b : Bool} {link : OutPort} {outputs : Specs} {value : AssetSpec}
      (hd : g.nodeDefinition n = some .ifElse)
      (hc : (stateAt nodeStates (ctx.parentLoc.withNode n)).cond = some b)
      (hl : g.connectedInputByPortName n (ifElsePort (some b)) = .ok link)
      (ho : (stateAt nodeStates (ctx.parentLoc.withNode link.node)).outputs = some outputs)
      (hv : outputs.get? link.port = some value) :
      NodeStep R ctx g nodeStates n s
        [⟨ctx.parentLoc.withNode n, .setComplete ((∅ : Specs).insert "value" value)⟩] s
  | eagerIfElse {s : PlanState} {inputs : Specs} {bytes : Bytes} {value : AssetSpec}
      (hd : g.nodeDefinition n = some .eagerIfElse)
      (hi : collectInputs g nodeStates ctx.parentLoc n = .ok inputs)
      (hl : s.assets.loadAsset inputs "pred" = .ok bytes)
      (hv : inputs.get? (if bytes = btrue then "if_true" else "if_false") = some value) :
      NodeStep R ctx g nodeStates n s
        [⟨ctx.parentLoc.withNode n, .setComplete ((∅ : Specs).insert "value" value)⟩] s

/-- Whether a node is held at a breakpoint. -/
def Held (ctx : OrchestrationContext) (g : WorkflowGraph) (nodeStates : NodeStates)
    (n : NodeIndex) : Prop :=
  g.hasBreakpoint n = true ∧
    (stateAt nodeStates (ctx.parentLoc.withNode n)).unpausedTime = none

/-- A ready node. -/
inductive ReadyStep (R : LevelRel) (ctx : OrchestrationContext) (g : WorkflowGraph)
    (nodeStates : NodeStates) (n : NodeIndex) : PlanState → List Action → PlanState → Prop
  | pause {s : PlanState} (h : Held ctx g nodeStates n) :
      ReadyStep R ctx g nodeStates n s [⟨ctx.parentLoc.withNode n, .setPaused⟩]
        { s with scheduled := s.scheduled.filter fun l => l ≠ ctx.parentLoc.withNode n }
  | run {s t : PlanState} {actions : List Action} (hb : ¬Held ctx g nodeStates n)
      (h : NodeStep O pass R ctx g nodeStates n s actions t) :
      ReadyStep R ctx g nodeStates n s actions t

/-- The state in which the ready nodes of a level are planned. -/
def PlanState.schedule (s : PlanState) (parentLoc : Location) (ready : List NodeIndex) :
    PlanState :=
  { s with scheduled := s.scheduled ++ ready.map fun n => parentLoc.withNode n }

inductive LevelStep (R : LevelRel) (ctx : OrchestrationContext) (g : WorkflowGraph) :
    PlanState → List Action → PlanState → Prop
  | scheduled {s : PlanState} {nodeStates : NodeStates}
      (hns : collectNodeStates pass ctx g = .ok nodeStates)
      (h : ctx.parentLoc.withNode g.outputIdx ∈ s.scheduled) : LevelStep R ctx g s [] s
  | verdict {s : PlanState} {nodeStates : NodeStates} {verdict : ActionKind}
      (hns : collectNodeStates pass ctx g = .ok nodeStates)
      (h : ctx.parentLoc.withNode g.outputIdx ∉ s.scheduled)
      (hr : findReadyNodes O.portgraph g nodeStates ctx.parentLoc s.scheduled = .ok [])
      (hv : deadlockVerdict nodeStates = some verdict) :
      LevelStep R ctx g s [⟨ctx.parentLoc, verdict⟩] s
  | nodes {s t : PlanState} {nodeStates : NodeStates} {ready : List NodeIndex}
      {actions : List Action}
      (hns : collectNodeStates pass ctx g = .ok nodeStates)
      (h : ctx.parentLoc.withNode g.outputIdx ∉ s.scheduled)
      (hr : findReadyNodes O.portgraph g nodeStates ctx.parentLoc s.scheduled = .ok ready)
      (hv : ready = [] → deadlockVerdict nodeStates = none)
      (hc : Collect (ReadyStep O pass R ctx g nodeStates) ready (s.schedule ctx.parentLoc ready)
        actions t) : LevelStep R ctx g s actions t

/-! ## A successful pass takes these steps -/

variable {O pass} {R : LevelRel} {rec : OrchestrationContext → WorkflowGraph → Plan (List Action)}

theorem collect_of_collectActions {ι : Type} {f : ι → Plan (List Action)} {l : List ι} :
    ∀ {s t : PlanState} {actions : List Action},
      collectActions f l s = .ok (actions, t) →
      Collect (fun i s acts t => f i s = .ok (acts, t)) l s actions t := by
  induction l with
  | nil =>
    intro s t actions h
    obtain ⟨rfl, rfl⟩ := pure_eq_ok.1 h
    exact .nil _
  | cons i l ih =>
    intro s t actions h
    rw [collectActions, bind_eq_ok] at h
    obtain ⟨acts, s₁, hi, h⟩ := h
    obtain ⟨rest, s₂, hl, h⟩ := bind_eq_ok.1 h
    obtain ⟨rfl, rfl⟩ := pure_eq_ok.1 h
    exact .cons hi (ih hl)

theorem withAssets_eq_ok {α : Type} {f : Assets → Result (α × Assets)} {s t : PlanState} {a : α} :
    withAssets f s = .ok (a, t) ↔
      ∃ A, f s.assets = .ok (a, A) ∧ t = { s with assets := A } := by
  unfold withAssets
  cases f s.assets with
  | error e => simp [Except.map]
  | ok r =>
    obtain ⟨b, A⟩ := r
    simp only [Except.map, Except.ok.injEq, Prod.mk.injEq]
    constructor
    · rintro ⟨rfl, rfl⟩
      exact ⟨A, ⟨rfl, rfl⟩, rfl⟩
    · rintro ⟨_, ⟨rfl, rfl⟩, rfl⟩
      exact ⟨rfl, rfl⟩

theorem readAssets_eq_ok {α : Type} {f : Assets → Result α} {s t : PlanState} {a : α} :
    readAssets f s = .ok (a, t) ↔ f s.assets = .ok a ∧ t = s := by
  unfold readAssets
  cases f s.assets with
  | error e => simp [Except.map]
  | ok b => simp [Except.map, eq_comm]

variable {ctx : OrchestrationContext} {g : WorkflowGraph} {nodeStates : NodeStates}
  {n : NodeIndex} {s t : PlanState} {actions : List Action}

theorem elementStep_of_build {size index : Nat} {subgraph : WorkflowGraph}
    (hrec : ∀ ctx g s acts t, rec ctx g s = .ok (acts, t) → R ctx g s acts t)
    (h : buildElementActions pass rec ctx n size subgraph index s = .ok (actions, t)) :
    ElementStep pass R ctx (ctx.parentLoc.withNode n) size subgraph index s actions t := by
  rw [buildElementActions, bind_eq_ok] at h
  obtain ⟨acts, s₁, hr, h⟩ := h
  rw [lift_bind_eq_ok] at h
  obtain ⟨state, hn, h⟩ := h
  cases ho : state.outputs with
  | none =>
    rw [ho] at h
    obtain ⟨rfl, rfl⟩ := pure_eq_ok.1 h
    exact .pending (hrec _ _ _ _ _ hr) hn ho
  | some outputs =>
    rw [ho] at h
    obtain ⟨rfl, rfl⟩ := pure_eq_ok.1 h
    exact .complete (hrec _ _ _ _ _ hr) hn ho

theorem nodeStep_of_eval {context executor : Option String}
    (hrec : ∀ ctx g s acts t, rec ctx g s = .ok (acts, t) → R ctx g s acts t)
    (hd : g.nodeDefinition n = some (.eval context executor))
    (h : buildEvalActions O pass rec (ctx.withExecutionContext context executor) g nodeStates n s =
      .ok (actions, t)) : NodeStep O pass R ctx g nodeStates n s actions t := by
  rw [buildEvalActions, OrchestrationContext.parentLoc_withExecutionContext] at h
  split_ifs at h with hr
  · rw [bind_eq_ok] at h
    obtain ⟨subgraph, s₁, hl, h⟩ := h
    rw [lift_bind_eq_ok] at h
    obtain ⟨state, hn, h⟩ := h
    have hr := Option.isSome_iff_ne_none.1 hr
    cases ho : state.outputs with
    | none =>
      rw [ho] at h
      exact .evalNested hd hr hl hn ho (hrec _ _ _ _ _ h)
    | some outputs =>
      rw [ho] at h
      obtain ⟨rfl, rfl⟩ := pure_eq_ok.1 h
      exact .evalDone hd hr hl hn ho
  · rw [lift_bind_eq_ok] at h
    obtain ⟨inputs, hi, h⟩ := h
    obtain ⟨rfl, rfl⟩ := pure_eq_ok.1 h
    exact .evalStart hd (by simpa using hr) hi

theorem nodeStep_of_loop {context executor : Option String}
    (hrec : ∀ ctx g s acts t, rec ctx g s = .ok (acts, t) → R ctx g s acts t)
    (hd : g.nodeDefinition n = some (.loop context executor))
    (h : buildLoopActions O pass rec (ctx.withExecutionContext context executor) g nodeStates n
      (g.nodeName n) s = .ok (actions, t)) : NodeStep O pass R ctx g nodeStates n s actions t := by
  rw [buildLoopActions, OrchestrationContext.parentLoc_withExecutionContext] at h
  cases hx : (stateAt nodeStates (ctx.parentLoc.withNode n)).loopIndex with
  | none =>
    rw [hx] at h
    rw [lift_bind_eq_ok] at h
    obtain ⟨inputs, hi, h⟩ := h
    obtain ⟨rfl, rfl⟩ := pure_eq_ok.1 h
    exact .loopStart hd hx hi
  | some index =>
    rw [hx] at h
    rw [bind_eq_ok] at h
    obtain ⟨subgraph, s₁, hl, h⟩ := h
    rw [lift_bind_eq_ok] at h
    obtain ⟨state, hn, h⟩ := h
    cases ho : state.outputs with
    | none =>
      rw [ho] at h
      exact .loopNested hd hx hl hn ho (hrec _ _ _ _ _ h)
    | some outputs =>
      rw [ho] at h
      rw [bind_eq_ok] at h
      obtain ⟨bytes, s₃, hc, h⟩ := h
      replace hc := readAssets_eq_ok.1 hc
      obtain ⟨hc, rfl⟩ := hc
      split_ifs at h with hb
      · rw [lift_bind_eq_ok] at h
        obtain ⟨inputs, hi, h⟩ := h
        obtain ⟨rfl, rfl⟩ := pure_eq_ok.1 h
        exact .loopNext hd hx hl hn ho (hb ▸ hc) hi
      · obtain ⟨rfl, rfl⟩ := pure_eq_ok.1 h
        exact .loopDone hd hx hl hn ho hc hb

theorem nodeStep_of_map {mappedPorts : List String} {context executor : Option String}
    (hrec : ∀ ctx g s acts t, rec ctx g s = .ok (acts, t) → R ctx g s acts t)
    (hd : g.nodeDefinition n = some (.map mappedPorts context executor))
    (h : buildMapActions O pass rec (ctx.withExecutionContext context executor) g nodeStates
      mappedPorts n s = .ok (actions, t)) : NodeStep O pass R ctx g nodeStates n s actions t := by
  rw [buildMapActions] at h
  rw [bind_eq_ok] at h
  obtain ⟨subgraph, s₁, hl, h⟩ := h
  rw [OrchestrationContext.parentLoc_withExecutionContext] at h
  cases hm : (stateAt nodeStates (ctx.parentLoc.withNode n)).mapCompleted with
  | none =>
    rw [hm, buildInitialMapActions] at h
    rw [lift_bind_eq_ok] at h
    obtain ⟨inputs, hi, h⟩ := h
    rw [bind_eq_ok] at h
    obtain ⟨inputSets, s₃, hu, h⟩ := h
    obtain ⟨rfl, rfl⟩ := pure_eq_ok.1 h
    exact .mapStart hd hl hm hi hu
  | some completed =>
    rw [hm] at h
    dsimp only at h
    split_ifs at h with hc
    · rw [buildCompletedMapAction] at h
      rw [bind_eq_ok] at h
      obtain ⟨action, s₂, ha, h⟩ := h
      rw [lift_bind_eq_ok] at ha
      obtain ⟨names, hn, ha⟩ := ha
      rw [lift_bind_eq_ok] at ha
      obtain ⟨elements, he, ha⟩ := ha
      rw [bind_eq_ok] at ha
      obtain ⟨outputs, s₅, hf, ha⟩ := ha
      obtain ⟨rfl, rfl⟩ := pure_eq_ok.1 ha
      obtain ⟨rfl, rfl⟩ := pure_eq_ok.1 h
      exact .mapDone hd hl hm hc hn he hf
    · exact .mapElements hd hl hm (by simpa using hc)
        ((collect_of_collectActions h).mono fun _ _ _ _ _ he => elementStep_of_build hrec he)

theorem linkedState {port : OutPort} {state : NodeState} {outputs : Specs} {text text' : String}
    (hs : okOr (nodeStates.get? (ctx.parentLoc.withNode port.node)) text = .ok state)
    (ho : okOr state.outputs text' = .ok outputs) :
    (stateAt nodeStates (ctx.parentLoc.withNode port.node)).outputs = some outputs := by
  rw [stateAt, okOr_eq_ok.1 hs]
  exact okOr_eq_ok.1 ho

theorem nodeStep_of_ifElse (hd : g.nodeDefinition n = some .ifElse) {action : Action}
    (h : buildIfElseAction ctx g nodeStates n s = .ok (action, t)) :
    NodeStep O pass R ctx g nodeStates n s [action] t := by
  rw [buildIfElseAction] at h
  cases hc : (stateAt nodeStates (ctx.parentLoc.withNode n)).cond with
  | none =>
    rw [hc] at h
    rw [bind_eq_ok] at h
    obtain ⟨bytes, s₁, hp, h⟩ := h
    replace hp := readAssets_eq_ok.1 hp
    obtain ⟨hp, rfl⟩ := hp
    obtain ⟨rfl, rfl⟩ := pure_eq_ok.1 h
    rw [loadPred, Result.bind_eq_ok] at hp
    obtain ⟨link, hl, hp⟩ := hp
    rw [Result.bind_eq_ok] at hp
    obtain ⟨state, hs, hp⟩ := hp
    rw [Result.bind_eq_ok] at hp
    obtain ⟨outputs, ho, hb⟩ := hp
    exact .ifElseCond hd hc hl (linkedState hs ho) hb
  | some b =>
    rw [hc] at h
    replace h := lift_eq_ok.1 h
    obtain ⟨h, rfl⟩ := h
    rw [buildBranchAction, Result.bind_eq_ok] at h
    obtain ⟨link, hl, h⟩ := h
    rw [Result.bind_eq_ok] at h
    obtain ⟨state, hs, h⟩ := h
    rw [Result.bind_eq_ok] at h
    obtain ⟨outputs, ho, h⟩ := h
    rw [Result.bind_eq_ok] at h
    obtain ⟨value, hv, h⟩ := h
    cases h
    exact .ifElseBranch hd hc hl (linkedState hs ho) (okOr_eq_ok.1 hv)

theorem nodeStep_of_eagerIfElse (hd : g.nodeDefinition n = some .eagerIfElse) {action : Action}
    (h : buildEagerIfElseAction ctx g nodeStates n s = .ok (action, t)) :
    NodeStep O pass R ctx g nodeStates n s [action] t := by
  rw [buildEagerIfElseAction] at h
  rw [lift_bind_eq_ok] at h
  obtain ⟨inputs, hi, h⟩ := h
  rw [bind_eq_ok] at h
  obtain ⟨bytes, s₂, hl, h⟩ := h
  replace hl := readAssets_eq_ok.1 hl
  obtain ⟨hl, rfl⟩ := hl
  cases hv : inputs.get? (if bytes = btrue then "if_true" else "if_false") with
  | none =>
    rw [hv] at h
    exact absurd h throw_ne_ok
  | some value =>
    rw [hv] at h
    obtain ⟨rfl, rfl⟩ := pure_eq_ok.1 h
    exact .eagerIfElse hd hi hl hv

/-- The actions of one action. -/
theorem singleton_eq_ok {x : Plan Action}
    (h : (do return [← x] : Plan (List Action)) s = .ok (actions, t)) :
    ∃ action, x s = .ok (action, t) ∧ actions = [action] := by
  rw [bind_eq_ok] at h
  obtain ⟨action, s₁, hx, h⟩ := h
  obtain ⟨rfl, rfl⟩ := pure_eq_ok.1 h
  exact ⟨action, hx, rfl⟩

theorem readyStep_of_build
    (hrec : ∀ ctx g s acts t, rec ctx g s = .ok (acts, t) → R ctx g s acts t)
    (h : buildNodeActions O pass rec ctx g nodeStates n s = .ok (actions, t)) :
    ReadyStep O pass R ctx g nodeStates n s actions t := by
  rw [buildNodeActions] at h
  cases hd : g.nodeDefinition n with
  | none =>
    rw [hd] at h
    exact absurd h throw_ne_ok
  | some definition =>
    rw [hd] at h
    dsimp only at h
    by_cases hb : Held ctx g nodeStates n
    · rw [if_pos (by simpa [Held] using hb)] at h
      replace h := singleton_eq_ok h
      obtain ⟨action, h, rfl⟩ := h
      cases h
      exact .pause hb
    · rw [if_neg (by simpa [Held] using hb)] at h
      refine .run hb ?_
      cases definition with
      | input name =>
        replace h := singleton_eq_ok h
        obtain ⟨action, h, rfl⟩ := h
        rw [buildInputAction, lift_bind_eq_ok] at h
        obtain ⟨spec, hl, h⟩ := h
        obtain ⟨rfl, rfl⟩ := pure_eq_ok.1 h
        exact .input hd hl
      | const value =>
        replace h := singleton_eq_ok h
        obtain ⟨action, h, rfl⟩ := h
        rw [buildConstAction, bind_eq_ok] at h
        obtain ⟨spec, s₁, hs, h⟩ := h
        replace hs := withAssets_eq_ok.1 hs
        obtain ⟨A, hs, rfl⟩ := hs
        obtain ⟨rfl, rfl⟩ := pure_eq_ok.1 h
        exact .const hd hs
      | output =>
        dsimp only at h
        rw [buildOutputActions, lift_bind_eq_ok] at h
        obtain ⟨inputs, hi, h⟩ := h
        obtain ⟨rfl, rfl⟩ := pure_eq_ok.1 h
        exact .output hd hi
      | task workerName taskName context executor =>
        replace h := singleton_eq_ok h
        obtain ⟨action, h, rfl⟩ := h
        rw [buildTaskAction, lift_bind_eq_ok] at h
        obtain ⟨inputs, hi, h⟩ := h
        rw [lift_bind_eq_ok] at h
        obtain ⟨outputs, ho, h⟩ := h
        rw [lift_bind_eq_ok] at h
        obtain ⟨resolved, hr, h⟩ := h
        obtain ⟨rfl, rfl⟩ := pure_eq_ok.1 h
        exact .task hd hi ho hr
      | eval context executor => exact nodeStep_of_eval hrec hd h
      | loop context executor => exact nodeStep_of_loop hrec hd h
      | map mappedPorts context executor => exact nodeStep_of_map hrec hd h
      | ifElse =>
        replace h := singleton_eq_ok h
        obtain ⟨action, h, rfl⟩ := h
        exact nodeStep_of_ifElse hd h
      | eagerIfElse =>
        replace h := singleton_eq_ok h
        obtain ⟨action, h, rfl⟩ := h
        exact nodeStep_of_eagerIfElse hd h

theorem levelStep_of_build
    (hrec : ∀ ctx g s acts t, rec ctx g s = .ok (acts, t) → R ctx g s acts t)
    (h : buildLevel O pass rec ctx g s = .ok (actions, t)) : LevelStep O pass R ctx g s actions t := by
  rw [buildLevel] at h
  rw [lift_bind_eq_ok] at h
  obtain ⟨nodeStates, hns, h⟩ := h
  rw [get_bind_eq_ok] at h
  split_ifs at h with ho
  · obtain ⟨rfl, rfl⟩ := pure_eq_ok.1 h
    exact .scheduled hns (by simpa using ho)
  · have ho : ctx.parentLoc.withNode g.outputIdx ∉ s.scheduled := by simpa using ho
    rw [get_bind_eq_ok, lift_bind_eq_ok] at h
    obtain ⟨ready, hr, h⟩ := h
    have hnodes (hv : ready = [] → deadlockVerdict nodeStates = none)
        (h : collectActions (buildNodeActions O pass rec ctx g nodeStates) ready
          (s.schedule ctx.parentLoc ready) = .ok (actions, t)) :
        LevelStep O pass R ctx g s actions t :=
      .nodes hns ho hr hv
        ((collect_of_collectActions h).mono fun _ _ _ _ _ hn => readyStep_of_build hrec hn)
    cases ready with
    | cons n ready => exact hnodes (fun e => by cases e) h
    | nil =>
      cases hv : deadlockVerdict nodeStates with
      | none =>
        rw [hv] at h
        exact hnodes (fun _ => hv) h
      | some verdict =>
        rw [hv] at h
        obtain ⟨rfl, rfl⟩ := pure_eq_ok.1 h
        exact .verdict hns ho hr hv

/-- A property of levels that is closed under their steps holds of every successful pass. -/
theorem buildActions_induction (h : ∀ ctx g s acts t, LevelStep O pass R ctx g s acts t →
      R ctx g s acts t) :
    ∀ fuel ctx g s acts t, buildActions O pass fuel ctx g s = .ok (acts, t) → R ctx g s acts t
  | 0, _, _, _, _, _, hb => absurd hb throw_ne_ok
  | fuel + 1, ctx, g, s, acts, t, hb =>
    h ctx g s acts t (levelStep_of_build (buildActions_induction h fuel) hb)

end Steps

end Tierkreis
