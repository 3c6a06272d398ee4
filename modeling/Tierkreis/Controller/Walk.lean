import Tierkreis.Controller.Meaning

/-!
# The walk of the Python controller

`walk_node` goes from the output of a graph back to what is not finished, and
says which nodes can be started. It looks into evals, loops and maps that have
been started, and finishes the nodes that only pass values on.
-/

namespace Tierkreis.Controller

open Lib

variable {V : Type}

/-! ## Adjacency -/

/-- What must be finished before the node starts. A lazy conditional waits for `pred` only. -/
def NodeDef.waitsFor (node : NodeDef V) : List ValueRef :=
  match node.kind with
  | .ifelse pred _ _ => [pred]
  | _ => node.inEdges.toList.map Prod.snd

namespace Storage

/-- Inputs at -1 are finished already. -/
def unfinishedInputs (s : Storage V) (loc : Loc) (node : NodeDef V) : List ValueRef :=
  (node.waitsFor.filter fun x => decide (0 ≤ x.1)).filter fun x => !s.isNodeFinished (loc.N x.1)

def isNodeStarted (s : Storage V) (loc : Loc) : Bool := (s.nodeDefs.get? loc).isSome

/-- The last of the iterations from `i` on that are started one after the other. -/
def latestFrom (s : Storage V) (loc : Loc) : Nat → Nat → Nat
  | 0, i => i
  | fuel + 1, i => if s.isNodeStarted (loc.L (i + 1 : Nat)) then latestFrom s loc fuel (i + 1) else i

/-- No more iterations are started than there are node definitions. -/
def latestLoopIteration (s : Storage V) (loc : Loc) : Nat :=
  s.latestFrom loc s.nodeDefs.toList.length 0

end Storage

/-! ## Nodes -/

/-- `ptype_from_bytes(bs, GraphData)`. -/
def Interpretation.decodeGraph (W : Interpretation V) (bs : Bytes) : Except PyError (GraphData V) :=
  match W.graphOf bs with
  | some g => .ok g
  | none => .error (.decode "GraphData")

/-- `ptype_from_bytes(bs, bool)`. -/
def Interpretation.decodeBool (W : Interpretation V) (bs : Bytes) : Except PyError Bool :=
  match W.shouldContinue bs with
  | some b => .ok b
  | none => .error (.decode "bool")

/-- `RecursionError`, told from a `TierkreisError` by its text. -/
def recursionError : PyError := .tierkreis "maximum recursion depth exceeded"

/-- `list(d)` of a dictionary. -/
def portsOf {α : Type} (d : HashMap PortID α) : List PortID := d.toList.map Prod.fst

/-- What is needed to run the node at `loc`. -/
def runData (loc : Loc) (node : NodeDef V) : NodeRunData V where
  nodeLocation := loc
  node := node
  outputList := portsOf node.outputs

/-- The eval node that stands for the next iteration of a loop. -/
def iterationDef (loop : NodeDef V) (loopOutputs : HashMap PortID ValueRef) : NodeDef V where
  kind := .eval (-1, "body")
  inputs := (loop.inputs.filterMap fun k _ => some (-1, k)).extend loopOutputs
  outputs := loop.outputs

section

variable (W : Interpretation V) (walkNode : Loc → Int → GraphData V → Ctl V (WalkResult V))

/-- Walk the inputs one after the other, and put the results together. -/
def walkInputs (parent : Loc) (g : GraphData V) : List ValueRef → WalkResult V → Ctl V (WalkResult V)
  | [], result => pure result
  | x :: unfinished, result => do
    let r ← walkNode parent x.1 g
    walkInputs parent g unfinished (result.extend r)

def walkLoop (parent : Loc) (idx : Int) (loop : NodeDef V) (continuePort : PortID) :
    Ctl V (WalkResult V) := do
  let loc := parent.N idx
  if (← get).isNodeFinished loc then return {}
  else
    let latest := (← get).latestLoopIteration loc
    let newLocation := loc.L latest
    let g ← W.decodeGraph (← (← get).readOutput (loc.N (-1)) "body")
    let out ← g.outputIdx
    let outputNode ← g.nodeAt out
    if !(← get).isNodeFinished newLocation then walkNode newLocation out g
    else
      let shouldContinue ← W.decodeBool (← (← get).readOutput newLocation continuePort)
      if shouldContinue then
        return { inputsReady := [{
          nodeLocation := loc.L (latest + 1 : Nat)
          node := iterationDef loop outputNode.inputs
          outputList := portsOf outputNode.inputs }] }
      else
        modify fun s => (portsOf outputNode.inputs).foldl
          (fun s k => s.linkOutputs loc k newLocation k) s
        modify fun s => s.markNodeFinished loc
        return {}

/-- The branch that `pred` selects. -/
def selected (p : Bytes) (ifTrue ifFalse : ValueRef) : ValueRef :=
  if p = trueBytes then ifTrue else ifFalse

def walkIfelse (parent : Loc) (idx : Int) (g : GraphData V) (pred ifTrue ifFalse : ValueRef) :
    Ctl V (WalkResult V) := do
  let loc := parent.N idx
  let p ← (← get).readOutput (parent.N pred.1) pred.2
  let nextNode := selected p ifTrue ifFalse
  let nextLoc := parent.N nextNode.1
  if (← get).isNodeFinished nextLoc then
    modify fun s => s.linkOutputs loc "value" nextLoc nextNode.2
    modify fun s => s.markNodeFinished loc
    return {}
  else walkNode parent nextNode.1 g

def walkEifelse (parent : Loc) (idx : Int) (pred ifTrue ifFalse : ValueRef) :
    Ctl V (WalkResult V) := do
  let loc := parent.N idx
  let p ← (← get).readOutput (parent.N pred.1) pred.2
  let nextNode := selected p ifTrue ifFalse
  modify fun s => s.linkOutputs loc "value" (parent.N nextNode.1) nextNode.2
  modify fun s => s.markNodeFinished loc
  return {}

/-- The walk of a node that is started. -/
def walkStarted (parent : Loc) (idx : Int) (g : GraphData V) (node : NodeDef V) :
    Ctl V (WalkResult V) :=
  let loc := parent.N idx
  match node.kind with
  | .eval graph => do
    let g ← W.decodeGraph (← (← get).readOutput (parent.N graph.1) graph.2)
    walkNode loc (← g.outputIdx) g
  | .output | .const _ => return { inputsReady := [runData loc node] }
  | .loop _ continuePort _ => walkLoop W walkNode parent idx node continuePort
  | .map _ => walkMap W.decodeGraph walkNode parent idx node
  | .ifelse pred ifTrue ifFalse => walkIfelse walkNode parent idx g pred ifTrue ifFalse
  | .eifelse pred ifTrue ifFalse => walkEifelse parent idx pred ifTrue ifFalse
  | .function _ => return { started := [loc] }
  | .input _ => return {}

end

/-- The first argument is how deep the interpreter lets the walk go. -/
def walkNode (W : Interpretation V) (hasError : Loc → Bool) :
    Nat → Loc → Int → GraphData V → Ctl V (WalkResult V)
  | 0, _, _, _ => throw recursionError
  | depth + 1, parent, idx, g => do
    let loc := parent.N idx
    if hasError loc then return { errored := [loc] }
    else
      let node ← g.nodeAt idx
      let unfinished := (← get).unfinishedInputs parent node
      let result ← walkInputs (walkNode W hasError depth) parent g unfinished {}
      if !unfinished.isEmpty then return result
      else if !(← get).isNodeStarted loc then
        let hasBreakpoint := (g.nodeMetadata.get? idx).any NodeMetaData.hasBreakpoint
        return { inputsReady := [runData loc node]
                 breakpoints := if hasBreakpoint then [loc] else [] }
      else walkStarted W (walkNode W hasError depth) parent idx g node

/-! ## What a walk can do -/

open Lib.StateExcept

section Inversion

variable {W : Interpretation V} {walk : Loc → Int → GraphData V → Ctl V (WalkResult V)}
  {parent : Loc} {idx : Int} {g : GraphData V} {s s' : Storage V} {r : WalkResult V}

theorem decodeGraph_eq_ok {bs : Bytes} : W.decodeGraph bs = .ok g ↔ W.graphOf bs = some g := by
  unfold Interpretation.decodeGraph
  cases W.graphOf bs with
  | none => simp
  | some g' => simp

theorem decodeBool_eq_ok {bs : Bytes} {b : Bool} :
    W.decodeBool bs = .ok b ↔ W.shouldContinue bs = some b := by
  unfold Interpretation.decodeBool
  cases W.shouldContinue bs with
  | none => simp
  | some b' => simp

theorem Storage.readOutput_eq_ok {loc : Loc} {port : PortID} {bs : Bytes} :
    s.readOutput loc port = .ok bs ↔ s.outputs.get? (loc, port) = some bs := by
  unfold Storage.readOutput
  cases s.outputs.get? (loc, port) with
  | none => simp
  | some bs' => simp

theorem walkLoop_ok {loop : NodeDef V} {port : PortID}
    (h : walkLoop W walk parent idx loop port s = .ok (r, s')) :
    (s.isNodeFinished (parent.N idx) = true ∧ r = {} ∧ s' = s) ∨
      s.isNodeFinished (parent.N idx) = false ∧ ∃ bs body out outputNode,
        s.outputs.get? ((parent.N idx).N (-1), "body") = some bs ∧ W.graphOf bs = some body ∧
          body.outputIdx = .ok out ∧ body.nodeAt out = .ok outputNode ∧
        let latest := s.latestLoopIteration (parent.N idx)
        (s.isNodeFinished ((parent.N idx).L latest) = false ∧
            walk ((parent.N idx).L latest) out body s = .ok (r, s')) ∨
          (s.isNodeFinished ((parent.N idx).L latest) = true ∧
            ∃ c, s.outputs.get? ((parent.N idx).L latest, port) = some c ∧
              ((W.shouldContinue c = some true ∧ s' = s ∧ r = { inputsReady := [{
                  nodeLocation := (parent.N idx).L (latest + 1 : Nat)
                  node := iterationDef loop outputNode.inputs
                  outputList := portsOf outputNode.inputs }] }) ∨
                (W.shouldContinue c = some false ∧ r = {} ∧
                  s' = ((portsOf outputNode.inputs).foldl (fun s k => s.linkOutputs (parent.N idx) k
                    ((parent.N idx).L latest) k) s).markNodeFinished (parent.N idx)))) := by
  unfold walkLoop at h
  rw [get_bind] at h
  cases hf : s.isNodeFinished (parent.N idx) with
  | true =>
    rw [hf, if_pos rfl] at h
    obtain ⟨rfl, rfl⟩ := pure_eq_ok.1 h
    exact .inl ⟨rfl, rfl, rfl⟩
  | false =>
    rw [hf, if_neg (by decide), get_bind, get_bind] at h
    obtain ⟨bs, hbs, h⟩ := lift_bind_eq_ok.1 h
    obtain ⟨body, hbody, h⟩ := lift_bind_eq_ok.1 h
    obtain ⟨out, hout, h⟩ := lift_bind_eq_ok.1 h
    obtain ⟨outputNode, hnode, h⟩ := lift_bind_eq_ok.1 h
    refine .inr ⟨rfl, bs, body, out, outputNode, Storage.readOutput_eq_ok.1 hbs,
      decodeGraph_eq_ok.1 hbody,
      hout, hnode, ?_⟩
    rw [get_bind] at h
    cases hl : s.isNodeFinished ((parent.N idx).L (s.latestLoopIteration (parent.N idx))) with
    | false =>
      rw [hl, Bool.not_false, if_pos rfl] at h
      exact .inl ⟨hl, h⟩
    | true =>
      rw [hl, Bool.not_true, if_neg (by decide), get_bind] at h
      obtain ⟨c, hc, h⟩ := lift_bind_eq_ok.1 h
      obtain ⟨b, hb, h⟩ := lift_bind_eq_ok.1 h
      refine .inr ⟨hl, c, Storage.readOutput_eq_ok.1 hc, ?_⟩
      cases b with
      | true =>
        obtain ⟨rfl, rfl⟩ := pure_eq_ok.1 h
        exact .inl ⟨decodeBool_eq_ok.1 hb, rfl, rfl⟩
      | false =>
        rw [if_neg (by decide), modify_bind, modify_bind] at h
        obtain ⟨rfl, rfl⟩ := pure_eq_ok.1 h
        exact .inr ⟨decodeBool_eq_ok.1 hb, rfl, rfl⟩

theorem walkMap_ok {node : NodeDef V} (h : walkMap W.decodeGraph walk parent idx node s = .ok (r, s')) :
    (s.isNodeFinished (parent.N idx) = true ∧ r = {} ∧ s' = s) ∨
      s.isNodeFinished (parent.N idx) = false ∧ ∃ ref elements bs body,
        firstRef node.inputs = .ok ref ∧
        outputsIter s (parent.N ref.1) = .ok elements ∧
        s.outputs.get? (((parent.N idx).M 0).N (-1), "body") = some bs ∧ W.graphOf bs = some body ∧
        let unfinished := (elements.map Prod.fst).filter
          fun i => !s.isNodeFinished ((parent.N idx).M i)
        (unfinished ≠ [] ∧ walkElements walk (parent.N idx) body unfinished {} s = .ok (r, s')) ∨
          (unfinished = [] ∧ r = {} ∧ ∃ out outputNode, body.outputIdx = .ok out ∧
            body.nodeAt out = .ok outputNode ∧
            s' = (linkElements (parent.N idx) (portsOf outputNode.inputs) elements
              s).markNodeFinished (parent.N idx)) := by
  unfold walkMap at h
  rw [get_bind] at h
  cases hf : s.isNodeFinished (parent.N idx) with
  | true =>
    rw [hf, if_pos rfl] at h
    obtain ⟨rfl, rfl⟩ := pure_eq_ok.1 h
    exact .inl ⟨rfl, rfl, rfl⟩
  | false =>
    rw [hf, if_neg (by decide)] at h
    obtain ⟨ref, href, h⟩ := lift_bind_eq_ok.1 h
    rw [get_bind] at h
    obtain ⟨elements, helements, h⟩ := lift_bind_eq_ok.1 h
    rw [get_bind, get_bind] at h
    obtain ⟨bs, hbs, h⟩ := lift_bind_eq_ok.1 h
    obtain ⟨body, hbody, h⟩ := lift_bind_eq_ok.1 h
    refine .inr ⟨rfl, ref, elements, bs, body, href, helements, Storage.readOutput_eq_ok.1 hbs,
      decodeGraph_eq_ok.1 hbody, ?_⟩
    dsimp only at h ⊢
    generalize (elements.map Prod.fst).filter _ = unfinished at h ⊢
    obtain ⟨result, t, hwalk, hrest⟩ := bind_eq_ok.1 h
    clear h
    cases unfinished with
    | cons i unfinished =>
      rw [List.isEmpty_cons, if_neg (by decide)] at hrest
      obtain ⟨rfl, rfl⟩ := pure_eq_ok.1 hrest
      exact .inl ⟨List.cons_ne_nil _ _, hwalk⟩
    | nil =>
      obtain ⟨rfl, rfl⟩ := pure_eq_ok.1 hwalk
      rw [List.isEmpty_nil, if_pos rfl] at hrest
      obtain ⟨out, hout, hrest⟩ := lift_bind_eq_ok.1 hrest
      obtain ⟨outputNode, hnode, hrest⟩ := lift_bind_eq_ok.1 hrest
      rw [modify_bind, modify_bind] at hrest
      obtain ⟨rfl, rfl⟩ := pure_eq_ok.1 hrest
      exact .inr ⟨rfl, rfl, out, outputNode, hout, hnode, rfl⟩

theorem walkIfelse_ok {pred ifTrue ifFalse : ValueRef}
    (h : walkIfelse walk parent idx g pred ifTrue ifFalse s = .ok (r, s')) :
    ∃ p, s.outputs.get? (parent.N pred.1, pred.2) = some p ∧
      let next := selected p ifTrue ifFalse
      (s.isNodeFinished (parent.N next.1) = true ∧ r = {} ∧
          s' = (s.linkOutputs (parent.N idx) "value" (parent.N next.1) next.2).markNodeFinished
            (parent.N idx)) ∨
        (s.isNodeFinished (parent.N next.1) = false ∧ walk parent next.1 g s = .ok (r, s')) := by
  unfold walkIfelse at h
  rw [get_bind] at h
  obtain ⟨p, hp, h⟩ := lift_bind_eq_ok.1 h
  refine ⟨p, Storage.readOutput_eq_ok.1 hp, ?_⟩
  rw [get_bind] at h
  cases hf : s.isNodeFinished (parent.N (selected p ifTrue ifFalse).1) with
  | true =>
    rw [hf, if_pos rfl, modify_bind, modify_bind] at h
    obtain ⟨rfl, rfl⟩ := pure_eq_ok.1 h
    exact .inl ⟨hf, rfl, rfl⟩
  | false =>
    rw [hf, if_neg (by decide)] at h
    exact .inr ⟨hf, h⟩

theorem walkEifelse_ok {pred ifTrue ifFalse : ValueRef}
    (h : walkEifelse parent idx pred ifTrue ifFalse s = .ok (r, s')) :
    ∃ p, s.outputs.get? (parent.N pred.1, pred.2) = some p ∧ r = {} ∧
      let next := selected p ifTrue ifFalse
      s' = (s.linkOutputs (parent.N idx) "value" (parent.N next.1) next.2).markNodeFinished
        (parent.N idx) := by
  unfold walkEifelse at h
  rw [get_bind] at h
  obtain ⟨p, hp, h⟩ := lift_bind_eq_ok.1 h
  rw [modify_bind, modify_bind] at h
  obtain ⟨rfl, rfl⟩ := pure_eq_ok.1 h
  exact ⟨p, Storage.readOutput_eq_ok.1 hp, rfl, rfl⟩

/-- A node has failed, or waits for its inputs, or is ready, or is looked into. -/
theorem walkNode_ok {hasError : Loc → Bool} {depth : Nat}
    (h : walkNode W hasError (depth + 1) parent idx g s = .ok (r, s')) :
    (hasError (parent.N idx) = true ∧ r = { errored := [parent.N idx] } ∧ s' = s) ∨
      (hasError (parent.N idx) = false ∧ ∃ node, g.nodeAt idx = .ok node ∧
        ((s.unfinishedInputs parent node ≠ [] ∧ walkInputs (walkNode W hasError depth) parent g
            (s.unfinishedInputs parent node) {} s = .ok (r, s')) ∨
          (s.unfinishedInputs parent node = [] ∧ s.isNodeStarted (parent.N idx) = false ∧ s' = s ∧
            ∃ breakpoints, r =
              { inputsReady := [runData (parent.N idx) node], breakpoints := breakpoints }) ∨
          (s.unfinishedInputs parent node = [] ∧ s.isNodeStarted (parent.N idx) = true ∧
            walkStarted W (walkNode W hasError depth) parent idx g node s = .ok (r, s')))) := by
  rw [walkNode] at h
  dsimp only at h
  cases he : hasError (parent.N idx) with
  | true =>
    rw [he, if_pos rfl] at h
    obtain ⟨rfl, rfl⟩ := pure_eq_ok.1 h
    exact .inl ⟨rfl, rfl, rfl⟩
  | false =>
    rw [he, if_neg (by decide)] at h
    obtain ⟨node, hnode, h⟩ := lift_bind_eq_ok.1 h
    refine .inr ⟨rfl, node, hnode, ?_⟩
    rw [get_bind] at h
    generalize s.unfinishedInputs parent node = unfinished at h ⊢
    obtain ⟨result, t, hwalk, hrest⟩ := bind_eq_ok.1 h
    clear h
    cases unfinished with
    | cons x unfinished =>
      rw [List.isEmpty_cons, Bool.not_false, if_pos rfl] at hrest
      obtain ⟨rfl, rfl⟩ := pure_eq_ok.1 hrest
      exact .inl ⟨List.cons_ne_nil _ _, hwalk⟩
    | nil =>
      obtain ⟨rfl, rfl⟩ := pure_eq_ok.1 hwalk
      rw [List.isEmpty_nil, Bool.not_true, if_neg (by decide), get_bind] at hrest
      cases hs : t.isNodeStarted (parent.N idx) with
      | false =>
        rw [hs, Bool.not_false, if_pos rfl] at hrest
        obtain ⟨rfl, rfl⟩ := pure_eq_ok.1 hrest
        exact .inr (.inl ⟨rfl, rfl, rfl, _, rfl⟩)
      | true =>
        rw [hs, Bool.not_true, if_neg (by decide)] at hrest
        exact .inr (.inr ⟨rfl, rfl, hrest⟩)

end Inversion

end Tierkreis.Controller
