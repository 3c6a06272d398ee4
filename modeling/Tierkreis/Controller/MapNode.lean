import Tierkreis.Controller.Storage
import Tierkreis.Lib.Decimal
import Tierkreis.Lib.PyInt

/-!
# Map nodes of the Python controller

`start` begins a map node by linking the inputs of all of its elements;
`walkMap` looks after the elements that are not finished, and collects the
outputs of all once they are.
-/

namespace Tierkreis.Controller

open Lib

variable {V : Type}

/-! ## Elements -/

/-- `int(text)`, for the ASCII texts and without a limit on the digits. -/
def pyInt (cs : List Char) : Except PyError Int :=
  match PyInt.int (.ascii 0) (cs.map Char.toNat) with
  | some n => .ok n
  | none => .error .valueError

/-- What stands behind the last dash of a port: `x.split("-")[-1]`. -/
def lastPart (port : PortID) : List Char := (port.toList.splitOn '-').getLastD []

/-- The elements that the outputs of a node are, with their indices. -/
def outputsIter (s : Storage V) (loc : Loc) : Except PyError (List (Int × PortID)) :=
  (s.readOutputPorts loc).mapM fun x => do
    let i ← pyInt (lastPart x)
    pure (i, x)

/-- The first input that is mapped over. -/
def firstRef (inputs : HashMap PortID ValueRef) : Except PyError ValueRef :=
  match inputs.toList.find? fun e => e.2.2 = "*" with
  | some e => .ok e.2
  | none => .error .stopIteration

/-! ## Start -/

/-- The inputs of the element at port `p`. -/
def evalInputs (parent : Loc) (body : ValueRef) (inputs : HashMap PortID ValueRef) (p : PortID) :
    HashMap PortID (Loc × PortID) :=
  inputs.toList.foldl
    (fun ins e => ins.insert e.1 (parent.N e.2.1, if e.2.2 = "*" then p else e.2.2))
    (HashMap.ofList [("body", (parent.N body.1, body.2))])

/-- The virtual eval of an element, as the visualisation reads it. -/
def elementDef (node : NodeDef V) : NodeDef V :=
  { kind := .eval (-1, "body"), inputs := node.inputs, outputs := node.outputs }

def startElement (parent loc : Loc) (body : ValueRef) (node : NodeDef V) (s : Storage V)
    (e : Int × PortID) : Storage V :=
  (s.pipeInputs ((loc.M e.1).N (-1)) (evalInputs parent body node.inputs e.2)).writeNodeDef
    (loc.M e.1) (elementDef node)

/-- `start`, for a map node with the given body. -/
def startMap (loc : Loc) (body : ValueRef) (node : NodeDef V) : Ctl V Unit := do
  modify fun s => s.writeNodeDef loc node
  match loc.parent with
  | .error _ => throw (.tierkreis "Malformed Loc")
  | .ok none => throw (.tierkreis "map node must have parent Loc.")
  | .ok (some parent) => do
    let ref ← firstRef node.inputs
    let elements ← outputsIter (← get) (parent.N ref.1)
    if elements.isEmpty then modify fun s => s.markNodeFinished loc
    modify fun s => elements.foldl (startElement parent loc body node) s

/-! ## Walk -/

structure NodeRunData (V : Type) where
  nodeLocation : Loc
  node : NodeDef V
  outputList : List PortID

structure WalkResult (V : Type) where
  inputsReady : List (NodeRunData V) := []
  started : List Loc := []
  errored : List Loc := []
  breakpoints : List Loc := []

def WalkResult.extend (result walkResult : WalkResult V) : WalkResult V where
  inputsReady := result.inputsReady ++ walkResult.inputsReady
  started := result.started ++ walkResult.started
  errored := result.errored ++ walkResult.errored
  breakpoints := result.breakpoints ++ walkResult.breakpoints

/-- `graph.nodes[idx]`. -/
def GraphData.nodeAt (g : GraphData V) (idx : Int) : Except PyError (NodeDef V) :=
  match (pyIndex g.nodes.length idx).bind fun k => g.nodes[k]? with
  | some node => .ok node
  | none => .error .indexError

def GraphData.outputIdx (g : GraphData V) : Except PyError Int :=
  match g.graphOutputIdx with
  | none => .error (.tierkreis "Graph has no output index.")
  | some idx => do
    let node ← g.nodeAt idx
    if node.kind.isOutput then pure idx else .error (.notOutput idx)

section

variable (decodeGraph : Bytes → Except PyError (GraphData V))
  (walkNode : Loc → Int → GraphData V → Ctl V (WalkResult V))

/-- Walk the elements one after the other, and put the results together. -/
def walkElements (loc : Loc) (g : GraphData V) :
    List Int → WalkResult V → Ctl V (WalkResult V)
  | [], result => pure result
  | p :: unfinished, result => do
    let idx ← g.outputIdx
    let r ← walkNode (loc.M p) idx g
    walkElements loc g unfinished (result.extend r)

/-- `f"{output}-{j}"`. -/
def outputPort (output j : PortID) : PortID := output ++ "-" ++ j

/-- The outputs of the elements, each under the port of its element. -/
def linkElements (loc : Loc) (outputs : List PortID) (elements : List (Int × PortID))
    (s : Storage V) : Storage V :=
  elements.foldl (fun s e => outputs.foldl
    (fun s output => s.linkOutputs loc (outputPort output e.2) (loc.M e.1) output) s) s

/-- `walk_map`, where `walkNode` walks the nodes of an element. -/
def walkMap (parent : Loc) (idx : Int) (node : NodeDef V) : Ctl V (WalkResult V) := do
  let loc := parent.N idx
  if (← get).isNodeFinished loc then return {}
  else
    let ref ← firstRef node.inputs
    let elements ← outputsIter (← get) (parent.N ref.1)
    let finished := (← get).isNodeFinished
    let unfinished := (elements.map Prod.fst).filter fun i => !finished (loc.M i)
    let g ← decodeGraph (← (← get).readOutput ((loc.M 0).N (-1)) "body")
    let result ← walkElements walkNode loc g unfinished {}
    if unfinished.isEmpty then
      let outputNode ← g.nodeAt (← g.outputIdx)
      modify (linkElements loc (outputNode.inputs.toList.map Prod.fst) elements)
      modify fun s => s.markNodeFinished loc
      return result
    else return result

end

/-! ## Element ports -/

theorem linkElements_eq (s : Storage V) (loc : Loc) (outputs : List PortID)
    (elements : List (Int × PortID)) : linkElements loc outputs elements s =
      s.pipe loc (elements.flatMap fun e => outputs.map fun output =>
        (outputPort output e.2, loc.M e.1, output)) := by
  rw [Storage.pipe, linkElements, List.foldl_flatMap]
  simp only [List.foldl_map]

theorem lastPart_toString (e : Nat) : lastPart (toString e) = (toString e).toList := by
  unfold lastPart
  rw [List.splitOn_eq_splitOnP, List.splitOnP_eq_singleton]
  · rfl
  · intro c hc
    rw [beq_eq_false_iff_ne]
    exact fun heq => absurd (Decimal.isDigit_of_mem_repr hc) (heq ▸ by decide)

/-- The digits of a number are read back. -/
theorem pyInt_toString (e : Nat) : pyInt (lastPart (toString e)) = .ok e := by
  have hstr : PyInt.str (.ascii 0) e = some ((toString e).toList.map Char.toNat) := by
    change some ((if (e : Int) < 0 then [45] else []) ++ PyInt.digits e) = _
    rw [if_neg (Int.not_lt.2 (Int.natCast_nonneg e)), List.nil_append]
    change _ = some (e.repr.toList.map Char.toNat)
    rw [Nat.toList_repr]
    rfl
  rw [lastPart_toString, pyInt, PyInt.int_str hstr]

/-- The ports of an unfolded list are the numbers of its elements. -/
theorem outputsIter_unfolded {s : Storage V} {loc : Loc} {n : Nat}
    (h : ∀ p, p ∈ s.readOutputPorts loc ↔ ∃ e < n, p = toString e) :
    ∃ elements, outputsIter s loc = .ok elements ∧ (elements.map Prod.fst).Nodup ∧
      ∀ x, x ∈ elements ↔ ∃ e < n, x = ((e : Int), toString e) := by
  let number : PortID → Int := fun p => (pyInt (lastPart p)).toOption.getD 0
  have hnumber : ∀ e : Nat, number (toString e) = e := fun e => by
    show (pyInt (lastPart (toString e))).toOption.getD 0 = e
    rw [pyInt_toString]
    rfl
  have hmem : ∀ x : Int × PortID, x ∈ ((s.readOutputPorts loc).map fun p => (number p, p)) ↔
      ∃ e < n, x = ((e : Int), toString e) := by
    intro x
    rw [List.mem_map]
    constructor
    · rintro ⟨p, hp, rfl⟩
      obtain ⟨e, he, rfl⟩ := (h p).1 hp
      exact ⟨e, he, by rw [hnumber]⟩
    · rintro ⟨e, he, rfl⟩
      exact ⟨toString e, (h _).2 ⟨e, he, rfl⟩, by rw [hnumber]⟩
  refine ⟨(s.readOutputPorts loc).map fun p => (number p, p), ?_, ?_, hmem⟩
  · have hall : ∀ l : List PortID, (∀ p ∈ l, ∃ e : Nat, p = toString e) →
        (l.mapM fun p => do
          let i ← pyInt (lastPart p)
          pure (i, p)) = .ok (l.map fun p => (number p, p)) := by
      intro l
      induction l with
      | nil => exact fun _ => rfl
      | cons p l ih =>
        intro hl
        obtain ⟨e, rfl⟩ := hl p (.head _)
        rw [List.mapM_cons, ih fun q hq => hl q (.tail _ hq), pyInt_toString, List.map_cons, hnumber]
        rfl
    exact hall _ fun p hp => ((h p).1 hp).imp fun e he => he.2
  · refine List.Nodup.map_on ?_ ?_
    · intro x hx y hy hxy
      obtain ⟨e, -, rfl⟩ := (hmem x).1 hx
      obtain ⟨e', -, rfl⟩ := (hmem y).1 hy
      have he : (e : Int) = e' := hxy
      rw [Int.ofNat.inj he]
    · refine List.Nodup.map ?_ (s.nodup_readOutputPorts loc)
      exact fun p q hpq => congrArg Prod.snd hpq

/-! ## Start -/

/-- What the element of a mapped port stands under. -/
def elementPort (port p : PortID) : PortID := if port = "*" then p else port

theorem get?_evalInputs (parent : Loc) (body : ValueRef) (inputs : HashMap PortID ValueRef)
    (p : PortID) (k : PortID) :
    (evalInputs parent body inputs p).get? k =
      match inputs.get? k with
      | some ref => some (parent.N ref.1, elementPort ref.2 p)
      | none => if k = "body" then some (parent.N body.1, body.2) else none := by
  unfold evalInputs
  have hfold := HashMap.get?_foldl_insert (HashMap.ofList [("body", (parent.N body.1, body.2))])
    inputs (fun ref => (parent.N ref.1, elementPort ref.2 p)) k
  refine hfold.trans ?_
  cases inputs.get? k with
  | some ref => rfl
  | none =>
    show (HashMap.insert ∅ "body" (parent.N body.1, body.2)).get? k = _
    rw [HashMap.get?_insert, HashMap.get?_empty]

theorem evalInputs_source {parent : Loc} {body : ValueRef} {inputs : HashMap PortID ValueRef}
    {p : PortID} {e : PortID × Loc × PortID} (h : e ∈ (evalInputs parent body inputs p).toList) :
    ∃ i, e.2.1 = parent.N i := by
  have hget := HashMap.get?_eq_some_iff.2 (show (e.1, e.2) ∈ _ from h)
  rw [get?_evalInputs] at hget
  split at hget
  · rename_i ref _
    exact ⟨ref.1, congrArg Prod.fst (Option.some.inj hget).symm⟩
  · split at hget
    · exact ⟨body.1, congrArg Prod.fst (Option.some.inj hget).symm⟩
    · cases hget

section

variable {parent : Loc} {idx : Int} {body : ValueRef} {node : NodeDef V}

/-- One element is fed from the state before it; nothing else changes. -/
theorem startElement_spec (s : Storage V) (e : Int × PortID) :
    let loc := parent.N idx
    let s' := startElement parent loc body node s e
    (∀ k src, (evalInputs parent body node.inputs e.2).get? k = some src →
      s'.outputs.get? ((loc.M e.1).N (-1), k) =
        (s.outputs.get? src).or (s.outputs.get? ((loc.M e.1).N (-1), k))) ∧
      (∀ k : Loc × PortID, k.1 ≠ (loc.M e.1).N (-1) → s'.outputs.get? k = s.outputs.get? k) ∧
      (∀ l, s'.nodeDefs.get? l =
        if l = loc.M e.1 then some (elementDef node) else s.nodeDefs.get? l) ∧
      s'.finished = s.finished := by
  intro loc s'
  have hsource : ∀ x ∈ (evalInputs parent body node.inputs e.2).toList,
      x.2.1 ≠ (loc.M e.1).N (-1) := by
    intro x hx
    obtain ⟨i, hi⟩ := evalInputs_source hx
    rw [hi]
    exact Loc.N_ne_input parent i idx e.1
  obtain ⟨hin, hout, hdefs, hfin⟩ := s.get?_pipeInputs hsource
  refine ⟨hin, hout, fun l => ?_, hfin⟩
  show ((s.pipeInputs _ _).nodeDefs.insert _ _).get? l = _
  rw [HashMap.get?_insert, hdefs]

/-- All elements are fed from the state before the first. -/
theorem startElements_spec : ∀ {elements : List (Int × PortID)} (s : Storage V),
    (elements.map Prod.fst).Nodup →
      let loc := parent.N idx
      let s' := elements.foldl (startElement parent loc body node) s
      (∀ e ∈ elements, ∀ k src, (evalInputs parent body node.inputs e.2).get? k = some src →
        s'.outputs.get? ((loc.M e.1).N (-1), k) =
          (s.outputs.get? src).or (s.outputs.get? ((loc.M e.1).N (-1), k))) ∧
        (∀ k : Loc × PortID, (∀ e ∈ elements, k.1 ≠ (loc.M e.1).N (-1)) →
          s'.outputs.get? k = s.outputs.get? k) ∧
        (∀ l, s'.nodeDefs.get? l = if ∃ e ∈ elements, l = loc.M e.1 then some (elementDef node)
          else s.nodeDefs.get? l) ∧
        s'.finished = s.finished
  | [], s, _ => by simp
  | e :: elements, s, hnodup => by
    intro loc s'
    rw [List.map_cons, List.nodup_cons] at hnodup
    obtain ⟨hin, hout, hdefs, hfin⟩ := @startElement_spec V parent idx body node s e
    obtain ⟨hins, houts, hdefss, hfins⟩ :=
      startElements_spec (startElement parent loc body node s e) hnodup.2
    have hne : ∀ e' ∈ elements, (loc.M e'.1).N (-1) ≠ (loc.M e.1).N (-1) := fun e' he' heq =>
      hnodup.1 (Loc.M_N_inj heq ▸ List.mem_map_of_mem he')
    refine ⟨?_, ?_, ?_, hfins.trans hfin⟩
    · intro e' he' k src hsrc
      rcases List.mem_cons.1 he' with rfl | he'
      · rw [← hin k src hsrc]
        exact houts _ fun e'' he'' => (hne e'' he'').symm
      · obtain ⟨i, hi⟩ := evalInputs_source (HashMap.get?_eq_some_iff.1 hsrc)
        have hsrc' : src.1 ≠ (loc.M e.1).N (-1) := fun heq =>
          Loc.N_ne_input parent i idx e.1 (hi.symm.trans heq)
        rw [← hout src hsrc', ← hout ((loc.M e'.1).N (-1), k) (hne e' he')]
        exact hins e' he' k src hsrc
    · intro k hk
      rw [← hout k (hk e (.head _))]
      exact houts k fun e' he' => hk e' (.tail _ he')
    · intro l
      refine (hdefss l).trans ?_
      rw [hdefs l]
      by_cases hl : ∃ e' ∈ elements, l = loc.M e'.1
      · rw [if_pos hl, if_pos (hl.imp fun e' h => ⟨.tail _ h.1, h.2⟩)]
      · rw [if_neg hl]
        by_cases he : l = loc.M e.1
        · rw [if_pos he, if_pos ⟨e, .head _, he⟩]
        · rw [if_neg he, if_neg]
          rintro ⟨e', he', hle⟩
          rcases List.mem_cons.1 he' with rfl | he'
          · exact he hle
          · exact hl ⟨e', he', hle⟩

end

end Tierkreis.Controller
