import Tierkreis.Controller.Walk

/-!
# Starting nodes in the Python controller

`start` marks a node as started by its definition. A function is handed to an
executor; what only moves values is done at once; and the graph of an eval, a
loop or a map gets its inputs, so that the next walk looks into it.
-/

namespace Tierkreis.Controller

open Lib

variable {V : Type}

/-- What the executor of a function is given: the values are passed by location. -/
structure Call where
  loc : Loc
  launcher : String
  function : String
  inputs : HashMap PortID (Loc × PortID)
  outputList : List PortID

/-- Where the inputs of a node of the graph at `parent` are. -/
def inputLocs (parent : Loc) (inputs : HashMap PortID ValueRef) : HashMap PortID (Loc × PortID) :=
  inputs.filterMap fun _ ref => some (parent.N ref.1, ref.2)

def Storage.writeOutput (s : Storage V) (loc : Loc) (port : PortID) (bs : Bytes) : Storage V :=
  { s with outputs := s.outputs.insert (loc, port) bs }

/-- `bytes_from_ptype(value)`. -/
def Interpretation.encode (W : Interpretation V) (v : V) : Except PyError Bytes :=
  match W.toBytes v with
  | some bs => .ok bs
  | none => .error (.decode "PType")

/-- The name of the node in the texts of errors. -/
def NodeKind.type : NodeKind V → String
  | .function _ => "function"
  | .eval _ => "eval"
  | .loop _ _ _ => "loop"
  | .map _ => "map"
  | .const _ => "const"
  | .ifelse _ _ _ => "ifelse"
  | .eifelse _ _ _ => "eifelse"
  | .input _ => "input"
  | .output => "output"

/-- The eval node that stands for the first iteration of a loop. -/
def firstIteration (loc : Loc) (loop : NodeDef V) (ins : HashMap PortID (Loc × PortID))
    (outputList : List PortID) : NodeRunData V where
  nodeLocation := loc.L 0
  node := {
    kind := .eval (-1, "body")
    inputs := ins.filterMap fun k _ => some (-1, k)
    outputs := loop.outputs }
  outputList := outputList

section

variable (W : Interpretation V)

/-- `start`, where `start` begins the first iteration of a loop. -/
def startWith (start : NodeRunData V → Ctl V (List Call)) (data : NodeRunData V) :
    Ctl V (List Call) := do
  let loc := data.nodeLocation
  let node := data.node
  modify fun s => s.writeNodeDef loc node
  match loc.parent with
  | .error _ => throw (.tierkreis "Malformed Loc")
  | .ok none => throw (.tierkreis (node.kind.type ++ " node must have parent Loc."))
  | .ok (some parent) =>
    let ins := inputLocs parent node.inputs
    match node.kind with
    | .function name =>
      return [{
        loc
        launcher := launcherName name
        function := taskName name
        inputs := ins
        outputList := data.outputList }]
    | .input name =>
      modify fun s => s.linkOutputs loc name (parent.N (-1)) name
      modify fun s => s.markNodeFinished loc
      return []
    | .output =>
      modify fun s => s.markNodeFinished loc
      modify fun s => s.pipeInputs parent ins
      modify fun s => s.markNodeFinished parent
      return []
    | .const value =>
      let bs ← W.encode value
      modify fun s => s.writeOutput loc "value" bs
      modify fun s => s.markNodeFinished loc
      return []
    | .eval graph =>
      let _ ← W.decodeGraph (← (← get).readOutput (parent.N graph.1) graph.2)
      modify fun s => s.pipeInputs (loc.N (-1)) (ins.insert "body" (parent.N graph.1, graph.2))
      return []
    | .loop body _ _ =>
      let ins := ins.insert "body" (parent.N body.1, body.2)
      modify fun s => s.pipeInputs (loc.N (-1)) ins
      start (firstIteration loc node ins data.outputList)
    | .map body =>
      startMap loc body node
      return []
    | .ifelse _ _ _ | .eifelse _ _ _ => return []

/-- The first iteration of a loop is an eval node, which starts nothing else. -/
def start : NodeRunData V → Ctl V (List Call) :=
  startWith W (startWith W fun _ => throw recursionError)

end

/-! ## Writes -/

/-- One write to the storage. -/
inductive Write (V : Type)
  | nodeDef (loc : Loc) (node : NodeDef V)
  | link (newLoc : Loc) (newPort : PortID) (oldLoc : Loc) (oldPort : PortID)
  | output (loc : Loc) (port : PortID) (bs : Bytes)
  | finished (loc : Loc)

namespace Storage

def apply (s : Storage V) : Write V → Storage V
  | .nodeDef loc node => s.writeNodeDef loc node
  | .link newLoc newPort oldLoc oldPort => s.linkOutputs newLoc newPort oldLoc oldPort
  | .output loc port bs => s.writeOutput loc port bs
  | .finished loc => s.markNodeFinished loc

def writeAll (s : Storage V) (l : List (Write V)) : Storage V := l.foldl apply s

end Storage

def pipeWrites (outputLoc : Loc) (inputs : HashMap PortID (Loc × PortID)) : List (Write V) :=
  inputs.toList.map fun e => .link outputLoc e.1 e.2.1 e.2.2

def elementWrites (parent loc : Loc) (body : ValueRef) (node : NodeDef V) (e : Int × PortID) :
    List (Write V) :=
  pipeWrites ((loc.M e.1).N (-1)) (evalInputs parent body node.inputs e.2) ++
    [.nodeDef (loc.M e.1) (elementDef node)]

def mapWrites (s : Storage V) (parent loc : Loc) (body : ValueRef) (node : NodeDef V) :
    List (Write V) :=
  match do outputsIter s (parent.N (← firstRef node.inputs).1) with
  | .ok elements =>
    (if elements.isEmpty then [.finished loc] else []) ++
      elements.flatMap (elementWrites parent loc body node)
  | .error _ => []

section

variable (W : Interpretation V)

/-- The writes of a start, from the first to the last or to where it raises. -/
def startWritesWith (again : NodeRunData V → Storage V → List (Write V)) (data : NodeRunData V)
    (s : Storage V) : List (Write V) :=
  let loc := data.nodeLocation
  let node := data.node
  .nodeDef loc node ::
    match loc.parent with
    | .error _ | .ok none => []
    | .ok (some parent) =>
      let ins := inputLocs parent node.inputs
      match node.kind with
      | .function _ | .ifelse _ _ _ | .eifelse _ _ _ => []
      | .input name => [.link loc name (parent.N (-1)) name, .finished loc]
      | .output => .finished loc :: (pipeWrites parent ins ++ [.finished parent])
      | .const value =>
        match W.toBytes value with
        | some bs => [.output loc "value" bs, .finished loc]
        | none => []
      | .eval graph =>
        match (s.outputs.get? (parent.N graph.1, graph.2)).bind W.graphOf with
        | some _ => pipeWrites (loc.N (-1)) (ins.insert "body" (parent.N graph.1, graph.2))
        | none => []
      | .loop body _ _ =>
        let ins := ins.insert "body" (parent.N body.1, body.2)
        pipeWrites (loc.N (-1)) ins ++ again (firstIteration loc node ins data.outputList)
          ((s.writeNodeDef loc node).pipeInputs (loc.N (-1)) ins)
      | .map body => mapWrites s parent loc body node

def startWrites : NodeRunData V → Storage V → List (Write V) :=
  startWritesWith W (startWritesWith W fun _ _ => [])

end

/-- The nodes that `start_nodes` starts: the first for each location. -/
def distinctLocs : List (NodeRunData V) → List Loc → List (NodeRunData V)
  | [], _ => []
  | data :: rest, startedLocs =>
    if data.nodeLocation ∈ startedLocs then distinctLocs rest startedLocs
    else data :: distinctLocs rest (data.nodeLocation :: startedLocs)

/-- The inputs of a run, and the eval node that its graph is. -/
def runGraph (W : Interpretation V) (g : GraphData V) (graphInputs : PortValues) :
    Ctl V (List Call) := do
  modify fun s => graphInputs.toList.foldl (fun s e => s.writeOutput (Loc.empty.N (-1)) e.1 e.2) s
  let bs ← W.encode (W.ofGraph g)
  modify fun s => s.writeOutput (Loc.empty.N (-1)) "body" bs
  start W {
    nodeLocation := Loc.root
    node := {
      kind := .eval (-1, "body")
      inputs := (graphInputs.filterMap fun k _ => some (-1, k)).erase "body" }
    outputList := [] }

/-! ## What a start does -/

open Lib.StateExcept

section Outcome

variable (W : Interpretation V) (again : NodeRunData V → Ctl V (List Call))

/-- What a start does, by the kind of the node. -/
def StartOutcome (parent loc : Loc) (node : NodeDef V) (outputList : List PortID) (s : Storage V)
    (calls : List Call) (s' : Storage V) : Prop :=
  let ins := inputLocs parent node.inputs
  let s := s.writeNodeDef loc node
  match node.kind with
  | .function name => s' = s ∧ calls = [{
      loc, launcher := launcherName name, function := taskName name, inputs := ins, outputList }]
  | .input name =>
    s' = (s.linkOutputs loc name (parent.N (-1)) name).markNodeFinished loc ∧ calls = []
  | .output =>
    s' = ((s.markNodeFinished loc).pipeInputs parent ins).markNodeFinished parent ∧ calls = []
  | .const value => ∃ bs, W.toBytes value = some bs ∧
    s' = (s.writeOutput loc "value" bs).markNodeFinished loc ∧ calls = []
  | .eval graph => ∃ bs g, s.outputs.get? (parent.N graph.1, graph.2) = some bs ∧
    W.graphOf bs = some g ∧ s' = s.pipeInputs (loc.N (-1))
      (ins.insert "body" (parent.N graph.1, graph.2)) ∧ calls = []
  | .loop body _ _ =>
    let ins := ins.insert "body" (parent.N body.1, body.2)
    again (firstIteration loc node ins outputList) (s.pipeInputs (loc.N (-1)) ins) =
      .ok (calls, s')
  | .map body => startMap loc body node s = .ok ((), s') ∧ calls = []
  | .ifelse _ _ _ | .eifelse _ _ _ => s' = s ∧ calls = []

variable {W again}

theorem encode_eq_ok {v : V} {bs : Bytes} : W.encode v = .ok bs ↔ W.toBytes v = some bs := by
  unfold Interpretation.encode
  cases W.toBytes v with
  | none => simp
  | some bs' => simp

theorem startWith_ok {data : NodeRunData V} {s s' : Storage V} {calls : List Call} :
    startWith W again data s = .ok (calls, s') ↔
      ∃ parent, data.nodeLocation.parent = .ok (some parent) ∧
        StartOutcome W again parent data.nodeLocation data.node data.outputList s calls s' := by
  obtain ⟨loc, ⟨kind, inputs, outputs⟩, outputList⟩ := data
  unfold startWith StartOutcome
  dsimp only
  rw [modify_bind]
  cases hp : loc.parent with
  | error e =>
    refine ⟨fun h => absurd h throw_ne_ok, ?_⟩
    rintro ⟨_, h, -⟩
    cases h
  | ok parent? =>
    cases parent? with
    | none =>
      refine ⟨fun h => absurd h throw_ne_ok, ?_⟩
      rintro ⟨_, h, -⟩
      cases h
    | some parent =>
      have hsome : ∀ P : Loc → Prop,
          (∃ q, (Except.ok (some parent) : Except LocError (Option Loc)) = .ok (some q) ∧ P q) ↔
            P parent := by
        intro P
        constructor
        · rintro ⟨q, hq, h⟩
          cases hq
          exact h
        · exact fun h => ⟨parent, rfl, h⟩
      rw [hsome]
      cases kind with
      | function name => exact pure_eq_ok.trans and_comm
      | input name =>
        dsimp only
        rw [modify_bind, modify_bind]
        exact pure_eq_ok.trans and_comm
      | output =>
        dsimp only
        rw [modify_bind, modify_bind, modify_bind]
        exact pure_eq_ok.trans and_comm
      | const value =>
        refine lift_bind_eq_ok.trans (exists_congr fun bs => and_congr encode_eq_ok ?_)
        rw [modify_bind, modify_bind]
        exact pure_eq_ok.trans and_comm
      | eval graph =>
        dsimp only
        rw [get_bind]
        refine lift_bind_eq_ok.trans ?_
        constructor
        · rintro ⟨bs, hbs, h⟩
          obtain ⟨g, hg, h⟩ := lift_bind_eq_ok.1 h
          exact ⟨bs, g, Storage.readOutput_eq_ok.1 hbs, decodeGraph_eq_ok.1 hg,
            and_comm.1 (pure_eq_ok.1 h)⟩
        · rintro ⟨bs, g, hbs, hg, h⟩
          exact ⟨bs, Storage.readOutput_eq_ok.2 hbs,
            lift_bind_eq_ok.2 ⟨g, decodeGraph_eq_ok.2 hg, pure_eq_ok.2 (and_comm.1 h)⟩⟩
      | loop body port name => exact Iff.rfl
      | map body =>
        refine bind_eq_ok.trans ?_
        constructor
        · rintro ⟨u, t, h, hrest⟩
          obtain ⟨rfl, rfl⟩ := pure_eq_ok.1 hrest
          exact ⟨h, rfl⟩
        · rintro ⟨h, rfl⟩
          exact ⟨(), s', h, pure_eq_ok.2 ⟨rfl, rfl⟩⟩
      | ifelse pred ifTrue ifFalse => exact pure_eq_ok.trans and_comm
      | eifelse pred ifTrue ifFalse => exact pure_eq_ok.trans and_comm

end Outcome

/-! ## Writes of a whole start -/

namespace Storage

theorem writeAll_append (s : Storage V) (l l' : List (Write V)) :
    s.writeAll (l ++ l') = (s.writeAll l).writeAll l' := List.foldl_append

theorem writeAll_pipeWrites (s : Storage V) (loc : Loc) (inputs : HashMap PortID (Loc × PortID)) :
    s.writeAll (pipeWrites loc inputs) = s.pipeInputs loc inputs := by
  unfold writeAll pipeWrites pipeInputs
  rw [List.foldl_map]
  rfl

theorem writeAll_elements (parent loc : Loc) (body : ValueRef) (node : NodeDef V)
    (elements : List (Int × PortID)) : ∀ s : Storage V,
    s.writeAll (elements.flatMap (elementWrites parent loc body node)) =
      elements.foldl (startElement parent loc body node) s := by
  induction elements with
  | nil => exact fun _ => rfl
  | cons e elements ih =>
    intro s
    rw [List.flatMap_cons, writeAll_append, ih, elementWrites, writeAll_append,
      writeAll_pipeWrites]
    rfl

theorem writeNodeDef_writeNodeDef (s : Storage V) (loc : Loc) (node node' : NodeDef V) :
    (s.writeNodeDef loc node).writeNodeDef loc node' = s.writeNodeDef loc node' := by
  unfold writeNodeDef
  exact congrArg (fun defs => { s with nodeDefs := defs }) (AList.insert_insert ..)

end Storage

theorem startMap_writes {parent loc : Loc} {body : ValueRef} {node : NodeDef V}
    {s s' : Storage V} (hp : loc.parent = .ok (some parent))
    (h : startMap loc body node s = .ok ((), s')) :
    s' = (s.writeNodeDef loc node).writeAll (mapWrites s parent loc body node) := by
  unfold startMap at h
  rw [modify_bind, hp] at h
  obtain ⟨ref, href, h⟩ := lift_bind_eq_ok.1 h
  rw [get_bind] at h
  obtain ⟨elements, helements, h⟩ := lift_bind_eq_ok.1 h
  have hiter : (do outputsIter s (parent.N (← firstRef node.inputs).1)) = .ok elements := by
    rw [href]
    exact helements
  unfold mapWrites
  rw [hiter]
  dsimp only
  rw [Storage.writeAll_append, Storage.writeAll_elements]
  by_cases hempty : elements.isEmpty = true
  · rw [if_pos hempty, modify_bind] at h
    obtain ⟨-, rfl⟩ := Prod.mk.inj (Except.ok.inj h)
    rw [if_pos hempty]
    rfl
  · rw [if_neg hempty] at h
    obtain ⟨-, rfl⟩ := Prod.mk.inj (Except.ok.inj h)
    rw [if_neg hempty]
    rfl

section

variable {W : Interpretation V} {again : NodeRunData V → Ctl V (List Call)}
  {againWrites : NodeRunData V → Storage V → List (Write V)}

theorem startWith_writes (hagain : ∀ {data s s'} {calls : List Call},
      again data s = .ok (calls, s') → s' = s.writeAll (againWrites data s))
    {data : NodeRunData V} {s s' : Storage V} {calls : List Call}
    (h : startWith W again data s = .ok (calls, s')) :
    s' = s.writeAll (startWritesWith W againWrites data s) := by
  obtain ⟨parent, hp, h⟩ := startWith_ok.1 h
  obtain ⟨loc, ⟨kind, inputs, outputs⟩, outputList⟩ := data
  unfold StartOutcome at h
  unfold startWritesWith
  dsimp only at h hp ⊢
  rw [hp]
  change s' = (s.writeNodeDef loc ⟨kind, inputs, outputs⟩).writeAll _
  cases kind with
  | function name => exact h.1
  | input name => exact h.1
  | output =>
    rw [h.1]
    dsimp only
    rw [← List.singleton_append, Storage.writeAll_append, Storage.writeAll_append,
      Storage.writeAll_pipeWrites]
    rfl
  | const value =>
    obtain ⟨bs, hbs, rfl, -⟩ := h
    dsimp only
    rw [hbs]
    rfl
  | eval graph =>
    obtain ⟨bs, g, hbs, hg, rfl, -⟩ := h
    have hread : (s.outputs.get? (parent.N graph.1, graph.2)).bind W.graphOf = some g := by
      rw [show s.outputs.get? (parent.N graph.1, graph.2) = some bs from hbs]
      exact hg
    dsimp only
    rw [hread]
    exact (Storage.writeAll_pipeWrites _ _ _).symm
  | loop body port name =>
    dsimp only
    rw [Storage.writeAll_append, Storage.writeAll_pipeWrites]
    exact hagain h
  | map body =>
    rw [startMap_writes hp h.1, Storage.writeNodeDef_writeNodeDef]
    rfl
  | ifelse pred ifTrue ifFalse => exact h.1
  | eifelse pred ifTrue ifFalse => exact h.1

/-- A start that raises nothing leaves what all of its writes leave. -/
theorem start_writes {data : NodeRunData V} {s s' : Storage V} {calls : List Call}
    (h : start W data s = .ok (calls, s')) : s' = s.writeAll (startWrites W data s) :=
  startWith_writes (startWith_writes fun h => absurd h throw_ne_ok) h

end

/-! ## What a start leaves -/

namespace Storage

@[simp] theorem isNodeStarted_pipeInputs (s : Storage V) (loc : Loc)
    (inputs : HashMap PortID (Loc × PortID)) (l : Loc) :
    (s.pipeInputs loc inputs).isNodeStarted l = s.isNodeStarted l := by
  unfold isNodeStarted
  rw [nodeDefs_pipeInputs]

theorem isNodeStarted_writeNodeDef (s : Storage V) (loc : Loc) (node : NodeDef V) (l : Loc) :
    (s.writeNodeDef loc node).isNodeStarted l = (decide (l = loc) || s.isNodeStarted l) := by
  unfold isNodeStarted writeNodeDef
  rw [HashMap.get?_insert]
  by_cases h : l = loc <;> simp [h]

end Storage

namespace Loc

/-- The location of a node of a graph. -/
def IsNode (loc : Loc) : Prop := ∃ parent idx, loc = N parent idx

/-- No node of a graph is where the inputs of a graph are. -/
theorem N_natCast_ne {loc loc' : Loc} {i : Nat} : loc.N i ≠ loc'.N (-1) := by
  intro h
  have hi : (i : Int) = -1 := (N_eq_N h).2
  omega

theorem L_eq_L {loc loc' : Loc} {i j : Int} (h : loc.L i = loc'.L j) : loc = loc' ∧ i = j := by
  obtain ⟨hloc, hstep⟩ := append_eq_append h
  exact ⟨hloc, congrArg Step.idx hstep⟩

theorem M_eq_M {loc loc' : Loc} {i j : Int} (h : loc.M i = loc'.M j) : loc = loc' ∧ i = j := by
  obtain ⟨hloc, hstep⟩ := append_eq_append h
  exact ⟨hloc, congrArg Step.idx hstep⟩

theorem append_ne_root {loc : Loc} {s : Step} : loc.append s ≠ root := by
  intro h
  have hlen := congrArg (fun l : Loc => l.tail.length) h
  simp [length_append, root] at hlen

theorem not_isNode_L (loc : Loc) (i : Int) : ¬ (loc.L i).IsNode := by
  rintro ⟨parent, idx, h⟩
  cases (append_eq_append h).2

theorem not_isNode_M (loc : Loc) (i : Int) : ¬ (loc.M i).IsNode := by
  rintro ⟨parent, idx, h⟩
  cases (append_eq_append h).2

end Loc

/-- A start marks no other node of a graph as started, and nothing as unfinished. -/
structure Leaves (loc : Loc) (s s' : Storage V) : Prop where
  started : s'.isNodeStarted loc = true
  kept : ∀ l, s.isNodeStarted l = true → s'.isNodeStarted l = true
  nodes : ∀ l, l.IsNode → s'.isNodeStarted l = true → l = loc ∨ s.isNodeStarted l = true
  finished : s.finished ⊆ s'.finished

section Leaves

variable {loc : Loc} {s s' s'' : Storage V}

theorem Leaves.writeNodeDef (s : Storage V) (loc : Loc) (node : NodeDef V) :
    Leaves loc s (s.writeNodeDef loc node) := by
  refine ⟨?_, fun l hl => ?_, fun l _ hl => ?_, Finset.Subset.refl _⟩
  · simp [Storage.isNodeStarted_writeNodeDef]
  · simp [Storage.isNodeStarted_writeNodeDef, hl]
  · simpa [Storage.isNodeStarted_writeNodeDef] using hl

/-- What comes after the definition was written adds no definitions. -/
theorem Leaves.same (h : Leaves loc s s') (hdefs : s''.nodeDefs = s'.nodeDefs)
    (hfin : s'.finished ⊆ s''.finished) : Leaves loc s s'' := by
  have hstarted : ∀ l, s''.isNodeStarted l = s'.isNodeStarted l := fun l => by
    unfold Storage.isNodeStarted
    rw [hdefs]
  refine ⟨(hstarted loc).trans h.started, fun l hl => (hstarted l).trans (h.kept l hl),
    fun l hn hl => h.nodes l hn ((hstarted l).symm.trans hl), h.finished.trans hfin⟩

/-- What comes after adds definitions of iterations and elements only. -/
theorem Leaves.child {child : Loc} (h : Leaves loc s s') (hchild : ¬ child.IsNode)
    (h' : Leaves child s' s'') : Leaves loc s s'' := by
  refine ⟨h'.kept _ h.started, fun l hl => h'.kept l (h.kept l hl), fun l hn hl => ?_,
    h.finished.trans h'.finished⟩
  rcases h'.nodes l hn hl with rfl | hl
  · exact absurd hn hchild
  · exact h.nodes l hn hl

theorem Leaves.elements (parent : Loc) (body : ValueRef) (node : NodeDef V) :
    ∀ {elements : List (Int × PortID)} {s' : Storage V}, Leaves loc s s' →
      Leaves loc s (elements.foldl (startElement parent loc body node) s')
  | [], _, h => h
  | e :: elements, s', h => by
    rw [List.foldl_cons]
    refine Leaves.elements parent body node (h.child (Loc.not_isNode_M loc e.1) ?_)
    refine ⟨?_, fun l hl => ?_, fun l _ hl => ?_, ?_⟩
    · simp [startElement, Storage.isNodeStarted_writeNodeDef]
    · simp [startElement, Storage.isNodeStarted_writeNodeDef, hl]
    · simpa [startElement, Storage.isNodeStarted_writeNodeDef] using hl
    · show s'.finished ⊆ (s'.pipeInputs _ _).finished
      rw [Storage.finished_pipeInputs]

theorem startMap_leaves {body : ValueRef} {node : NodeDef V}
    (h : startMap loc body node s = .ok ((), s')) : Leaves loc s s' := by
  unfold startMap at h
  rw [modify_bind] at h
  have hdef := Leaves.writeNodeDef s loc node
  cases hp : loc.parent with
  | error e =>
    rw [hp] at h
    exact absurd h throw_ne_ok
  | ok parent? =>
    rw [hp] at h
    cases parent? with
    | none => exact absurd h throw_ne_ok
    | some parent =>
      obtain ⟨ref, -, h⟩ := lift_bind_eq_ok.1 h
      rw [get_bind] at h
      obtain ⟨elements, -, h⟩ := lift_bind_eq_ok.1 h
      by_cases hempty : elements.isEmpty = true
      · rw [if_pos hempty, modify_bind] at h
        obtain ⟨-, rfl⟩ := Prod.mk.inj (Except.ok.inj h)
        exact Leaves.elements parent body node (hdef.same rfl (Finset.subset_insert _ _))
      · rw [if_neg hempty] at h
        obtain ⟨-, rfl⟩ := Prod.mk.inj (Except.ok.inj h)
        exact Leaves.elements parent body node hdef

/-- Writes mark nothing as not started, and nothing as not finished. -/
theorem writeAll_kept (l : List (Write V)) : ∀ s : Storage V,
    (∀ loc, s.isNodeStarted loc = true → (s.writeAll l).isNodeStarted loc = true) ∧
      s.finished ⊆ (s.writeAll l).finished := by
  induction l with
  | nil => exact fun s => ⟨fun _ h => h, Finset.Subset.refl _⟩
  | cons w l ih =>
    intro s
    obtain ⟨hstarted, hfin⟩ := ih (s.apply w)
    have hone : (∀ loc, s.isNodeStarted loc = true → (s.apply w).isNodeStarted loc = true) ∧
        s.finished ⊆ (s.apply w).finished := by
      cases w with
      | nodeDef loc node => exact ⟨(Leaves.writeNodeDef s loc node).kept, Finset.Subset.refl _⟩
      | link newLoc newPort oldLoc oldPort =>
        refine ⟨fun loc h => ?_, ?_⟩
        · rw [Storage.isNodeStarted, Storage.apply, Storage.nodeDefs_linkOutputs]
          exact h
        · rw [Storage.apply, Storage.finished_linkOutputs]
      | output loc port bs => exact ⟨fun _ h => h, Finset.Subset.refl _⟩
      | finished loc => exact ⟨fun _ h => h, Finset.subset_insert _ _⟩
    exact ⟨fun loc h => hstarted loc (hone.1 loc h), hone.2.trans hfin⟩

section

variable {W : Interpretation V} {again : NodeRunData V → Ctl V (List Call)} {data : NodeRunData V}
  {calls : List Call}

theorem startWith_leaves
    (hagain : ∀ {data : NodeRunData V} {s s' : Storage V} {calls : List Call},
      again data s = .ok (calls, s') → data.node.kind.type = "eval" →
        Leaves data.nodeLocation s s' ∧ calls = [])
    (h : startWith W again data s = .ok (calls, s')) :
    Leaves data.nodeLocation s s' ∧
      (calls = [] ∨ ∃ name parent, data.node.kind = .function name ∧
        data.nodeLocation.parent = .ok (some parent) ∧
        calls = [{
          loc := data.nodeLocation
          launcher := launcherName name
          function := taskName name
          inputs := inputLocs parent data.node.inputs
          outputList := data.outputList }]) := by
  obtain ⟨parent, hp, h⟩ := startWith_ok.1 h
  obtain ⟨loc, ⟨kind, inputs, outputs⟩, outputList⟩ := data
  have hdef := Leaves.writeNodeDef s loc ⟨kind, inputs, outputs⟩
  unfold StartOutcome at h
  dsimp only at h ⊢
  cases kind with
  | function name =>
    obtain ⟨rfl, rfl⟩ := h
    exact ⟨hdef, .inr ⟨name, parent, rfl, hp, rfl⟩⟩
  | input name =>
    obtain ⟨rfl, rfl⟩ := h
    refine ⟨hdef.same (Storage.nodeDefs_linkOutputs _ _ _ _ _) ?_, .inl rfl⟩
    rw [Storage.markNodeFinished, Storage.finished_linkOutputs]
    exact Finset.subset_insert _ _
  | output =>
    obtain ⟨rfl, rfl⟩ := h
    refine ⟨hdef.same (Storage.nodeDefs_pipeInputs _ _ _) ?_, .inl rfl⟩
    rw [Storage.markNodeFinished, Storage.finished_pipeInputs]
    exact (Finset.subset_insert _ _).trans (Finset.subset_insert _ _)
  | const value =>
    obtain ⟨bs, -, rfl, rfl⟩ := h
    exact ⟨hdef.same rfl (Finset.subset_insert _ _), .inl rfl⟩
  | eval graph =>
    obtain ⟨bs, g, -, -, rfl, rfl⟩ := h
    refine ⟨hdef.same (Storage.nodeDefs_pipeInputs _ _ _) ?_, .inl rfl⟩
    rw [Storage.finished_pipeInputs]
  | loop body port name =>
    obtain ⟨hchild, rfl⟩ := hagain h rfl
    refine ⟨(hdef.same (Storage.nodeDefs_pipeInputs _ _ _) ?_).child (Loc.not_isNode_L loc 0) hchild,
      .inl rfl⟩
    rw [Storage.finished_pipeInputs]
  | map body =>
    obtain ⟨hmap, rfl⟩ := h
    obtain ⟨hs, hk, hn, hf⟩ := startMap_leaves hmap
    refine ⟨⟨hs, fun l hl => hk l (hdef.kept l hl), fun l hl hl' => ?_, hdef.finished.trans hf⟩,
      .inl rfl⟩
    exact (hn l hl hl').elim .inl (hdef.nodes l hl)
  | ifelse pred ifTrue ifFalse =>
    obtain ⟨rfl, rfl⟩ := h
    exact ⟨hdef, .inl rfl⟩
  | eifelse pred ifTrue ifFalse =>
    obtain ⟨rfl, rfl⟩ := h
    exact ⟨hdef, .inl rfl⟩

/-- A start hands over its own node, if that is a function, and nothing else. -/
theorem start_leaves (h : start W data s = .ok (calls, s')) :
    Leaves data.nodeLocation s s' ∧
      (calls = [] ∨ ∃ name parent, data.node.kind = .function name ∧
        data.nodeLocation.parent = .ok (some parent) ∧
        calls = [{
          loc := data.nodeLocation
          launcher := launcherName name
          function := taskName name
          inputs := inputLocs parent data.node.inputs
          outputList := data.outputList }]) := by
  refine startWith_leaves (fun h hkind => ?_) h
  obtain ⟨hleaves, hcalls⟩ := startWith_leaves (fun h _ => absurd h throw_ne_ok) h
  refine ⟨hleaves, hcalls.resolve_right ?_⟩
  rintro ⟨name, parent, hfunction, -, -⟩
  rw [hfunction] at hkind
  have hne : "function" ≠ "eval" := by decide
  exact hne hkind

end

end Leaves

end Tierkreis.Controller
