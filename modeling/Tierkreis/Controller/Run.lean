import Tierkreis.Controller.Start
import Tierkreis.Lib.Run

/-!
# Runs of the Python controller

The controller walks the graph and starts what it found, one node after the
other; where it looks at breakpoints it writes what it found to files instead,
and starts that in a later run. In between, the workers of the functions that
were handed to executors write their outputs, end or fail, in any order; and the
controller may be stopped, also inside a start, and resumed later. A function is
handed over once, when the nodes that its inputs come from are finished, unless
a run that does not look at breakpoints leaves a breakpoint file behind it.
-/

namespace Tierkreis.Controller

open Lib Lib.StateExcept Lib.Run

variable {V : Type}

structure System (V : Type) where
  storage : Storage V := {}
  /-- Where `_error` is set. -/
  errors : Finset Loc := ∅
  /-- The breakpoint files, by the locations that they are named after. -/
  breakpoints : HashMap Loc (WalkResult V) := ∅
  /-- What `start_nodes` has still to start. -/
  pending : List (NodeRunData V) := []
  /-- What was handed to executors, from the first to the last. -/
  calls : List Call := []

/-! ## Workers -/

/-- The outputs at a location, by port. -/
def Storage.valuesAt (s : Storage V) (loc : Loc) : PortValues :=
  .ofEntries ((s.readOutputPorts loc).filterMap fun p =>
    (s.outputs.get? (loc, p)).map fun bs => (p, bs))

/-- What a worker finds at the places of its inputs. What is not there is left out. -/
def Storage.arguments (s : Storage V) (call : Call) : List (PortID × Arg) :=
  call.inputs.toList.filterMap fun e =>
    (readPort (s.valuesAt e.2.1) e.2.2).map fun a => (e.1, a)

/-- What a worker gives for the inputs that it finds. -/
def Interpretation.answer (W : Interpretation V) (s : Storage V) (call : Call) : Option PortValues :=
  W.run call.launcher call.function (s.arguments call)

/-! ## Rounds -/

/-- The graph that is resumed, as the storage has it. -/
def rootGraph (W : Interpretation V) (s : Storage V) : Except PyError (GraphData V) := do
  W.decodeGraph (← s.readOutput (Loc.root.N (-1)) "body")

/-- A node as it is read from a file. -/
def NodeRunData.reload (W : Interpretation V) (data : NodeRunData V) : NodeRunData V :=
  { data with node.kind := match data.node.kind with
      | .const value => .const (W.reload value)
      | kind => kind }

/-- The values of a dictionary by location: each at the place of the first, and the last of them. -/
def byLocation (l : List (NodeRunData V)) : List (NodeRunData V) :=
  (distinctLocs l []).map fun data =>
    (l.reverse.find? fun d => d.nodeLocation = data.nodeLocation).getD data

/-- `read_breakpoints`. The files are deleted. -/
def readBreakpoints (W : Interpretation V) (files : HashMap Loc (WalkResult V)) :
    Option (WalkResult V) :=
  let result : WalkResult V := files.toList.foldl (fun r e => r.extend e.2) {}
  if result.inputsReady.isEmpty && result.started.isEmpty && result.errored.isEmpty &&
      result.breakpoints.isEmpty then none
  else some { result with
    started := result.started.dedup
    errored := result.errored.dedup
    inputsReady := byLocation (result.inputsReady.map (NodeRunData.reload W)) }

/-- `write_breakpoint`, as far as the locations of `locs`. -/
def writeBreakpoint (r : WalkResult V) (locs : List Loc) (files : HashMap Loc (WalkResult V)) :
    HashMap Loc (WalkResult V) :=
  locs.foldl (fun files loc => files.insert loc { r with breakpoints := [] }) files

/-- What a round of `resume_graph` finds: what breakpoint files hold, or what it walks to. -/
def round (W : Interpretation V) (s : System V) (depth : Nat) (enableBreakpoints : Bool) :
    Except PyError (WalkResult V × Storage V) := do
  let g ← rootGraph W s.storage
  match if enableBreakpoints then readBreakpoints W s.breakpoints else none with
  | some r => pure (r, s.storage)
  | none =>
    let idx ← g.outputIdx
    walkNode W (fun loc => decide (loc ∈ s.errors)) depth Loc.root idx g s.storage

/-! ## Turns -/

inductive Event
  /-- A round of `resume_graph`, up to the starts. -/
  | walk (depth : Nat) (enableBreakpoints : Bool)
  /-- The next node of `start_nodes`. -/
  | start
  /-- The start of the next node raises, or is broken off, after some of its writes. -/
  | cut (written : Nat)
  /-- The controller is stopped between two starts. -/
  | stop
  /-- It is stopped when it has read and deleted the breakpoint file of a location. -/
  | drop (loc : Loc)
  /-- A worker writes an output. -/
  | write (loc : Loc) (port : PortID)
  | finish (loc : Loc)
  | fail (loc : Loc)

inductive Turn (W : Interpretation V) : System V → Event → System V → Prop
  | walk {s : System V} {depth : Nat} {enable : Bool} {r : WalkResult V} {storage : Storage V}
      (hp : s.pending = []) (h : round W s depth enable = .ok (r, storage)) (he : r.errored = [])
      (hb : enable = true → r.breakpoints = []) :
      Turn W s (.walk depth enable) { s with
        storage
        breakpoints := if enable then ∅ else s.breakpoints
        pending := distinctLocs r.inputsReady [] }
  | errored {s : System V} {depth : Nat} {enable : Bool} {r : WalkResult V} {storage : Storage V}
      (hp : s.pending = []) (h : round W s depth enable = .ok (r, storage)) (he : r.errored ≠ []) :
      Turn W s (.walk depth enable) { s with
        storage
        breakpoints := if enable then ∅ else s.breakpoints
        errors := insert Loc.root s.errors }
  /-- The controller ends at breakpoints. It may be stopped before all files are written. -/
  | breakpoint {s : System V} {depth : Nat} {r : WalkResult V} {storage : Storage V}
      {locs : List Loc} (hp : s.pending = []) (h : round W s depth true = .ok (r, storage))
      (he : r.errored = []) (hb : r.breakpoints ≠ []) (hl : locs <+: r.breakpoints) :
      Turn W s (.walk depth true) { s with storage, breakpoints := writeBreakpoint r locs ∅ }
  | start {s : System V} {data : NodeRunData V} {rest : List (NodeRunData V)} {calls : List Call}
      {storage : Storage V} (hp : s.pending = data :: rest)
      (h : start W data s.storage = .ok (calls, storage)) :
      Turn W s .start { s with storage, pending := rest, calls := s.calls ++ calls }
  | cut {s : System V} {data : NodeRunData V} {rest : List (NodeRunData V)} {written : Nat}
      (hp : s.pending = data :: rest) :
      Turn W s (.cut written) { s with
        storage := s.storage.writeAll ((startWrites W data s.storage).take written)
        pending := [] }
  | stop {s : System V} : Turn W s .stop { s with pending := [] }
  | drop {s : System V} {loc : Loc} (hp : s.pending = []) :
      Turn W s (.drop loc) { s with breakpoints := s.breakpoints.erase loc }
  | write {s : System V} {call : Call} {port : PortID} {outs : PortValues} {bs : Bytes}
      (hc : call ∈ s.calls) (hf : s.storage.isNodeFinished call.loc = false)
      (ho : W.answer s.storage call = some outs) (hb : outs.get? port = some bs) :
      Turn W s (.write call.loc port) { s with
        storage := s.storage.writeOutput call.loc port bs }
  | finish {s : System V} {call : Call} {outs : PortValues} (hc : call ∈ s.calls)
      (ho : W.answer s.storage call = some outs)
      (hall : ∀ p ∈ call.outputList, readPort (s.storage.valuesAt call.loc) p = readPort outs p) :
      Turn W s (.finish call.loc) { s with storage := s.storage.markNodeFinished call.loc }
  | fail {s : System V} {call : Call} (hc : call ∈ s.calls)
      (hf : s.storage.isNodeFinished call.loc = false) :
      Turn W s (.fail call.loc) { s with errors := insert call.loc s.errors }

/-- The controller is not run without breakpoints while a breakpoint file is there. -/
def attended (s : System V) : Event → Bool
  | .walk _ enable => enable || s.breakpoints.toList.isEmpty
  | _ => true

/-- No start breaks off. -/
def Event.whole : Event → Bool
  | .cut _ => false
  | _ => true

/-! ## Turns, computed -/

/-- The turn of an event, where the event has one. All breakpoint files are written. -/
def turn? (W : Interpretation V) (s : System V) : Event → Option (System V)
  | .walk depth enable =>
    match s.pending, round W s depth enable with
    | [], .ok (r, storage) =>
      if r.errored.isEmpty then
        if enable && !r.breakpoints.isEmpty then
          some { s with storage, breakpoints := writeBreakpoint r r.breakpoints ∅ }
        else some { s with
          storage
          breakpoints := if enable then ∅ else s.breakpoints
          pending := distinctLocs r.inputsReady [] }
      else some { s with
        storage
        breakpoints := if enable then ∅ else s.breakpoints
        errors := insert Loc.root s.errors }
    | _, _ => none
  | .start =>
    match s.pending with
    | data :: rest =>
      match start W data s.storage with
      | .ok (calls, storage) => some { s with storage, pending := rest, calls := s.calls ++ calls }
      | .error _ => none
    | [] => none
  | .cut written =>
    match s.pending with
    | data :: _ => some { s with
        storage := s.storage.writeAll ((startWrites W data s.storage).take written)
        pending := [] }
    | [] => none
  | .stop => some { s with pending := [] }
  | .drop loc =>
    if s.pending.isEmpty then some { s with breakpoints := s.breakpoints.erase loc } else none
  | .write loc port => do
    let call ← s.calls.find? fun call => call.loc = loc
    let outs ← W.answer s.storage call
    let bs ← outs.get? port
    if s.storage.isNodeFinished call.loc then none
    else some { s with storage := s.storage.writeOutput call.loc port bs }
  | .finish loc => do
    let call ← s.calls.find? fun call => call.loc = loc
    let outs ← W.answer s.storage call
    if call.outputList.all fun p => readPort (s.storage.valuesAt call.loc) p = readPort outs p then
      some { s with storage := s.storage.markNodeFinished call.loc }
    else none
  | .fail loc => do
    let call ← s.calls.find? fun call => call.loc = loc
    if s.storage.isNodeFinished call.loc then none
    else some { s with errors := insert call.loc s.errors }

theorem turn_of_turn? {W : Interpretation V} {s s' : System V} {e : Event}
    (h : turn? W s e = some s') : Turn W s e s' := by
  cases e with
  | walk depth enable =>
    simp only [turn?] at h
    split at h
    · rename_i r storage hp hr
      split at h
      · rename_i he
        split at h
        · rename_i hb
          simp only [Bool.and_eq_true, Bool.not_eq_true', List.isEmpty_eq_false_iff] at hb
          obtain ⟨rfl, hb⟩ := hb
          cases h
          exact .breakpoint hp hr (List.isEmpty_iff.1 he) hb (List.prefix_refl _)
        · rename_i hb
          cases h
          refine .walk hp hr (List.isEmpty_iff.1 he) fun henable => ?_
          simpa [henable] using hb
      · rename_i he
        cases h
        exact .errored hp hr fun hnil => he (List.isEmpty_iff.2 hnil)
    · cases h
  | start =>
    simp only [turn?] at h
    split at h
    · rename_i data rest hp
      split at h
      · rename_i calls storage hstart
        cases h
        exact .start hp hstart
      · cases h
    · cases h
  | cut written =>
    simp only [turn?] at h
    split at h
    · rename_i data rest hp
      cases h
      exact .cut hp
    · cases h
  | stop =>
    cases h
    exact .stop
  | drop loc =>
    simp only [turn?] at h
    split at h
    · rename_i hp
      cases h
      exact .drop (List.isEmpty_iff.1 hp)
    · cases h
  | write loc port =>
    simp only [turn?, Option.bind_eq_bind, Option.bind_eq_some_iff] at h
    obtain ⟨call, hcall, outs, houts, bs, hbs, h⟩ := h
    obtain rfl : call.loc = loc := by simpa using List.find?_some hcall
    split at h
    · cases h
    · rename_i hf
      cases h
      exact .write (List.mem_of_find?_eq_some hcall) (Bool.eq_false_iff.2 hf) houts hbs
  | finish loc =>
    simp only [turn?, Option.bind_eq_bind, Option.bind_eq_some_iff] at h
    obtain ⟨call, hcall, outs, houts, h⟩ := h
    obtain rfl : call.loc = loc := by simpa using List.find?_some hcall
    split at h
    · rename_i hall
      cases h
      refine .finish (List.mem_of_find?_eq_some hcall) houts fun p hp => ?_
      exact of_decide_eq_true (List.all_eq_true.1 hall p hp)
    · cases h
  | fail loc =>
    simp only [turn?, Option.bind_eq_bind, Option.bind_eq_some_iff] at h
    obtain ⟨call, hcall, h⟩ := h
    obtain rfl : call.loc = loc := by simpa using List.find?_some hcall
    split at h
    · cases h
    · rename_i hf
      cases h
      exact .fail (List.mem_of_find?_eq_some hcall) (Bool.eq_false_iff.2 hf)

/-- The run of the given events, where each has a turn and meets a check. -/
def run? (W : Interpretation V) (check : System V → Event → Bool) (s : System V) (l : List Event) :
    Option (System V) :=
  l.foldlM (fun s e => if check s e then turn? W s e else none) s

theorem steps_of_run? {W : Interpretation V} {check : System V → Event → Bool} {l : List Event} :
    ∀ {s s' : System V}, run? W check s l = some s' →
      Steps (fun s e s' => Turn W s e s' ∧ check s e = true) s l s' := by
  induction l with
  | nil =>
    intro s s' h
    cases h
    exact .nil s
  | cons e l ih =>
    intro s s' h
    obtain ⟨t, ht, h⟩ := Option.bind_eq_some_iff.1 h
    dsimp only at ht
    split at ht
    · rename_i hcheck
      exact .cons ⟨turn_of_turn? ht, hcheck⟩ (ih h)
    · cases ht

/-! ## What a walk leaves -/

/-- A walk writes no definitions. What it finds is ready when it ends. -/
structure Walked (Ready : Storage V → NodeRunData V → Prop) (s : Storage V) (r : WalkResult V)
    (s' : Storage V) : Prop where
  nodeDefs : s'.nodeDefs = s.nodeDefs
  finished : s.finished ⊆ s'.finished
  ready : ∀ data ∈ r.inputsReady, Ready s' data

/-- Ready nodes stay ready when more nodes are finished. -/
def Stable (Ready : Storage V → NodeRunData V → Prop) : Prop :=
  ∀ s s' data, s'.nodeDefs = s.nodeDefs → s.finished ⊆ s'.finished → Ready s data → Ready s' data

section Walked

variable {Ready : Storage V → NodeRunData V → Prop} {s s' s'' : Storage V} {r r' : WalkResult V}

theorem Walked.refl (s : Storage V) (h : ∀ data ∈ r.inputsReady, Ready s data) :
    Walked Ready s r s := ⟨rfl, Finset.Subset.refl _, h⟩

theorem Walked.extend (hstable : Stable Ready) (h : Walked Ready s r s')
    (h' : Walked Ready s' r' s'') : Walked Ready s (r.extend r') s'' := by
  refine ⟨h'.nodeDefs.trans h.nodeDefs, h.finished.trans h'.finished, fun data hdata => ?_⟩
  rcases List.mem_append.1 hdata with hdata | hdata
  · exact hstable s' s'' data h'.nodeDefs h'.finished (h.ready data hdata)
  · exact h'.ready data hdata

variable {W : Interpretation V} {walk : Loc → Int → GraphData V → Ctl V (WalkResult V)}
  {parent loc : Loc} {g : GraphData V}

theorem walkInputs_walked (Inv : Storage V → Prop) (hstable : Stable Ready) {l : List ValueRef}
    (h : ∀ x ∈ l, ∀ s r s', Inv s → walk parent x.1 g s = .ok (r, s') →
      Inv s' ∧ Walked Ready s r s') :
    ∀ {s₀ s : Storage V} {acc : WalkResult V}, Inv s → Walked Ready s₀ acc s →
      walkInputs walk parent g l acc s = .ok (r, s') → Inv s' ∧ Walked Ready s₀ r s' := by
  induction l with
  | nil =>
    intro s₀ s acc hi hacc hw
    obtain ⟨rfl, rfl⟩ := pure_eq_ok.1 hw
    exact ⟨hi, hacc⟩
  | cons x l ih =>
    intro s₀ s acc hi hacc hw
    obtain ⟨r₁, t, hwalk, hw⟩ := bind_eq_ok.1 hw
    obtain ⟨hi', hwalked⟩ := h x (.head _) _ _ _ hi hwalk
    exact ih (fun y hy => h y (.tail _ hy)) hi' (hacc.extend hstable hwalked) hw

theorem walkElements_walked (Inv : Storage V → Prop) (hstable : Stable Ready) {l : List Int}
    (h : ∀ i ∈ l, ∀ out, g.outputIdx = .ok out → ∀ s r s', Inv s →
      walk (loc.M i) out g s = .ok (r, s') → Inv s' ∧ Walked Ready s r s') :
    ∀ {s₀ s : Storage V} {acc : WalkResult V}, Inv s → Walked Ready s₀ acc s →
      walkElements walk loc g l acc s = .ok (r, s') → Inv s' ∧ Walked Ready s₀ r s' := by
  induction l with
  | nil =>
    intro s₀ s acc hi hacc hw
    obtain ⟨rfl, rfl⟩ := pure_eq_ok.1 hw
    exact ⟨hi, hacc⟩
  | cons i l ih =>
    intro s₀ s acc hi hacc hw
    obtain ⟨out, hout, hw⟩ := lift_bind_eq_ok.1 hw
    obtain ⟨r₁, t, hwalk, hw⟩ := bind_eq_ok.1 hw
    obtain ⟨hi', hwalked⟩ := h i (.head _) out hout _ _ _ hi hwalk
    exact ih (fun j hj => h j (.tail _ hj)) hi' (hacc.extend hstable hwalked) hw

end Walked

/-! ## Functions are handed over once -/

/-- A function that is ready is not started, and its inputs are finished. -/
def ReadyFunction (s : Storage V) (data : NodeRunData V) : Prop :=
  ∀ name, data.node.kind = .function name →
    ∃ (parent : Loc) (idx : Int), data.nodeLocation = parent.N idx ∧
    s.isNodeStarted data.nodeLocation = false ∧
    ∀ e ∈ data.node.inputs.toList, 0 ≤ e.2.1 → parent.N e.2.1 ∈ s.finished

theorem stable_readyFunction : Stable (ReadyFunction (V := V)) := by
  intro s s' data hdefs hfin h name hname
  obtain ⟨parent, idx, hloc, hstarted, hinputs⟩ := h name hname
  refine ⟨parent, idx, hloc, ?_, fun e he hi => hfin (hinputs e he hi)⟩
  rw [Storage.isNodeStarted, hdefs]
  exact hstarted

theorem finished_of_unfinishedInputs_eq_nil {s : Storage V} {parent : Loc} {node : NodeDef V}
    (h : s.unfinishedInputs parent node = []) {r : ValueRef} (hr : r ∈ node.waitsFor)
    (hi : 0 ≤ r.1) : parent.N r.1 ∈ s.finished := by
  have hfin := List.filter_eq_nil_iff.1 h r (List.mem_filter.2 ⟨hr, decide_eq_true hi⟩)
  simpa [Storage.isNodeFinished] using hfin

theorem finished_subset_mark {s s' : Storage V} {loc : Loc} (h : s'.finished = s.finished) :
    s.finished ⊆ (s'.markNodeFinished loc).finished :=
  h ▸ Finset.subset_insert _ _

section

variable {W : Interpretation V} {hasError : Loc → Bool}

theorem walkStarted_ready {walk : Loc → Int → GraphData V → Ctl V (WalkResult V)}
    (h : ∀ parent idx g s r s', walk parent idx g s = .ok (r, s') → Walked ReadyFunction s r s')
    {parent : Loc} {idx : Int} {g : GraphData V} {node : NodeDef V} {s s' : Storage V}
    {r : WalkResult V} (hw : walkStarted W walk parent idx g node s = .ok (r, s')) :
    Walked ReadyFunction s r s' := by
  have hnone : ∀ {s : Storage V}, Walked ReadyFunction s {} s :=
    .refl _ fun data hdata => absurd hdata List.not_mem_nil
  unfold walkStarted at hw
  cases hk : node.kind with
  | function name =>
    rw [hk] at hw
    obtain ⟨rfl, rfl⟩ := pure_eq_ok.1 hw
    exact .refl _ fun data hdata => absurd hdata List.not_mem_nil
  | input name =>
    rw [hk] at hw
    obtain ⟨rfl, rfl⟩ := pure_eq_ok.1 hw
    exact hnone
  | output | const value =>
    rw [hk] at hw
    obtain ⟨rfl, rfl⟩ := pure_eq_ok.1 hw
    refine .refl _ fun data hdata name hname => ?_
    cases List.mem_singleton.1 hdata
    cases hk.symm.trans hname
  | eval graph =>
    rw [hk] at hw
    dsimp only at hw
    rw [get_bind] at hw
    obtain ⟨bs, -, hw⟩ := lift_bind_eq_ok.1 hw
    obtain ⟨body, -, hw⟩ := lift_bind_eq_ok.1 hw
    obtain ⟨out, -, hw⟩ := lift_bind_eq_ok.1 hw
    exact h _ _ _ _ _ _ hw
  | loop body port name =>
    rw [hk] at hw
    rcases walkLoop_ok hw with ⟨-, rfl, rfl⟩ | ⟨-, bs, body', out, outputNode, -, -, -, -, hloop⟩
    · exact hnone
    · rcases hloop with ⟨-, hwalk⟩ | ⟨-, c, -, ⟨-, rfl, rfl⟩ | ⟨-, rfl, rfl⟩⟩
      · exact h _ _ _ _ _ _ hwalk
      · refine .refl _ fun data hdata name hname => ?_
        cases List.mem_singleton.1 hdata
        cases hname
      · refine ⟨?_, ?_, fun data hdata => absurd hdata List.not_mem_nil⟩
        · rw [Storage.linkPorts_eq]
          exact Storage.nodeDefs_pipe _ _ _
        · rw [Storage.linkPorts_eq]
          exact finished_subset_mark (Storage.finished_pipe _ _ _)
  | map body =>
    rw [hk] at hw
    rcases walkMap_ok hw with ⟨-, rfl, rfl⟩ | ⟨-, ref, elements, bs, body', -, -, -, -, hmap⟩
    · exact hnone
    · rcases hmap with ⟨-, hwalk⟩ | ⟨-, rfl, out, outputNode, -, -, rfl⟩
      · exact (walkElements_walked (fun _ => True) stable_readyFunction
          (fun _ _ _ _ _ _ _ _ hwalk => ⟨trivial, h _ _ _ _ _ _ hwalk⟩) trivial hnone hwalk).2
      · refine ⟨?_, ?_, fun data hdata => absurd hdata List.not_mem_nil⟩
        · rw [linkElements_eq]
          exact Storage.nodeDefs_pipe _ _ _
        · rw [linkElements_eq]
          exact finished_subset_mark (Storage.finished_pipe _ _ _)
  | ifelse pred ifTrue ifFalse =>
    rw [hk] at hw
    obtain ⟨p, -, ⟨-, rfl, rfl⟩ | ⟨-, hwalk⟩⟩ := walkIfelse_ok hw
    · exact ⟨Storage.nodeDefs_linkOutputs _ _ _ _ _, finished_subset_mark
        (Storage.finished_linkOutputs _ _ _ _ _), fun data hdata => absurd hdata List.not_mem_nil⟩
    · exact h _ _ _ _ _ _ hwalk
  | eifelse pred ifTrue ifFalse =>
    rw [hk] at hw
    obtain ⟨p, -, rfl, rfl⟩ := walkEifelse_ok hw
    exact ⟨Storage.nodeDefs_linkOutputs _ _ _ _ _, finished_subset_mark
      (Storage.finished_linkOutputs _ _ _ _ _), fun data hdata => absurd hdata List.not_mem_nil⟩

theorem walkNode_ready {depth : Nat} : ∀ {parent : Loc} {idx : Int} {g : GraphData V}
    {s s' : Storage V} {r : WalkResult V}, walkNode W hasError depth parent idx g s = .ok (r, s') →
      Walked ReadyFunction s r s' := by
  induction depth with
  | zero => exact fun h => absurd h throw_ne_ok
  | succ depth ih =>
    intro parent idx g s s' r h
    have hnone : Walked ReadyFunction s {} s :=
      .refl _ fun data hdata => absurd hdata List.not_mem_nil
    rcases walkNode_ok h with ⟨-, rfl, rfl⟩ | ⟨-, node, hnode, hrest⟩
    · exact .refl _ fun data hdata => absurd hdata List.not_mem_nil
    · rcases hrest with ⟨-, hinputs⟩ | ⟨hnil, hstarted, rfl, _, rfl⟩ | ⟨-, -, hinside⟩
      · exact (walkInputs_walked (fun _ => True) stable_readyFunction
          (fun _ _ _ _ _ _ hwalk => ⟨trivial, ih hwalk⟩) trivial hnone hinputs).2
      · refine .refl _ fun data hdata name hname => ?_
        cases List.mem_singleton.1 hdata
        refine ⟨parent, idx, rfl, hstarted, fun e he hi => ?_⟩
        refine finished_of_unfinishedInputs_eq_nil hnil ?_ hi
        have hkind : node.kind = .function name := hname
        rw [NodeDef.waitsFor, hkind, NodeDef.inEdges, hkind]
        exact List.mem_map_of_mem he
      · exact walkStarted_ready (fun _ _ _ _ _ _ => ih) hinside

end

theorem mem_of_mem_distinctLocs {l : List (NodeRunData V)} : ∀ {startedLocs : List Loc}
    {data : NodeRunData V}, data ∈ distinctLocs l startedLocs →
      data ∈ l ∧ data.nodeLocation ∉ startedLocs := by
  induction l with
  | nil => exact fun h => absurd h List.not_mem_nil
  | cons d l ih =>
    intro startedLocs data h
    rw [distinctLocs] at h
    split at h
    · exact ⟨.tail _ (ih h).1, (ih h).2⟩
    · rename_i hd
      rcases List.mem_cons.1 h with rfl | h
      · exact ⟨.head _, hd⟩
      · exact ⟨.tail _ (ih h).1, fun hin => (ih h).2 (.tail _ hin)⟩

theorem nodup_distinctLocs (l : List (NodeRunData V)) : ∀ startedLocs : List Loc,
    ((distinctLocs l startedLocs).map NodeRunData.nodeLocation).Nodup := by
  induction l with
  | nil => exact fun _ => List.nodup_nil
  | cons d l ih =>
    intro startedLocs
    rw [distinctLocs]
    split
    · exact ih _
    · refine List.nodup_cons.2 ⟨fun h => ?_, ih _⟩
      obtain ⟨data, hdata, heq⟩ := List.mem_map.1 h
      exact (mem_of_mem_distinctLocs hdata).2 (heq ▸ .head _)

/-- The nodes of the same graph that the inputs of a call come from are finished. -/
def Provided (s : Storage V) (call : Call) : Prop :=
  ∃ (parent : Loc) (idx : Int), call.loc = parent.N idx ∧ ∀ e ∈ call.inputs.toList,
    ∃ i, e.2.1 = parent.N i ∧ (0 ≤ i → e.2.1 ∈ s.finished)

theorem Provided.mono {s s' : Storage V} {call : Call} (hfin : s.finished ⊆ s'.finished)
    (h : Provided s call) : Provided s' call := by
  obtain ⟨parent, idx, hloc, h⟩ := h
  refine ⟨parent, idx, hloc, fun e he => ?_⟩
  obtain ⟨i, hi, h⟩ := h e he
  exact ⟨i, hi, fun h0 => hfin (h h0)⟩

/-- What holds along a run from a storage. -/
structure Once (before : Storage V) (s : System V) : Prop where
  kept : ∀ loc, before.isNodeStarted loc = true → s.storage.isNodeStarted loc = true
  distinct : (s.calls.map Call.loc).Nodup
  fresh : ∀ call ∈ s.calls, before.isNodeStarted call.loc = false
  started : ∀ call ∈ s.calls, s.storage.isNodeStarted call.loc = true
  provided : ∀ call ∈ s.calls, Provided s.storage call
  pendingDistinct : (s.pending.map NodeRunData.nodeLocation).Nodup
  pending : ∀ data ∈ s.pending, ReadyFunction s.storage data
  /-- Nothing is started while a breakpoint file is there. -/
  alone : s.pending ≠ [] → s.breakpoints = ∅
  files : ∀ e ∈ s.breakpoints.toList, ∀ data ∈ e.2.inputsReady, ReadyFunction s.storage data

theorem mem_toList_inputLocs {parent : Loc} {inputs : HashMap PortID ValueRef}
    {e : PortID × Loc × PortID} (h : e ∈ (inputLocs parent inputs).toList) :
    ∃ ref, (e.1, ref) ∈ inputs.toList ∧ e.2 = (parent.N ref.1, ref.2) := by
  have hget := HashMap.get?_eq_some_iff.2 (show (e.1, e.2) ∈ _ from h)
  rw [inputLocs, HashMap.get?_filterMap] at hget
  obtain ⟨ref, href, heq⟩ := Option.bind_eq_some_iff.1 hget
  exact ⟨ref, HashMap.get?_eq_some_iff.1 href, (Option.some.inj heq).symm⟩

theorem provided_of_ready {s : Storage V} {data : NodeRunData V} (h : ReadyFunction s data)
    {name : String} (hkind : data.node.kind = .function name) {parent : Loc}
    (hparent : data.nodeLocation.parent = .ok (some parent)) {call : Call}
    (hloc : call.loc = data.nodeLocation) (hinputs : call.inputs = inputLocs parent data.node.inputs) :
    Provided s call := by
  obtain ⟨parent', idx, hnode, -, hfin⟩ := h name hkind
  have hsame : parent' = parent := by
    rw [hnode] at hparent
    cases hdash : parent'.dash with
    | true => exact Option.some.inj (Except.ok.inj ((Loc.parent_N hdash idx).symm.trans hparent))
    | false =>
      obtain ⟨dash, tail⟩ := parent'
      cases hdash
      cases tail <;> cases hparent
  subst hsame
  refine ⟨parent', idx, hloc.trans hnode, fun e he => ?_⟩
  obtain ⟨ref, href, heq⟩ := mem_toList_inputLocs (hinputs ▸ he)
  refine ⟨ref.1, congrArg Prod.fst heq, fun h0 => ?_⟩
  rw [congrArg Prod.fst heq]
  exact hfin _ href h0

theorem mem_byLocation {l : List (NodeRunData V)} {data : NodeRunData V}
    (h : data ∈ byLocation l) : data ∈ l := by
  obtain ⟨d, hd, rfl⟩ := List.mem_map.1 h
  cases hf : l.reverse.find? fun d' => d'.nodeLocation = d.nodeLocation with
  | none => exact (mem_of_mem_distinctLocs hd).1
  | some d' => exact List.mem_reverse.1 (List.mem_of_find?_eq_some hf)

theorem ReadyFunction.reload {W : Interpretation V} {s : Storage V} {data : NodeRunData V}
    (h : ReadyFunction s data) : ReadyFunction s (data.reload W) := by
  intro name hname
  refine h name ?_
  obtain ⟨loc, ⟨kind, inputs, outputs⟩, outputList⟩ := data
  cases kind with
  | const value => cases hname
  | _ => exact hname

/-- What is read from breakpoint files was written to one of them. -/
theorem readBreakpoints_ready {W : Interpretation V} {Ready : NodeRunData V → Prop}
    {files : HashMap Loc (WalkResult V)} {r : WalkResult V}
    (hreload : ∀ data, Ready data → Ready (data.reload W)) (h : readBreakpoints W files = some r)
    (hfiles : ∀ e ∈ files.toList, ∀ data ∈ e.2.inputsReady, Ready data) :
    ∀ data ∈ r.inputsReady, Ready data := by
  have hfold : ∀ (l : List (Loc × WalkResult V)) (r₀ : WalkResult V),
      (∀ data ∈ r₀.inputsReady, Ready data) →
        (∀ e ∈ l, ∀ data ∈ e.2.inputsReady, Ready data) →
          ∀ data ∈ (l.foldl (fun r e => r.extend e.2) r₀).inputsReady, Ready data := by
    intro l
    induction l with
    | nil => exact fun _ h _ => h
    | cons e l ih =>
      intro r₀ hr₀ hl
      refine ih _ (fun data hdata => ?_) fun e' he' => hl e' (.tail _ he')
      rcases List.mem_append.1 hdata with hdata | hdata
      · exact hr₀ data hdata
      · exact hl e (.head _) data hdata
  unfold readBreakpoints at h
  dsimp only at h
  split at h
  · cases h
  · cases h
    intro data hdata
    obtain ⟨d, hd, rfl⟩ := List.mem_map.1 (mem_byLocation hdata)
    exact hreload d (hfold _ _ (fun _ h => absurd h List.not_mem_nil) hfiles d hd)

theorem mem_writeBreakpoint {r : WalkResult V} {locs : List Loc} {e : Loc × WalkResult V} :
    ∀ {files : HashMap Loc (WalkResult V)}, e ∈ (writeBreakpoint r locs files).toList →
      e ∈ files.toList ∨ e.2 = { r with breakpoints := [] } := by
  induction locs with
  | nil => exact .inl
  | cons loc locs ih =>
    intro files h
    rcases ih h with h | h
    · have hget := HashMap.get?_eq_some_iff.2 (show (e.1, e.2) ∈ _ from h)
      rw [HashMap.get?_insert] at hget
      split at hget
      · exact .inr (Option.some.inj hget).symm
      · exact .inl (HashMap.get?_eq_some_iff.1 hget)
    · exact .inr h

/-- What a round finds is ready. -/
theorem round_ready {W : Interpretation V} {s : System V} {depth : Nat} {enable : Bool}
    {r : WalkResult V} {storage : Storage V} (h : round W s depth enable = .ok (r, storage))
    (hfiles : ∀ e ∈ s.breakpoints.toList, ∀ data ∈ e.2.inputsReady,
      ReadyFunction s.storage data) : Walked ReadyFunction s.storage r storage := by
  obtain ⟨g, -, h⟩ := except_bind_eq_ok.1 h
  split at h
  · rename_i r' hr
    cases h
    refine .refl _ (readBreakpoints_ready (W := W) (fun _ hdata => hdata.reload) ?_ hfiles)
    split at hr
    · exact hr
    · cases hr
  · obtain ⟨idx, -, h⟩ := except_bind_eq_ok.1 h
    exact walkNode_ready h

/-- What one turn keeps, where breakpoint files are attended to. -/
theorem Once.turn {W : Interpretation V} {before : Storage V} {s s' : System V} {e : Event}
    (h : Once before s) (ht : Turn W s e s') (ha : attended s e = true) : Once before s' := by
  obtain ⟨hkept, hdistinct, hfresh, hstarted, hprovided, hpd, hpending, halone, hfiles⟩ := h
  have hsame : ∀ {storage : Storage V}, storage.nodeDefs = s.storage.nodeDefs →
      ∀ loc, storage.isNodeStarted loc = s.storage.isNodeStarted loc := fun hdefs loc => by
    unfold Storage.isNodeStarted
    rw [hdefs]
  have hread : ∀ {depth enable}, attended s (.walk depth enable) = true →
      (if enable then ∅ else s.breakpoints) = (∅ : HashMap Loc (WalkResult V)) := by
    intro depth enable ha
    cases enable with
    | true => rfl
    | false => exact HashMap.toList_inj (List.isEmpty_iff.1 ha)
  have hnoFiles : ∀ {storage : Storage V}, ∀ e ∈ (∅ : HashMap Loc (WalkResult V)).toList,
      ∀ data ∈ e.2.inputsReady, ReadyFunction storage data := fun e he => absurd he List.not_mem_nil
  have hstill : ∀ {storage : Storage V}, storage.nodeDefs = s.storage.nodeDefs →
      s.storage.finished ⊆ storage.finished → ∀ e ∈ s.breakpoints.toList,
        ∀ data ∈ e.2.inputsReady, ReadyFunction storage data := fun hdefs hfin e he data hd =>
    stable_readyFunction _ _ data hdefs hfin (hfiles e he data hd)
  cases ht with
  | walk hp h he hb =>
    obtain ⟨hdefs, hfin, hready⟩ := round_ready h hfiles
    refine ⟨fun l hl => (hsame hdefs l).trans (hkept l hl), hdistinct, hfresh,
      fun c hc => (hsame hdefs _).trans (hstarted c hc),
      fun c hc => (hprovided c hc).mono hfin, nodup_distinctLocs _ _, fun data hdata => ?_,
      fun _ => hread ha, ?_⟩
    · exact hready data (mem_of_mem_distinctLocs hdata).1
    · dsimp only
      rw [hread ha]
      exact hnoFiles
  | errored hp h he =>
    obtain ⟨hdefs, hfin, -⟩ := round_ready h hfiles
    refine ⟨fun l hl => (hsame hdefs l).trans (hkept l hl), hdistinct, hfresh,
      fun c hc => (hsame hdefs _).trans (hstarted c hc),
      fun c hc => (hprovided c hc).mono hfin, hpd, fun data hdata => ?_, fun _ => hread ha, ?_⟩
    · exact stable_readyFunction _ _ data hdefs hfin (hpending data hdata)
    · dsimp only
      rw [hread ha]
      exact hnoFiles
  | breakpoint hp h he hb hl =>
    obtain ⟨hdefs, hfin, hready⟩ := round_ready h hfiles
    refine ⟨fun l hl => (hsame hdefs l).trans (hkept l hl), hdistinct, hfresh,
      fun c hc => (hsame hdefs _).trans (hstarted c hc),
      fun c hc => (hprovided c hc).mono hfin, hpd, fun data hdata => ?_,
      fun hne => absurd hp hne, fun e he data hd => ?_⟩
    · exact stable_readyFunction _ _ data hdefs hfin (hpending data hdata)
    · rcases mem_writeBreakpoint he with he | he
      · exact absurd he List.not_mem_nil
      · rw [he] at hd
        exact hready data hd
  | @start data rest calls storage hp hstart =>
    have hnone : s.breakpoints = ∅ := halone (by rw [hp]; exact List.cons_ne_nil _ _)
    rw [hp] at hpd hpending
    obtain ⟨hleaves, hcalls⟩ := start_leaves hstart
    obtain ⟨hnew, hrest⟩ := List.nodup_cons.1 hpd
    have hkept' : ∀ l, before.isNodeStarted l = true → storage.isNodeStarted l = true :=
      fun l hl => hleaves.kept l (hkept l hl)
    have hready : ∀ d ∈ rest, ReadyFunction storage d := by
      intro d hd name hname
      obtain ⟨parent, idx, hloc, hunstarted, hinputs⟩ := hpending d (.tail _ hd) name hname
      refine ⟨parent, idx, hloc, ?_, fun e he hi => hleaves.finished (hinputs e he hi)⟩
      cases hs : storage.isNodeStarted d.nodeLocation with
      | false => rfl
      | true =>
        rcases hleaves.nodes _ ⟨parent, idx, hloc⟩ hs with heq | hs
        · exact absurd (heq ▸ List.mem_map_of_mem hd) hnew
        · exact absurd (hunstarted.symm.trans hs) Bool.false_ne_true
    have hfiles' : ∀ e ∈ s.breakpoints.toList, ∀ d ∈ e.2.inputsReady, ReadyFunction storage d := by
      rw [hnone]
      exact hnoFiles
    rcases hcalls with rfl | ⟨name, parent, hkind, hparent, rfl⟩
    · refine ⟨hkept', ?_, ?_, ?_, ?_, hrest, hready, fun _ => hnone, hfiles'⟩
      · simpa using hdistinct
      · simpa using hfresh
      · simpa using fun c hc => hleaves.kept _ (hstarted c hc)
      · simpa using fun c hc => (hprovided c hc).mono hleaves.finished
    · obtain ⟨_, _, -, hunstarted, -⟩ := hpending data (.head _) name hkind
      refine ⟨hkept', ?_, fun c hc => ?_, fun c hc => ?_, fun c hc => ?_, hrest, hready,
        fun _ => hnone, hfiles'⟩
      · show ((s.calls ++ [_]).map Call.loc).Nodup
        rw [List.map_append, List.nodup_append]
        refine ⟨hdistinct, List.nodup_singleton _, fun l hl l' hl' heq => ?_⟩
        obtain ⟨c, hc, rfl⟩ := List.mem_map.1 hl
        rw [List.mem_singleton.1 hl'] at heq
        have hcs := hstarted c hc
        rw [heq] at hcs
        exact absurd (hunstarted.symm.trans hcs) Bool.false_ne_true
      · rcases List.mem_append.1 hc with hc | hc
        · exact hfresh c hc
        · rw [List.mem_singleton.1 hc]
          cases hb : before.isNodeStarted data.nodeLocation with
          | false => rfl
          | true => exact absurd (hunstarted.symm.trans (hkept _ hb)) Bool.false_ne_true
      · rcases List.mem_append.1 hc with hc | hc
        · exact hleaves.kept _ (hstarted c hc)
        · rw [List.mem_singleton.1 hc]
          exact hleaves.started
      · rcases List.mem_append.1 hc with hc | hc
        · exact (hprovided c hc).mono hleaves.finished
        · rw [List.mem_singleton.1 hc]
          exact (provided_of_ready (hpending data (.head _)) hkind hparent rfl rfl).mono
            hleaves.finished
  | @cut data rest written hp =>
    -- What is broken off is started, and is not found again.
    have hnone : s.breakpoints = ∅ := halone (by rw [hp]; exact List.cons_ne_nil _ _)
    obtain ⟨hmore, hfin⟩ := writeAll_kept ((startWrites W data s.storage).take written) s.storage
    refine ⟨fun l hl => hmore l (hkept l hl), hdistinct, hfresh, fun c hc => hmore _ (hstarted c hc),
      fun c hc => (hprovided c hc).mono hfin, List.nodup_nil, fun _ h => absurd h List.not_mem_nil,
      fun hne => absurd rfl hne, ?_⟩
    dsimp only
    rw [hnone]
    exact hnoFiles
  | stop =>
    exact ⟨hkept, hdistinct, hfresh, hstarted, hprovided, List.nodup_nil,
      fun _ h => absurd h List.not_mem_nil, fun hne => absurd rfl hne, hfiles⟩
  | @drop loc hp =>
    refine ⟨hkept, hdistinct, hfresh, hstarted, hprovided, hpd, hpending, fun hne => absurd hp hne,
      fun e he => hfiles e ?_⟩
    have hget := HashMap.get?_eq_some_iff.2 (show (e.1, e.2) ∈ _ from he)
    rw [HashMap.get?_erase] at hget
    split at hget
    · cases hget
    · exact HashMap.get?_eq_some_iff.1 hget
  | write hc hf ho hb =>
    exact ⟨hkept, hdistinct, hfresh, hstarted, hprovided, hpd, fun d hd =>
      stable_readyFunction _ _ d rfl (Finset.Subset.refl _) (hpending d hd), halone,
      hstill rfl (Finset.Subset.refl _)⟩
  | @finish call outs hc ho hall =>
    have hfin : s.storage.finished ⊆ (s.storage.markNodeFinished call.loc).finished :=
      Finset.subset_insert _ _
    exact ⟨hkept, hdistinct, hfresh, hstarted, fun c hc => (hprovided c hc).mono hfin, hpd,
      fun d hd => stable_readyFunction s.storage _ d rfl hfin (hpending d hd), halone,
      hstill rfl hfin⟩
  | fail hc hf =>
    exact ⟨hkept, hdistinct, hfresh, hstarted, hprovided, hpd, hpending, halone, hfiles⟩

theorem once_start (storage : Storage V) (errors : Finset Loc) : Once storage { storage, errors } :=
  ⟨fun _ h => h, List.nodup_nil, fun _ h => absurd h List.not_mem_nil,
    fun _ h => absurd h List.not_mem_nil, fun _ h => absurd h List.not_mem_nil, List.nodup_nil,
    fun _ h => absurd h List.not_mem_nil, fun h => absurd rfl h,
    fun _ h => absurd h List.not_mem_nil⟩

theorem Once.run {W : Interpretation V} {before : Storage V} {s s' : System V} {l : List Event}
    (h : Steps (fun s e s' => Turn W s e s' ∧ attended s e = true) s l s') (hs : Once before s) :
    Once before s' := by
  induction h with
  | nil => exact hs
  | cons ht _ ih => exact ih (hs.turn ht.1 ht.2)

/-- In every run, whatever workers do, whenever the controller is stopped, inside a start or
between two, and resumed, and whether it looks at breakpoints or not: each location is handed to an
executor at most once, no location that was started before, and only when the nodes that its inputs
come from are finished, when no breakpoint file is there while the controller does not look at
breakpoints. -/
theorem handed_once {W : Interpretation V} {storage : Storage V} {errors : Finset Loc}
    {l : List Event} {s : System V}
    (h : Steps (fun s e s' => Turn W s e s' ∧ attended s e = true) { storage, errors } l s) :
    (s.calls.map Call.loc).Nodup ∧ ∀ call ∈ s.calls, storage.isNodeStarted call.loc = false ∧
      s.storage.isNodeStarted call.loc = true ∧ Provided s.storage call := by
  have h := Once.run h (once_start storage errors)
  exact ⟨h.distinct, fun c hc => ⟨h.fresh c hc, h.started c hc, h.provided c hc⟩⟩

/-! ## A run with a breakpoint -/

/-- What is there when the run begins. -/
def doubleStorage : Storage Bool :=
  match runGraph doubleWorker doubleGraph doubleInputs {} with
  | .ok (_, storage) => storage
  | .error _ => {}

theorem runGraph_double :
    runGraph doubleWorker doubleGraph doubleInputs {} = .ok ([], doubleStorage) := rfl

/-- Up to the breakpoint. The start of the conditional breaks off after its definition. -/
def toBreakpoint : List Event :=
  [.walk 9 true, .start, .start, .start, .walk 9 true, .cut 1, .walk 9 true]

/-- From the breakpoint on, with one stop. -/
def fromBreakpoint : List Event :=
  [.walk 9 true, .start, .write (Loc.root.N 2) "value", .finish (Loc.root.N 2), .walk 9 true,
    .walk 9 true, .start, .walk 9 true, .start, .walk 9 true, .stop, .walk 9 true, .start,
    .write ((Loc.root.N 6).N 1) "value", .finish ((Loc.root.N 6).N 1), .walk 9 true, .start,
    .walk 9 true, .start]

/-- Both functions are handed over, each once. -/
theorem handed_once_double : ∃ s, Steps (fun s e s' => Turn doubleWorker s e s' ∧
      attended s e = true) { storage := doubleStorage } (toBreakpoint ++ fromBreakpoint) s ∧
    s.calls.map Call.loc = [Loc.root.N 2, (Loc.root.N 6).N 1] ∧
    (s.calls.map Call.loc).Nodup ∧ ∀ call ∈ s.calls,
      doubleStorage.isNodeStarted call.loc = false ∧ s.storage.isNodeStarted call.loc = true ∧
        Provided s.storage call := by
  have hrun : (run? doubleWorker attended { storage := doubleStorage }
      (toBreakpoint ++ fromBreakpoint)).map (fun s => s.calls.map Call.loc) =
        some [Loc.root.N 2, (Loc.root.N 6).N 1] := by
    decide +kernel
  obtain ⟨s, hs, hcalls⟩ := Option.map_eq_some_iff.1 hrun
  have hsteps := steps_of_run? hs
  exact ⟨s, hsteps, hcalls, handed_once hsteps⟩

/-- A run without breakpoints starts what a breakpoint file holds; when the file is read later, it
is started again. -/
theorem handed_twice_unattended : ∃ s, Steps (Turn doubleWorker) { storage := doubleStorage }
    (toBreakpoint ++ [.walk 9 false, .start, .walk 9 true, .start]) s ∧
      s.calls.map Call.loc = [Loc.root.N 2, Loc.root.N 2] := by
  have hrun : (run? doubleWorker (fun _ _ => true) { storage := doubleStorage }
      (toBreakpoint ++ [.walk 9 false, .start, .walk 9 true, .start])).map
        (fun s => s.calls.map Call.loc) = some [Loc.root.N 2, Loc.root.N 2] := by
    decide +kernel
  obtain ⟨s, hs, hcalls⟩ := Option.map_eq_some_iff.1 hrun
  exact ⟨s, (steps_of_run? hs).mono fun h => h.1, hcalls⟩

end Tierkreis.Controller
