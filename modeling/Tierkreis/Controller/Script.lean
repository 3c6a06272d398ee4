import Tierkreis.Controller.EmbedCopies
import Tierkreis.Controller.RunSound
import Mathlib.Data.Set.Insert

/-!
# Graphs that scripts build

A script calls the methods of the builder with the references that earlier calls
have returned, or with the one to the graph that it builds. A call that raises
ends it. The controller can walk the graph that a script has built exactly where
no lazy conditional has the graph itself for a branch and no map has an input
that its body hides.
-/

namespace Tierkreis.Controller

open Lib Lib.Run GraphData

variable {V : Type}

/-- What `Graph.ref` returns. -/
def selfRef : ValueRef := (-1, "body")

namespace GraphData

/-- What there is of each node beside its outputs. -/
def cores (g : GraphData V) : List (NodeKind V × HashMap PortID ValueRef) :=
  g.nodes.map fun n => (n.kind, n.inputs)

/-- The reference is to a node that gives outputs. -/
def Leads (g : GraphData V) (r : ValueRef) : Prop :=
  ∃ (j : Nat) (kind : NodeKind V) (inputs : HashMap PortID ValueRef),
    r.1 = j ∧ g.nodeAt? j = some (kind, inputs) ∧ kind.isOutput = false

/-- Every edge leads to a port of a node that gives outputs. -/
def Recording (g : GraphData V) : Prop :=
  ∀ (i : Nat) node, g.nodes[i]? = some node → ∀ (j : Nat) port, ((j : Int), port) ∈ node.edges →
    ∃ source, g.nodes[j]? = some source ∧ source.kind.isOutput = false ∧
      port ∈ portsOf source.outputs

/-- The shape that the controller relies on in a node. -/
structure Shape (kind : NodeKind V) (inputs : HashMap PortID ValueRef) : Prop where
  branches : ∀ pred ifTrue ifFalse, kind = .ifelse pred ifTrue ifFalse →
    0 ≤ ifTrue.1 ∧ 0 ≤ ifFalse.1
  bodies : ∀ body, kind = .map body → inputs.get? "body" = none
  fields : (∃ value, kind = .const value) ∨ (∃ name, kind = .input name) ∨
      (∃ pred ifTrue ifFalse, kind = .eifelse pred ifTrue ifFalse) → inputs = ∅

variable {g g' : GraphData V}

theorem Leads.mono (hg : Grows g g') {r : ValueRef} (h : g.Leads r) : g'.Leads r := by
  obtain ⟨j, kind, inputs, hj, hn, hout⟩ := h
  exact ⟨j, kind, inputs, hj, hg _ _ hn, hout⟩

theorem Leads.nonneg {r : ValueRef} (h : g.Leads r) : 0 ≤ r.1 := by
  obtain ⟨j, -, -, hj, -⟩ := h
  omega

theorem getElem?_cores (i : Nat) : g.cores[i]? = g.nodeAt? i := List.getElem?_map

theorem walkable_iff_shape :
    Walkable g ↔ g.Recording ∧ ∀ core ∈ g.cores, Shape core.1 core.2 := by
  constructor
  · refine fun h => ⟨h.recorded, fun core hcore => ?_⟩
    obtain ⟨node, hnode, rfl⟩ := List.mem_map.1 hcore
    obtain ⟨i, hi⟩ := List.getElem?_of_mem hnode
    exact ⟨h.branches i node hi, h.bodies i node hi, h.fields i node hi⟩
  · rintro ⟨hrec, hshape⟩
    have hnode : ∀ (i : Nat) node, g.nodes[i]? = some node → Shape node.kind node.inputs :=
      fun i node hn => hshape _ (List.mem_map_of_mem (List.mem_of_getElem? hn))
    exact ⟨hrec, fun i node hn => (hnode i node hn).branches,
      fun i node hn => (hnode i node hn).bodies, fun i node hn => (hnode i node hn).fields⟩

/-! ## One more node -/

theorem mem_portsOf_outputs {node : NodeDef V} {port : PortID} (h : node.outputNodes port ≠ []) :
    port ∈ portsOf node.outputs := by
  refine mem_portsOf.2 ?_
  unfold NodeDef.outputNodes at h
  cases hget : node.outputs.get? port with
  | none => exact absurd (by rw [hget]; rfl) h
  | some idxs => exact ⟨idxs, rfl⟩

theorem mem_portsOf_appendOutput {node : NodeDef V} {port p : PortID} (idx : Int)
    (h : p ∈ portsOf node.outputs) : p ∈ portsOf (node.appendOutput port idx).outputs := by
  obtain ⟨idxs, hget⟩ := mem_portsOf.1 h
  refine mem_portsOf.2 ?_
  unfold NodeDef.appendOutput
  rw [HashMap.get?_modify]
  split
  · exact ⟨_, rfl⟩
  · exact ⟨idxs, hget⟩

/-- No port of a node is lost. -/
theorem ports_recordEdges (idx : Int) : ∀ (edges : List ValueRef) (nodes : List (NodeDef V))
    (i : Nat) (n : NodeDef V), nodes[i]? = some n →
      ∃ n', (recordEdges idx edges nodes).2[i]? = some n' ∧
        ∀ p ∈ portsOf n.outputs, p ∈ portsOf n'.outputs
  | [], _, _, n, hn => ⟨n, hn, fun _ h => h⟩
  | (k, port) :: edges, nodes, i, n, hn => by
    unfold recordEdges
    cases pyIndex nodes.length k with
    | none => exact ⟨n, hn, fun _ h => h⟩
    | some k =>
      have hmod : (nodes.modify k fun n => n.appendOutput port idx)[i]? =
          some (if k = i then n.appendOutput port idx else n) := by
        rw [List.getElem?_modify, hn]
        split
        · rfl
        · rfl
      obtain ⟨n', hn', hports⟩ := ports_recordEdges idx edges _ i _ hmod
      refine ⟨n', hn', fun p hp => hports p ?_⟩
      split
      · exact mem_portsOf_appendOutput idx hp
      · exact hp

theorem edges_congr {n n' : NodeDef V} (h : (n.kind, n.inputs) = (n'.kind, n'.inputs)) :
    n.edges = n'.edges := by
  obtain ⟨hkind, hinputs⟩ := Prod.mk.inj h
  unfold NodeDef.edges NodeDef.inEdges
  rw [hkind, hinputs]

variable {node : NodeDef V} {kwargs : Kwargs} {idx : Int}

/-- An accepted call of `add` puts the new node at the end and changes no other but for its
outputs. -/
theorem cores_add (hadd : g.add node kwargs = (.ok idx, g')) :
    g'.cores = g.cores ++ [(node.kind, node.inputs)] := by
  have hok : (g.add node kwargs).1 = .ok idx := by rw [hadd]
  have hnodes := (add_accepted (output_of_ok hok) (metadata_of_ok hok)).2
  rw [hadd] at hnodes
  dsimp only at hnodes
  rw [cores, hnodes, core_recordEdges, List.map_append]
  rfl

theorem grows_add (hadd : g.add node kwargs = (.ok idx, g')) : Grows g g' := by
  intro i n hn
  rw [← getElem?_cores] at hn ⊢
  rw [cores_add hadd, List.getElem?_append_left (List.getElem?_eq_some_iff.1 hn).1]
  exact hn

theorem nodeAt?_add (hadd : g.add node kwargs = (.ok idx, g')) :
    g'.nodeAt? g.nodes.length = some (node.kind, node.inputs) := by
  have hlen : g.nodes.length = g.cores.length := (List.length_map _).symm
  rw [← getElem?_cores, cores_add hadd, hlen, List.getElem?_concat_length]

/-- And it records the edges of the new node. -/
theorem recording_add (hadd : g.add node kwargs = (.ok idx, g')) (hfresh : node.outputs = ∅)
    (hrefs : ∀ r ∈ node.references, g.Leads r ∨ r = selfRef) (hg : g.Recording) :
    idx = g.nodes.length ∧ g'.Recording := by
  have hok : (g.add node kwargs).1 = .ok idx := by rw [hadd]
  have houtput := output_of_ok hok
  have hmetadata := metadata_of_ok hok
  let c : BuilderCall V := {
    node := node
    kwargs := kwargs
    fresh := fun port => by rw [NodeDef.outputNodes, hfresh]; rfl
    scope := fun r hr => by
      rcases hrefs r hr with hlead | rfl
      · exact Int.le_trans (by decide) hlead.nonneg
      · exact Int.le_refl _ }
  have hedge : ∀ e ∈ node.edges, g.Leads e ∨ e = selfRef := fun e he =>
    hrefs e (NodeDef.mem_references.2 (.inl he))
  have hle : ∀ e ∈ node.edges, e.1 ≤ g.nodes.length := by
    intro e he
    rcases hedge e he with ⟨j, kind, inputs, hj, hn, -⟩ | rfl
    · have hlt := lt_of_nodeAt? hn
      omega
    · exact Int.le_trans (by decide) (Int.natCast_nonneg _)
  obtain ⟨hidx, hrec⟩ := recorded_step (c := c) houtput hmetadata hle
  have hstep : g.step c = g' := congrArg Prod.snd hadd
  rw [hstep] at hrec
  have hnodes := (add_accepted houtput hmetadata).2
  rw [hadd] at hnodes
  dsimp only at hnodes
  -- A node that was listed stays so, and the new node is listed where its edges lead.
  have hlisted : ∀ (j : Nat) source port, g.nodes[j]? = some source →
      source.kind.isOutput = false →
      (port ∈ portsOf source.outputs ∨ ((j : Int), port) ∈ node.edges) → ∃ source',
        g'.nodes[j]? = some source' ∧ source'.kind.isOutput = false ∧
          port ∈ portsOf source'.outputs := by
    intro j source port hsource hout hport
    have hold : (g.nodes ++ [node])[j]? = some source :=
      (List.getElem?_append_left (List.getElem?_eq_some_iff.1 hsource).1).trans hsource
    obtain ⟨source', hsource', hports⟩ :=
      ports_recordEdges g.nodes.length node.edges _ j source hold
    rw [← hnodes] at hsource'
    have hcore := grows_add hadd _ _ (nodeAt?_of_getElem? hsource)
    rw [nodeAt?_of_getElem? hsource'] at hcore
    have hkind : source'.kind = source.kind := congrArg Prod.fst (Option.some.inj hcore)
    refine ⟨source', hsource', by rw [hkind, hout], ?_⟩
    rcases hport with hport | hedge
    · exact hports port hport
    · refine mem_portsOf_outputs ?_
      obtain ⟨n', hn', -, houts⟩ := hrec j source hold
      obtain rfl := Option.some.inj (hsource'.symm.trans hn')
      have hlt : j < (g.nodes ++ [node]).length := (List.getElem?_eq_some_iff.1 hold).1
      have hpos : 0 < node.edges.countP fun e =>
          pyIndex (g.nodes ++ [node]).length e.1 = some j ∧ e.2 = port :=
        List.countP_pos_iff.2 ⟨_, hedge, decide_eq_true
          ⟨pyIndex_of_lt (Int.natCast_nonneg j) (Int.ofNat_lt.2 hlt), rfl⟩⟩
      rw [houts, Ne, List.append_eq_nil_iff, List.replicate_eq_nil_iff]
      exact fun h => Nat.pos_iff_ne_zero.1 hpos h.2
  refine ⟨Except.ok.inj (hok.symm.trans hidx), fun i n' hn' j port hr => ?_⟩
  have hcore : g'.cores[i]? = some (n'.kind, n'.inputs) :=
    (getElem?_cores i).trans (nodeAt?_of_getElem? hn')
  rw [cores_add hadd] at hcore
  by_cases hi : i < g.cores.length
  · rw [List.getElem?_append_left hi, getElem?_cores] at hcore
    obtain ⟨n, hn, heq⟩ := Option.map_eq_some_iff.1 hcore
    rw [← edges_congr heq] at hr
    obtain ⟨source, hsource, hout, hport⟩ := hg i n hn j port hr
    exact hlisted j source port hsource hout (.inl hport)
  · rw [List.getElem?_append_right (Nat.le_of_not_lt hi)] at hcore
    have heq := List.mem_singleton.1 (List.mem_of_getElem? hcore)
    rw [edges_congr heq] at hr
    rcases hedge _ hr with ⟨k, kind, inputs, hk, hn, hout⟩ | hself
    · obtain rfl : j = k := Int.ofNat.inj hk
      obtain ⟨source, hsource, hcore'⟩ := Option.map_eq_some_iff.1 hn
      cases hcore'
      exact hlisted j source port hsource hout (.inr hr)
    · have hj : (j : Int) = -1 := congrArg Prod.fst hself
      omega

end GraphData

/-! ## Scripts -/

/-- A method of `GraphData`, with what it is given. -/
inductive Method (V : Type)
  | input (name : String)
  | const (value : V)
  | func (functionName : String) (inputs : HashMap PortID ValueRef)
  | eval (graph : ValueRef) (inputs : HashMap PortID ValueRef)
  | loop (body : ValueRef) (inputs : HashMap PortID ValueRef) (continuePort : PortID)
      (name : Option String)
  | map (body : ValueRef) (inputs : HashMap PortID ValueRef)
  | ifElse (pred ifTrue ifFalse : ValueRef)
  | eagerIfElse (pred ifTrue ifFalse : ValueRef)
  | output (inputs : HashMap PortID ValueRef)

namespace Method

/-- The node that the method adds. -/
def node : Method V → NodeDef V
  | input name => { kind := .input name }
  | const value => { kind := .const value }
  | func functionName inputs => { kind := .function functionName, inputs }
  | eval graph inputs => { kind := .eval graph, inputs }
  | loop body inputs continuePort name => { kind := .loop body continuePort name, inputs }
  | map body inputs => { kind := .map body, inputs }
  | ifElse pred ifTrue ifFalse => { kind := .ifelse pred ifTrue ifFalse }
  | eagerIfElse pred ifTrue ifFalse => { kind := .eifelse pred ifTrue ifFalse }
  | output inputs => { kind := .output, inputs }

/-- The reference that the method returns, or those of the function that it returns. -/
def returned (idx : Int) : Method V → Set ValueRef
  | input name => {(idx, name)}
  | const _ => {(idx, "value")}
  | output _ => ∅
  | _ => {r | r.1 = idx}

/-- No branch is the graph itself, and no input of a map has the port of its body. -/
def Plain : Method V → Prop
  | map _ inputs => inputs.get? "body" = none
  | ifElse _ ifTrue ifFalse => ifTrue ≠ selfRef ∧ ifFalse ≠ selfRef
  | _ => True

theorem outputs_node (m : Method V) : m.node.outputs = ∅ := by
  cases m with
  | _ => rfl

theorem fst_of_returned {idx : Int} {m : Method V} {r : ValueRef} (h : r ∈ m.returned idx) :
    r.1 = idx ∧ m.node.kind.isOutput = false := by
  cases m with
  | input => exact ⟨congrArg Prod.fst h, rfl⟩
  | const => exact ⟨congrArg Prod.fst h, rfl⟩
  | output => exact absurd h (Set.notMem_empty r)
  | _ => exact ⟨h, rfl⟩

/-- A plain call is one whose node has the shape, where its references lead to nodes or to the
graph itself. -/
theorem shape_iff_plain {m : Method V} (h : ∀ r ∈ m.node.references, 0 ≤ r.1 ∨ r = selfRef) :
    Shape m.node.kind m.node.inputs ↔ m.Plain := by
  cases m with
  | ifElse pred ifTrue ifFalse =>
    have hfield : ∀ port r,
        (port, r) ∈ NodeKind.fieldEdges (V := V) (.ifelse pred ifTrue ifFalse) →
          (0 ≤ r.1 ↔ r ≠ selfRef) := by
      intro port r hr
      refine ⟨fun h => ?_, (h r (List.mem_append_right _ (List.mem_map_of_mem hr))).resolve_right⟩
      rintro rfl
      exact absurd h (by decide)
    have htrue := hfield "if_true" ifTrue (.tail _ (.head _))
    have hfalse := hfield "if_false" ifFalse (.tail _ (.tail _ (.head _)))
    constructor
    · intro hs
      obtain ⟨ht, hf⟩ := hs.branches _ _ _ rfl
      exact ⟨htrue.1 ht, hfalse.1 hf⟩
    · rintro ⟨ht, hf⟩
      refine ⟨fun _ _ _ hk => ?_, fun _ hk => ?_, fun _ => rfl⟩
      · cases hk
        exact ⟨htrue.2 ht, hfalse.2 hf⟩
      · cases hk
  | map body inputs =>
    refine ⟨fun hs => hs.bodies body rfl,
      fun hp => ⟨fun _ _ _ hk => ?_, fun _ _ => hp, fun hk => ?_⟩⟩
    · cases hk
    · rcases hk with ⟨_, hk⟩ | ⟨_, hk⟩ | ⟨_, _, _, hk⟩
      · cases hk
      · cases hk
      · cases hk
  | input | const | eagerIfElse =>
    refine ⟨fun _ => trivial, fun _ => ⟨fun _ _ _ hk => ?_, fun _ hk => ?_, fun _ => rfl⟩⟩
    · cases hk
    · cases hk
  | func | eval | loop | output =>
    refine ⟨fun _ => trivial, fun _ => ⟨fun _ _ _ hk => ?_, fun _ hk => ?_, fun hk => ?_⟩⟩
    · cases hk
    · cases hk
    · rcases hk with ⟨_, hk⟩ | ⟨_, hk⟩ | ⟨_, _, _, hk⟩
      · cases hk
      · cases hk
      · cases hk

end Method

/-- A graph and what can be referred to in it. -/
structure Script (V : Type) where
  graph : GraphData V := {}
  refs : Set ValueRef := ∅

inductive Script.Turn : Script V → Method V × Kwargs → Script V → Prop
  | call {s : Script V} {m : Method V} {kwargs : Kwargs} {idx : Int} {g : GraphData V}
      (hrefs : ∀ r ∈ m.node.references, r ∈ s.refs ∨ r = selfRef)
      (hadd : s.graph.add m.node kwargs = (.ok idx, g)) :
      Turn s (m, kwargs) { graph := g, refs := s.refs ∪ m.returned idx }

namespace Script

/-- The nodes are those of the calls. What can be referred to are ports of nodes that give
outputs, and every reference is recorded. -/
structure Built (l : List (Method V × Kwargs)) (s : Script V) : Prop where
  cores : s.graph.cores = l.map fun t => (t.1.node.kind, t.1.node.inputs)
  given : ∀ t ∈ l, ∀ r ∈ t.1.node.references, 0 ≤ r.1 ∨ r = selfRef
  leads : ∀ r ∈ s.refs, s.graph.Leads r
  recording : s.graph.Recording

variable {s s' : Script V} {l l' : List (Method V × Kwargs)} {t : Method V × Kwargs}

theorem built_empty : Built [] ({} : Script V) := by
  refine ⟨rfl, fun t ht => ?_, fun r hr => ?_, fun i node hn => ?_⟩
  · cases ht
  · exact absurd hr (Set.notMem_empty r)
  · cases hn

/-- A call keeps all references recorded, and what it returns leads to its node. -/
theorem call_spec {g g' : GraphData V} {refs : Set ValueRef} {m : Method V} {kwargs : Kwargs}
    {idx : Int} (hrecording : g.Recording) (hleads : ∀ r ∈ refs, g.Leads r)
    (hrefs : ∀ r ∈ m.node.references, r ∈ refs ∨ r = selfRef)
    (hadd : g.add m.node kwargs = (.ok idx, g')) :
    g'.Recording ∧ ∀ r ∈ refs ∪ m.returned idx, g'.Leads r := by
  obtain ⟨rfl, hrecording'⟩ := recording_add hadd m.outputs_node
    (fun r hr => (hrefs r hr).imp_left (hleads r)) hrecording
  refine ⟨hrecording', ?_⟩
  rintro r (hr | hr)
  · exact (hleads r hr).mono (grows_add hadd)
  · obtain ⟨hidx, hout⟩ := Method.fst_of_returned hr
    exact ⟨_, _, _, hidx, nodeAt?_add hadd, hout⟩

theorem Built.turn (hs : Built l s) (h : Turn s t s') : Built (l ++ [t]) s' := by
  cases h with
  | @call m kwargs idx g hrefs hadd =>
    obtain ⟨hrecording, hleads⟩ := call_spec hs.recording hs.leads hrefs hadd
    refine ⟨?_, fun t ht => ?_, hleads, hrecording⟩
    · rw [cores_add hadd, hs.cores, List.map_append]
      rfl
    · rcases List.mem_append.1 ht with ht | ht
      · exact hs.given t ht
      · cases List.mem_singleton.1 ht
        exact fun r hr => (hrefs r hr).imp_left fun h => (hs.leads r h).nonneg

theorem Built.run (h : Steps Turn s l' s') : ∀ {l : List (Method V × Kwargs)}, Built l s →
    Built (l ++ l') s' := by
  induction h with
  | nil => exact fun hs => by rwa [List.append_nil]
  | cons h _ ih =>
    intro l hs
    rw [List.append_cons]
    exact ih (hs.turn h)

/-- However a script calls the builder, the controller can walk the graph that it has built exactly
where its calls are plain. -/
theorem walkable_iff (h : Steps Turn {} l s) : Walkable s.graph ↔ ∀ t ∈ l, t.1.Plain := by
  have hs : Built l s := built_empty.run h
  have hplain : ∀ t ∈ l, Shape t.1.node.kind t.1.node.inputs ↔ t.1.Plain := fun t ht =>
    Method.shape_iff_plain (hs.given t ht)
  rw [walkable_iff_shape, hs.cores, List.forall_mem_map, and_iff_right hs.recording]
  exact forall₂_congr hplain

/-! ## Two scripts -/

section

/-- The graph that a call leaves and what can be referred to in it. -/
def after (s : Script Unit) (m : Method Unit) : Script Unit where
  graph := (s.graph.add m.node none).2
  refs := s.refs ∪ m.returned s.graph.nodes.length

def funcCall : Method Unit := .func "w.f" ∅

def outputCall : Method Unit := .output (.ofList [("value", (0, "value"))])

def constCall : Method Unit := .const ()

/-- A lazy conditional that evaluates to the graph that it is part of. -/
def selfBranch : Method Unit := .ifElse (0, "value") selfRef (0, "value")

theorem func_output_steps : Steps Turn {} [(funcCall, none), (outputCall, none)]
    (after (after {} funcCall) outputCall) := by
  refine .cons (.call (fun r hr => ?_) rfl) (.cons (.call (fun r hr => ?_) rfl) (.nil _))
  · cases hr
  · cases List.mem_singleton.1 hr
    exact .inl (.inr rfl)

theorem const_ifElse_steps : Steps Turn {} [(constCall, none), (selfBranch, none)]
    (after (after {} constCall) selfBranch) := by
  have hconst : ((0 : Int), "value") ∈ (after {} constCall).refs := .inr rfl
  refine .cons (.call (fun r hr => ?_) rfl) (.cons (.call (fun r hr => ?_) rfl) (.nil _))
  · cases hr
  · rcases hr with _ | ⟨_, _ | ⟨_, _ | ⟨_, hr⟩⟩⟩
    · exact .inl hconst
    · exact .inr rfl
    · exact .inl hconst
    · cases hr

theorem walkable_func_output : Walkable (after (after {} funcCall) outputCall).graph ∧
    ¬ Walkable (after (after {} constCall) selfBranch).graph := by
  constructor
  · refine (walkable_iff func_output_steps).2 fun t ht => ?_
    rcases ht with _ | ⟨_, _ | ⟨_, ht⟩⟩
    · trivial
    · trivial
    · cases ht
  · intro h
    exact ((walkable_iff const_ifElse_steps).1 h _ (.tail _ (.head _))).1 rfl

end

end Script

end Tierkreis.Controller
