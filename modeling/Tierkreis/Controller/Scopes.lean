import Tierkreis.Controller.GraphEdges
import Tierkreis.Controller.Run

/-!
# Where graphs are evaluated

The graphs that a run evaluates, each at its location: the root, the graph of an
eval node, the rounds of a loop and the elements of a map. What is evaluated
where, and what a location has to hold in the end, depends on the graph and its
inputs alone, not on the order of the run.
-/

namespace Tierkreis.Controller

open Lib Lib.StateExcept

variable {V : Type}

/-! ## Meaning at any depth -/

/-- What a graph gives, however deep its evaluations are. -/
def GraphDenotes (W : Interpretation V) (g : GraphData V) (env outs : PortValues) : Prop :=
  ∃ depth, GraphGives W depth g env outs

/-- What a reference means in a graph. -/
abbrev Means (W : Interpretation V) (g : GraphData V) (env : PortValues) : ValueRef → Arg → Prop :=
  Gives W (GraphDenotes W) g env

theorem GraphDenotes.unique {W : Interpretation V} (g : GraphData V) (env outs outs' : PortValues)
    (h : GraphDenotes W g env outs) (h' : GraphDenotes W g env outs') : outs = outs' := by
  obtain ⟨depth, h⟩ := h
  obtain ⟨depth', h'⟩ := h'
  exact GraphGives.unique W depth depth' g env outs outs' h h'

theorem Means.unique {W : Interpretation V} {g : GraphData V} {env : PortValues} {r : ValueRef}
    {a a' : Arg} (h : Means W g env r a) (h' : Means W g env r a') : a = a' :=
  Gives.unique GraphDenotes.unique h h'

/-- The output node gives what the graph does. -/
theorem GraphDenotes.output {W : Interpretation V} {g : GraphData V} {env outs : PortValues}
    (h : GraphDenotes W g env outs) : ∃ (i : Nat) (inputs : HashMap PortID ValueRef),
      g.graphOutputIdx = some (i : Int) ∧ g.nodeAt? i = some (.output, inputs) ∧
        Values (Means W g env) inputs outs := by
  obtain ⟨depth, h⟩ := h
  cases depth with
  | zero => exact h.elim
  | succ depth =>
    obtain ⟨i, inputs, hi, hn, hv⟩ := h
    refine ⟨i, inputs, hi, hn, hv.imp fun _ _ he => ⟨he.1, ?_⟩⟩
    exact he.2.mono (fun _ _ _ h => ⟨depth, h⟩) fun _ _ h => h

/-- What the node at an index gives. -/
inductive NodeMeans (W : Interpretation V) (g : GraphData V) (env : PortValues) (i : Nat) :
    PortValues → Prop
  | input {name : String} {inputs : HashMap PortID ValueRef} {bs : Bytes}
      (hn : g.nodeAt? i = some (.input name, inputs)) (h : env.get? name = some bs) :
      NodeMeans W g env i (.ofList [(name, bs)])
  | node {kind : NodeKind V} {inputs : HashMap PortID ValueRef} {outs : PortValues}
      (hn : g.nodeAt? i = some (kind, inputs))
      (h : NodeGives W (GraphDenotes W) (Means W g env) inputs kind outs) :
      NodeMeans W g env i outs

section

variable {W : Interpretation V} {g : GraphData V} {env outs outs' : PortValues} {i : Nat}
  {kind : NodeKind V} {inputs : HashMap PortID ValueRef}

theorem NodeMeans.unique (h : NodeMeans W g env i outs) (h' : NodeMeans W g env i outs') :
    outs = outs' := by
  cases h with
  | input hn h =>
    cases h' with
    | input hn' h' =>
      cases hn.symm.trans hn'
      cases h.symm.trans h'
      rfl
    | node hn' h' =>
      cases hn.symm.trans hn'
      exact h'.elim
  | node hn h =>
    cases h' with
    | input hn' h' =>
      cases hn.symm.trans hn'
      exact h.elim
    | node hn' h' =>
      cases hn.symm.trans hn'
      exact NodeGives.unique
        (fun r a a' (h : Means W g env r a) (h' : Means W g env r a') => h.unique h')
        GraphDenotes.unique h h'

theorem NodeMeans.gives (h : NodeMeans W g env i outs) (hn : g.nodeAt? i = some (kind, inputs))
    (hk : ∀ name, kind ≠ .input name) :
    NodeGives W (GraphDenotes W) (Means W g env) inputs kind outs := by
  cases h with
  | input hn' _ =>
    cases hn.symm.trans hn'
    exact absurd rfl (hk _)
  | node hn' h =>
    cases hn.symm.trans hn'
    exact h

/-- A node whose references mean more gives the same. -/
theorem NodeGives.weaken {E : GraphData V → PortValues → PortValues → Prop}
    {look look' : ValueRef → Arg → Prop} (hl : ∀ r a, look r a → look' r a)
    (h : NodeGives W E look inputs kind outs) : NodeGives W E look' inputs kind outs := by
  have hk : ∀ name, kind ≠ .input name := by
    rintro name rfl
    exact h
  refine h.transport (kindRel_refl (R := Eq) (fun _ => rfl) hk)
    (List.forall₂_same.2 fun _ _ => ⟨rfl, rfl⟩) ?_ ?_ fun _ _ _ h => h
  · rintro r _ rfl
    rfl
  · rintro r _ a rfl h
    exact hl r a h

/-- What a reference means is in the values of its scope or in the outputs of its node. -/
theorem means_cases {r : ValueRef} {a : Arg} (h : Means W g env r a) :
    (r.1 = -1 ∧ readPort env r.2 = some a) ∨
      ∃ (i : Nat) (outs : PortValues), r.1 = i ∧ NodeMeans W g env i outs ∧
        readPort outs r.2 = some a := by
  cases h with
  | scope h => exact .inl ⟨rfl, h⟩
  | input hn h ha => exact .inr ⟨_, _, rfl, .input hn h, ha⟩
  | node hn hlook h ha => exact .inr ⟨_, _, rfl, .node hn (h.weaken hlook), ha⟩

end

/-! ## Demand -/

/-- What a node needs: of a lazy conditional, the branch that is selected. -/
inductive Needs (W : Interpretation V) (g : GraphData V) (env : PortValues) (node : NodeDef V) :
    ValueRef → Prop
  | waits {r : ValueRef} (h : r ∈ node.waitsFor) : Needs W g env node r
  | branch {pred ifTrue ifFalse : ValueRef} {p : Bytes} (hk : node.kind = .ifelse pred ifTrue ifFalse)
      (hp : Means W g env pred (.value p)) : Needs W g env node (selected p ifTrue ifFalse)

/-- The nodes that the output of a graph needs. -/
inductive Demanded (W : Interpretation V) (g : GraphData V) (env : PortValues) : Nat → Prop
  | output {i : Nat} (h : g.graphOutputIdx = some (i : Int)) : Demanded W g env i
  | input {i j : Nat} {node : NodeDef V} {port : PortID} (h : Demanded W g env i)
      (hn : g.nodes[i]? = some node) (hr : Needs W g env node ((j : Int), port)) :
      Demanded W g env j

/-- What the controller relies on in a graph. -/
structure Walkable (g : GraphData V) : Prop where
  /-- Every edge leads to a port of a node that gives outputs. -/
  recorded : ∀ (i : Nat) node, g.nodes[i]? = some node → ∀ (j : Nat) port,
    ((j : Int), port) ∈ node.edges → ∃ source, g.nodes[j]? = some source ∧
      source.kind.isOutput = false ∧ port ∈ portsOf source.outputs
  branches : ∀ (i : Nat) node, g.nodes[i]? = some node → ∀ pred ifTrue ifFalse,
    node.kind = .ifelse pred ifTrue ifFalse → 0 ≤ ifTrue.1 ∧ 0 ≤ ifFalse.1
  /-- The body of a map is no input of it. -/
  bodies : ∀ (i : Nat) node, g.nodes[i]? = some node → ∀ body, node.kind = .map body →
    node.inputs.get? "body" = none
  /-- What these nodes need are their fields. -/
  fields : ∀ (i : Nat) node, g.nodes[i]? = some node →
    (∃ value, node.kind = .const value) ∨ (∃ name, node.kind = .input name) ∨
      (∃ pred ifTrue ifFalse, node.kind = .eifelse pred ifTrue ifFalse) → node.inputs = ∅

/-- What a node of `g` has to be for the graph to be walkable. -/
def GraphData.checkNode (g : GraphData V) (node : NodeDef V) : Bool :=
  (node.edges.all fun r => decide (r.1 < 0) || (g.nodes[r.1.toNat]?).any fun source =>
    !source.kind.isOutput && (portsOf source.outputs).contains r.2) &&
  match node.kind with
  | .ifelse _ ifTrue ifFalse => decide (0 ≤ ifTrue.1) && decide (0 ≤ ifFalse.1)
  | .map _ => (node.inputs.get? "body").isNone
  | .const _ | .input _ | .eifelse _ _ _ => node.inputs.toList.isEmpty
  | _ => true

theorem walkable_of_check {g : GraphData V} (h : g.nodes.all g.checkNode = true) : Walkable g := by
  have hnode : ∀ (i : Nat) node, g.nodes[i]? = some node → g.checkNode node = true :=
    fun i node hi => List.all_eq_true.1 h node (List.mem_of_getElem? hi)
  refine ⟨fun i node hi j port hr => ?_, fun i node hi pred ifTrue ifFalse hk => ?_,
    fun i node hi body hk => ?_, fun i node hi hk => ?_⟩
  · have hedge := List.all_eq_true.1 (Bool.and_eq_true_iff.1 (hnode i node hi)).1 _ hr
    rw [Bool.or_eq_true, decide_eq_true_eq] at hedge
    have hsource := hedge.resolve_left (by simp)
    rw [Int.toNat_natCast] at hsource
    cases hs : g.nodes[j]? with
    | none => simp [hs] at hsource
    | some source =>
      rw [hs, Option.any_some, Bool.and_eq_true, Bool.not_eq_true'] at hsource
      exact ⟨source, rfl, hsource.1, List.contains_iff_mem.1 hsource.2⟩
  · have hrest := (Bool.and_eq_true_iff.1 (hnode i node hi)).2
    rw [hk] at hrest
    simpa using hrest
  · have hrest := (Bool.and_eq_true_iff.1 (hnode i node hi)).2
    rw [hk] at hrest
    simpa using hrest
  · have hrest := (Bool.and_eq_true_iff.1 (hnode i node hi)).2
    rcases hk with ⟨_, hk⟩ | ⟨_, hk⟩ | ⟨_, _, _, hk⟩
    · rw [hk] at hrest
      exact HashMap.toList_inj (List.isEmpty_iff.1 hrest)
    · rw [hk] at hrest
      exact HashMap.toList_inj (List.isEmpty_iff.1 hrest)
    · rw [hk] at hrest
      exact HashMap.toList_inj (List.isEmpty_iff.1 hrest)

theorem nodeAt?_of_getElem? {g : GraphData V} {i : Nat} {node : NodeDef V}
    (h : g.nodes[i]? = some node) : g.nodeAt? i = some (node.kind, node.inputs) := by
  rw [GraphData.nodeAt?, h]
  rfl

/-! ## Edges -/

theorem get?_inEdges_field {node : NodeDef V} {e : PortID × ValueRef} (h : e ∈ node.kind.fieldEdges) :
    node.inEdges.get? e.1 = some e.2 :=
  HashMap.get?_foldl_insert_of_mem (NodeDef.nodup_fieldEdges node.kind) h node.inputs

theorem get?_inEdges_input {node : NodeDef V} {port : PortID}
    (h : port ∉ node.kind.fieldEdges.map Prod.fst) :
    node.inEdges.get? port = node.inputs.get? port :=
  HashMap.get?_ofList_cons_notMem h

theorem mem_edges_field {node : NodeDef V} (port : PortID) {r : ValueRef}
    (h : (port, r) ∈ node.kind.fieldEdges) : r ∈ node.edges :=
  List.mem_map_of_mem (HashMap.get?_eq_some_iff.1 (get?_inEdges_field h))

theorem mem_edges_input {node : NodeDef V} {port : PortID} {r : ValueRef}
    (hport : port ∉ node.kind.fieldEdges.map Prod.fst) (h : node.inputs.get? port = some r) :
    r ∈ node.edges :=
  List.mem_map_of_mem (HashMap.get?_eq_some_iff.1 ((get?_inEdges_input hport).trans h))

/-- An edge is a field of the node, or an input under the port of none. -/
theorem edges_cases {node : NodeDef V} {r : ValueRef} (h : r ∈ node.edges) :
    (∃ port, (port, r) ∈ node.kind.fieldEdges) ∨
      ∃ port, port ∉ node.kind.fieldEdges.map Prod.fst ∧ node.inputs.get? port = some r := by
  obtain ⟨⟨port, r⟩, he, rfl⟩ := List.mem_map.1 h
  have hget := HashMap.get?_eq_some_iff.2 he
  by_cases hport : port ∈ node.kind.fieldEdges.map Prod.fst
  · obtain ⟨⟨_, r'⟩, he', rfl⟩ := List.mem_map.1 hport
    have heq : some r' = some r := (get?_inEdges_field he').symm.trans hget
    cases heq
    exact .inl ⟨_, he'⟩
  · exact .inr ⟨port, hport, (get?_inEdges_input hport).symm.trans hget⟩

theorem waitsFor_of_not_ifelse {node : NodeDef V}
    (h : ∀ pred ifTrue ifFalse, node.kind ≠ .ifelse pred ifTrue ifFalse) :
    node.waitsFor = node.edges := by
  unfold NodeDef.waitsFor
  split
  · rename_i hk
    exact absurd hk (h _ _ _)
  · rfl

theorem waitsFor_ifelse {node : NodeDef V} {pred ifTrue ifFalse : ValueRef}
    (h : node.kind = .ifelse pred ifTrue ifFalse) : node.waitsFor = [pred] := by
  unfold NodeDef.waitsFor
  rw [h]

theorem Needs.edge {W : Interpretation V} {g : GraphData V} {env : PortValues} {node : NodeDef V}
    {r : ValueRef} (h : Needs W g env node r) : r ∈ node.edges := by
  cases h with
  | waits h =>
    by_cases hk : ∃ pred ifTrue ifFalse, node.kind = .ifelse pred ifTrue ifFalse
    · obtain ⟨pred, ifTrue, ifFalse, hk⟩ := hk
      rw [waitsFor_ifelse hk] at h
      cases List.mem_singleton.1 h
      exact mem_edges_field "pred" (by simp [hk, NodeKind.fieldEdges])
    · rw [waitsFor_of_not_ifelse fun _ _ _ h => hk ⟨_, _, _, h⟩] at h
      exact h
  | @branch pred ifTrue ifFalse p hk hp =>
    unfold selected
    split
    · exact mem_edges_field "if_true" (by simp [hk, NodeKind.fieldEdges])
    · exact mem_edges_field "if_false" (by simp [hk, NodeKind.fieldEdges])

/-! ## What is demanded has a meaning -/

section

variable {W : Interpretation V} {g : GraphData V} {env outs : PortValues} {node : NodeDef V}
  {r : ValueRef}

theorem Values.means {look : ValueRef → Arg → Prop} {inputs : HashMap PortID ValueRef}
    {vals : PortValues} (h : Values look inputs vals) {port : PortID}
    (hr : inputs.get? port = some r) : ∃ a, look r a := by
  obtain ⟨bs, -, hlook⟩ := h.get? hr
  exact ⟨_, hlook⟩

theorem Args.means {look : ValueRef → Arg → Prop} {inputs : HashMap PortID ValueRef}
    {args : List (PortID × Arg)} (h : Args look inputs args) {port : PortID}
    (hr : inputs.get? port = some r) : ∃ a, look r a := by
  obtain ⟨a, -, -, hlook⟩ := forall₂_mem_left h (HashMap.get?_eq_some_iff.1 hr)
  exact ⟨_, hlook⟩

/-- What a node needs has a meaning, when the node has. -/
theorem Needs.means {i : Nat} (hg : Walkable g) (hn : g.nodes[i]? = some node)
    (hm : NodeMeans W g env i outs) (h : Needs W g env node r) : ∃ a, Means W g env r a := by
  have hinput : (∃ name, node.kind = .input name) → r ∉ node.edges := by
    rintro ⟨name, hk⟩ hr
    rcases edges_cases hr with ⟨port, hport⟩ | ⟨port, -, hport⟩
    · rw [hk] at hport
      cases hport
    · rw [hg.fields i node hn (.inr (.inl ⟨name, hk⟩))] at hport
      cases hport
  have hgives : (∀ name, node.kind ≠ .input name) →
      NodeGives W (GraphDenotes W) (Means W g env) node.inputs node.kind outs :=
    hm.gives (nodeAt?_of_getElem? hn)
  have hr := h.edge
  cases hkind : node.kind with
  | input name => exact absurd hr (hinput ⟨name, hkind⟩)
  | function name =>
    obtain ⟨args, hargs, -⟩ := hkind ▸ hgives (by simp [hkind])
    rcases edges_cases hr with ⟨port, hport⟩ | ⟨port, -, hport⟩
    · rw [hkind] at hport
      cases hport
    · exact hargs.means hport
  | eval graph =>
    obtain ⟨vals, bs, body, hvals, hbs, -⟩ := hkind ▸ hgives (by simp [hkind])
    rcases edges_cases hr with ⟨port, hport⟩ | ⟨port, -, hport⟩
    · rw [hkind] at hport
      cases List.mem_singleton.1 hport
      exact ⟨_, hbs⟩
    · exact hvals.means hport
  | loop ref continuePort name =>
    obtain ⟨vals, bs, body, hvals, hbs, -⟩ := hkind ▸ hgives (by simp [hkind])
    rcases edges_cases hr with ⟨port, hport⟩ | ⟨port, -, hport⟩
    · rw [hkind] at hport
      cases List.mem_singleton.1 hport
      exact ⟨_, hbs⟩
    · exact hvals.means hport
  | map ref =>
    obtain ⟨args, _, _, bs, body, _, hargs, -, -, -, hbs, -⟩ := hkind ▸ hgives (by simp [hkind])
    rcases edges_cases hr with ⟨port, hport⟩ | ⟨port, -, hport⟩
    · rw [hkind] at hport
      cases List.mem_singleton.1 hport
      exact ⟨_, hbs⟩
    · exact hargs.means hport
  | const value =>
    rcases edges_cases hr with ⟨port, hport⟩ | ⟨port, -, hport⟩
    · rw [hkind] at hport
      cases hport
    · rw [hg.fields i node hn (.inl ⟨value, hkind⟩)] at hport
      cases hport
  | ifelse pred ifTrue ifFalse =>
    obtain ⟨p, bs, hp, hbs, -⟩ := hkind ▸ hgives (by simp [hkind])
    cases h with
    | waits h =>
      rw [waitsFor_ifelse hkind] at h
      cases List.mem_singleton.1 h
      exact ⟨_, hp⟩
    | branch hk hp' =>
      cases hkind.symm.trans hk
      cases hp.unique hp'
      exact ⟨_, hbs⟩
  | eifelse pred ifTrue ifFalse =>
    obtain ⟨p, t, f, hp, ht, hf, -⟩ := hkind ▸ hgives (by simp [hkind])
    rcases edges_cases hr with ⟨port, hport⟩ | ⟨port, -, hport⟩
    · rw [hkind] at hport
      simp only [NodeKind.fieldEdges, List.mem_cons, Prod.mk.injEq, List.not_mem_nil, or_false] at hport
      rcases hport with ⟨-, rfl⟩ | ⟨-, rfl⟩ | ⟨-, rfl⟩
      · exact ⟨_, hp⟩
      · exact ⟨_, ht⟩
      · exact ⟨_, hf⟩
    · rw [hg.fields i node hn (.inr (.inr ⟨_, _, _, hkind⟩))] at hport
      cases hport
  | output =>
    have hvals : NodeGives W (GraphDenotes W) (Means W g env) node.inputs .output outs :=
      hkind ▸ hgives (by simp [hkind])
    rcases edges_cases hr with ⟨port, hport⟩ | ⟨port, -, hport⟩
    · rw [hkind] at hport
      cases hport
    · exact Values.means hvals hport

/-- What the output of a graph needs has a meaning, when the graph has. -/
theorem Demanded.means {i : Nat} (hg : Walkable g) (ho : GraphDenotes W g env outs)
    (h : Demanded W g env i) : ∃ node outs, g.nodes[i]? = some node ∧ NodeMeans W g env i outs := by
  induction h with
  | output h =>
    obtain ⟨i', inputs, hi, hn, hv⟩ := ho.output
    cases hi.symm.trans h
    obtain ⟨node, hnode, -, -⟩ := exists_of_nodeAt? hn
    exact ⟨node, outs, hnode, .node hn hv⟩
  | input _ hn hr ih =>
    obtain ⟨node', outs', hn', hm⟩ := ih
    cases hn.symm.trans hn'
    obtain ⟨a, ha⟩ := hr.means hg hn hm
    rcases means_cases ha with ⟨hi, -⟩ | ⟨j, outs, hi, hm, -⟩
    · exact absurd hi (by simp)
    · obtain rfl := Int.ofNat.inj hi
      cases hm with
      | input hn h =>
        obtain ⟨node, hnode, -, -⟩ := exists_of_nodeAt? hn
        exact ⟨node, _, hnode, .input hn h⟩
      | node hn h =>
        obtain ⟨node, hnode, -, -⟩ := exists_of_nodeAt? hn
        exact ⟨node, _, hnode, .node hn h⟩

end

/-! ## The tree of scopes -/

/-- A graph with its inputs, and what it gives. -/
structure Frame (V : Type) where
  graph : GraphData V
  env : PortValues
  outs : PortValues

/-- The inputs of the rounds of a loop, from the first on. -/
inductive Reached (W : Interpretation V) (g : GraphData V) (body : Bytes) (continuePort : PortID)
    (ports : List PortID) (start : PortValues) : Nat → PortValues → Prop
  | first : Reached W g body continuePort ports start 0 start
  | next {n : Nat} {ins outs : PortValues} (h : Reached W g body continuePort ports start n ins)
      (ho : GraphDenotes W g ins outs)
      (hc : (outs.get? continuePort).bind W.shouldContinue = some true) :
      Reached W g body continuePort ports start (n + 1) (nextInputs ports body ins outs)

/-- A loop node, with its body and the inputs of its first round. -/
structure LoopData (W : Interpretation V) (F : Frame V) (node : NodeDef V) (continuePort : PortID)
    (bs : Bytes) (body : GraphData V) (start : PortValues) : Prop where
  means : ∃ ref name vals, node.kind = .loop ref continuePort name ∧
    Values (Means W F.graph F.env) node.inputs vals ∧ Means W F.graph F.env ref (.value bs) ∧
    start = vals.insert "body" bs
  graph : W.graphOf bs = some body

/-- A map node, with its body and the elements that it maps over. -/
structure MapData (W : Interpretation V) (F : Frame V) (node : NodeDef V) (bs : Bytes)
    (body : GraphData V) (family : List (PortID × Bytes)) : Prop where
  means : ∃ ref first, node.kind = .map ref ∧ firstRef node.inputs = .ok first ∧
    Means W F.graph F.env first (.family family) ∧ Means W F.graph F.env ref (.value bs)
  numbered : Numbered family
  graph : W.graphOf bs = some body

section Tree

variable (W : Interpretation V) (g₀ : GraphData V) (env₀ : PortValues)

/-- What is evaluated at a location. -/
inductive Scope : Loc → Frame V → Prop
  | root {outs : PortValues} (ho : GraphDenotes W g₀ env₀ outs) : Scope Loc.root ⟨g₀, env₀, outs⟩
  | eval {c : Loc} {F : Frame V} {i : Nat} {node : NodeDef V} {ref : ValueRef} {vals outs : PortValues}
      {bs : Bytes} {body : GraphData V} (h : Scope c F) (hd : Demanded W F.graph F.env i)
      (hn : F.graph.nodes[i]? = some node) (hk : node.kind = .eval ref)
      (hv : Values (Means W F.graph F.env) node.inputs vals)
      (hb : Means W F.graph F.env ref (.value bs)) (hg : W.graphOf bs = some body)
      (ho : GraphDenotes W body (vals.insert "body" bs) outs) :
      Scope (c.N i) ⟨body, vals.insert "body" bs, outs⟩
  | round {c : Loc} {F : Frame V} {i n : Nat} {node : NodeDef V} {continuePort : PortID} {bs : Bytes}
      {body : GraphData V} {start ins outs : PortValues} (h : Scope c F)
      (hd : Demanded W F.graph F.env i) (hn : F.graph.nodes[i]? = some node)
      (hl : LoopData W F node continuePort bs body start)
      (hr : Reached W body bs continuePort (portsOf node.inputs) start n ins)
      (ho : GraphDenotes W body ins outs) : Scope ((c.N i).L n) ⟨body, ins, outs⟩
  | element {c : Loc} {F : Frame V} {i : Nat} {k : Int} {node : NodeDef V} {bs : Bytes}
      {body : GraphData V} {family : List (PortID × Bytes)} {e : PortID × Bytes}
      {vals outs : PortValues} (h : Scope c F) (hd : Demanded W F.graph F.env i)
      (hn : F.graph.nodes[i]? = some node) (hm : MapData W F node bs body family)
      (he : e ∈ family) (hk : pyInt (lastPart e.1) = .ok k)
      (hv : ElementValues (Means W F.graph F.env) node.inputs e.1 vals)
      (ho : GraphDenotes W body ((HashMap.ofList [("body", bs)]).extend vals) outs) :
      Scope ((c.N i).M k) ⟨body, (HashMap.ofList [("body", bs)]).extend vals, outs⟩

/-- A node that the output of its graph needs, and its graph. -/
structure NodeAt (c : Loc) (F : Frame V) (i : Nat) (node : NodeDef V) : Prop where
  scope : Scope W g₀ env₀ c F
  demanded : Demanded W F.graph F.env i
  get : F.graph.nodes[i]? = some node

/-- What a location has to hold in the end. -/
inductive Holds : Loc → PortValues → Prop
  | given : Holds (Loc.empty.N (-1)) env₀
  | inputs {c : Loc} {F : Frame V} (h : Scope W g₀ env₀ c F) : Holds (c.N (-1)) F.env
  | loop {c : Loc} {F : Frame V} {i : Nat} {node : NodeDef V} {continuePort : PortID} {bs : Bytes}
      {body : GraphData V} {start : PortValues} (h : NodeAt W g₀ env₀ c F i node)
      (hl : LoopData W F node continuePort bs body start) : Holds ((c.N i).N (-1)) start
  | node {c : Loc} {F : Frame V} {i : Nat} {node : NodeDef V} {outs : PortValues}
      (h : NodeAt W g₀ env₀ c F i node) (hm : NodeMeans W F.graph F.env i outs) : Holds (c.N i) outs
  | scope {c : Loc} {F : Frame V} (h : Scope W g₀ env₀ c F) : Holds c F.outs

end Tree

/-! ## One meaning for each location -/

theorem Reached.unique {W : Interpretation V} {g : GraphData V} {body : Bytes}
    {continuePort : PortID} {ports : List PortID} {start ins ins' : PortValues} {n : Nat}
    (h : Reached W g body continuePort ports start n ins)
    (h' : Reached W g body continuePort ports start n ins') : ins = ins' := by
  induction h generalizing ins' with
  | first =>
    cases h' with
    | first => rfl
  | next _ ho _ ih =>
    cases h' with
    | next h' ho' _ =>
      cases ih h'
      cases GraphDenotes.unique _ _ _ _ ho ho'
      rfl

section

variable {W : Interpretation V} {F : Frame V} {node : NodeDef V} {bs bs' : Bytes}
  {body body' : GraphData V}

theorem LoopData.unique {continuePort continuePort' : PortID} {start start' : PortValues}
    (h : LoopData W F node continuePort bs body start)
    (h' : LoopData W F node continuePort' bs' body' start') :
    continuePort = continuePort' ∧ bs = bs' ∧ body = body' ∧ start = start' := by
  obtain ⟨⟨ref, name, vals, hk, hv, hb, rfl⟩, hg⟩ := h
  obtain ⟨⟨ref', name', vals', hk', hv', hb', rfl⟩, hg'⟩ := h'
  cases hk.symm.trans hk'
  cases Values.unique (fun r a a' (h : Means W F.graph F.env r a) h' => h.unique h') hv hv'
  cases hb.unique hb'
  cases hg.symm.trans hg'
  exact ⟨rfl, rfl, rfl, rfl⟩

theorem MapData.unique {family family' : List (PortID × Bytes)}
    (h : MapData W F node bs body family) (h' : MapData W F node bs' body' family') :
    bs = bs' ∧ body = body' ∧ family = family' := by
  obtain ⟨⟨ref, first, hk, hfirst, hf, hb⟩, -, hg⟩ := h
  obtain ⟨⟨ref', first', hk', hfirst', hf', hb'⟩, -, hg'⟩ := h'
  cases hk.symm.trans hk'
  cases hfirst.symm.trans hfirst'
  cases hf.unique hf'
  cases hb.unique hb'
  cases hg.symm.trans hg'
  exact ⟨rfl, rfl, rfl⟩

/-- The number of an element tells which it is. -/
theorem Numbered.unique {family : List (PortID × Bytes)} (h : Numbered family)
    {e e' : PortID × Bytes} {k : Int} (he : e ∈ family) (he' : e' ∈ family)
    (hk : pyInt (lastPart e.1) = .ok k) (hk' : pyInt (lastPart e'.1) = .ok k) : e = e' := by
  obtain ⟨numbers, hall, hnodup, -⟩ := h
  induction hall with
  | nil => cases he
  | cons hn hall ih =>
    obtain ⟨hnot, hnodup⟩ := List.nodup_cons.1 hnodup
    rcases List.mem_cons.1 he with rfl | hrest
    · rcases List.mem_cons.1 he' with rfl | hrest'
      · rfl
      · obtain ⟨k', hin, hk''⟩ := forall₂_mem_left hall hrest'
        cases hn.symm.trans hk
        cases hk''.symm.trans hk'
        exact absurd hin hnot
    · rcases List.mem_cons.1 he' with rfl | hrest'
      · obtain ⟨k', hin, hk''⟩ := forall₂_mem_left hall hrest
        cases hn.symm.trans hk'
        cases hk''.symm.trans hk
        exact absurd hin hnot
      · exact ih hrest hrest' hnodup

end

section Unique

variable {W : Interpretation V} {g₀ : GraphData V} {env₀ : PortValues}

theorem Scope.dash {c : Loc} {F : Frame V} (h : Scope W g₀ env₀ c F) : c.dash = true := by
  induction h with
  | root => rfl
  | eval _ _ _ _ _ _ _ _ ih => exact ih
  | round _ _ _ _ _ _ ih => exact ih
  | element _ _ _ _ _ _ _ _ ih => exact ih

/-- A location is that of one evaluation. -/
theorem Scope.unique {c : Loc} {F F' : Frame V} (h : Scope W g₀ env₀ c F)
    (h' : Scope W g₀ env₀ c F') : F = F' := by
  induction h generalizing F' with
  | root ho =>
    generalize hc : Loc.root = c at h'
    cases h' with
    | root ho' =>
      cases GraphDenotes.unique _ _ _ _ ho ho'
      rfl
    | eval => exact absurd hc.symm Loc.append_ne_root
    | round => exact absurd hc.symm Loc.append_ne_root
    | element => exact absurd hc.symm Loc.append_ne_root
  | @eval c F i node ref vals outs bs body h hd hn hk hv hb hg ho ih =>
    generalize hc : c.N i = c' at h'
    cases h' with
    | root ho' => exact absurd hc Loc.append_ne_root
    | eval h' hd' hn' hk' hv' hb' hg' ho' =>
      obtain ⟨rfl, hi⟩ := Loc.N_eq_N hc
      obtain rfl := Int.ofNat.inj hi
      cases ih h'
      cases hn.symm.trans hn'
      cases hk.symm.trans hk'
      cases Values.unique (fun r a a' (h : Means W F.graph F.env r a) h' => h.unique h') hv hv'
      cases hb.unique hb'
      cases hg.symm.trans hg'
      cases GraphDenotes.unique _ _ _ _ ho ho'
      rfl
    | round => cases (Loc.append_eq_append hc).2
    | element => cases (Loc.append_eq_append hc).2
  | @round c F i n node port bs body start ins outs h hd hn hl hr ho ih =>
    generalize hc : (c.N i).L n = c' at h'
    cases h' with
    | root ho' => exact absurd hc Loc.append_ne_root
    | eval => cases (Loc.append_eq_append hc).2
    | round h' hd' hn' hl' hr' ho' =>
      obtain ⟨hnode, hj⟩ := Loc.L_eq_L hc
      obtain ⟨rfl, hi⟩ := Loc.N_eq_N hnode
      obtain rfl := Int.ofNat.inj hi
      obtain rfl := Int.ofNat.inj hj
      cases ih h'
      cases hn.symm.trans hn'
      obtain ⟨rfl, rfl, rfl, rfl⟩ := hl.unique hl'
      cases hr.unique hr'
      cases GraphDenotes.unique _ _ _ _ ho ho'
      rfl
    | element => cases (Loc.append_eq_append hc).2
  | @element c F i k node bs body family e vals outs h hd hn hm he hk hv ho ih =>
    generalize hc : (c.N i).M k = c' at h'
    cases h' with
    | root ho' => exact absurd hc Loc.append_ne_root
    | eval => cases (Loc.append_eq_append hc).2
    | round => cases (Loc.append_eq_append hc).2
    | element h' hd' hn' hm' he' hk' hv' ho' =>
      obtain ⟨hnode, rfl⟩ := Loc.M_eq_M hc
      obtain ⟨rfl, hi⟩ := Loc.N_eq_N hnode
      obtain rfl := Int.ofNat.inj hi
      cases ih h'
      cases hn.symm.trans hn'
      obtain ⟨rfl, rfl, rfl⟩ := hm.unique hm'
      cases hm.numbered.unique he he' hk hk'
      cases ElementValues.unique (fun r a a' (h : Means W F.graph F.env r a) h' => h.unique h') hv hv'
      cases GraphDenotes.unique _ _ _ _ ho ho'
      rfl

theorem NodeAt.unique {c c' : Loc} {F F' : Frame V} {i j : Nat} {node node' : NodeDef V}
    (h : NodeAt W g₀ env₀ c F i node) (h' : NodeAt W g₀ env₀ c' F' j node') (hloc : c.N i = c'.N j) :
    c = c' ∧ F = F' ∧ i = j ∧ node = node' := by
  obtain ⟨rfl, hi⟩ := Loc.N_eq_N hloc
  obtain rfl := Int.ofNat.inj hi
  cases h.scope.unique h'.scope
  cases h.get.symm.trans h'.get
  exact ⟨rfl, rfl, rfl, rfl⟩

/-- The scope at a node is that of an eval node. -/
theorem NodeAt.scope_eval {c : Loc} {F F' : Frame V} {i : Nat} {node : NodeDef V}
    (h : NodeAt W g₀ env₀ c F i node) (h' : Scope W g₀ env₀ (c.N i) F') :
    (∃ ref, node.kind = .eval ref) ∧ NodeMeans W F.graph F.env i F'.outs := by
  generalize hc : c.N i = c' at h'
  cases h' with
  | root => exact absurd hc Loc.append_ne_root
  | eval h' hd' hn' hk' hv' hb' hg' ho' =>
    obtain ⟨rfl, rfl, rfl, rfl⟩ := h.unique ⟨h', hd', hn'⟩ hc
    refine ⟨⟨_, hk'⟩, .node (nodeAt?_of_getElem? hn') ?_⟩
    rw [hk']
    exact ⟨_, _, _, hv', hb', hg', ho'⟩
  | round => cases (Loc.append_eq_append hc).2
  | element => cases (Loc.append_eq_append hc).2

theorem Scope.ne_input {c c' : Loc} {F : Frame V} (h : Scope W g₀ env₀ c F) : c ≠ c'.N (-1) := by
  intro hc
  cases h with
  | root => exact absurd hc.symm Loc.append_ne_root
  | eval => exact Loc.N_natCast_ne hc
  | round => cases (Loc.append_eq_append hc).2
  | element => cases (Loc.append_eq_append hc).2

/-- A location has to hold one thing. -/
theorem Holds.unique {loc : Loc} {outs outs' : PortValues} (h : Holds W g₀ env₀ loc outs)
    (h' : Holds W g₀ env₀ loc outs') : outs = outs' := by
  have hdash : ∀ {c : Loc} {s s' : Step}, c.dash = true → Loc.empty.append s ≠ c.append s' := by
    intro c s s' hc heq
    rw [← (Loc.append_eq_append heq).1] at hc
    cases hc
  have hloop : ∀ {c : Loc} {F F' : Frame V} {i : Nat} {node : NodeDef V} {port : PortID} {bs : Bytes}
      {body : GraphData V} {start : PortValues}, NodeAt W g₀ env₀ c F i node →
      LoopData W F node port bs body start → ¬ Scope W g₀ env₀ (c.N i) F' := by
    intro c F F' i node port bs body start hn hl hs
    obtain ⟨⟨ref, hk⟩, -⟩ := hn.scope_eval hs
    obtain ⟨ref', name, vals, hk', -⟩ := hl.means
    cases hk.symm.trans hk'
  cases h with
  | given =>
    generalize hc : Loc.empty.N (-1) = loc at h'
    cases h' with
    | given => rfl
    | inputs h' => exact absurd hc (hdash h'.dash)
    | loop h' _ => exact absurd hc (hdash h'.scope.dash)
    | node h' _ => exact absurd hc (hdash h'.scope.dash)
    | scope h' => exact absurd hc.symm h'.ne_input
  | @inputs c F h =>
    generalize hc : c.N (-1) = loc at h'
    cases h' with
    | given => exact absurd hc.symm (hdash h.dash)
    | inputs h' =>
      obtain ⟨rfl, -⟩ := Loc.N_eq_N hc
      rw [h.unique h']
    | loop h' hl' =>
      obtain ⟨rfl, -⟩ := Loc.N_eq_N hc
      exact absurd h (hloop h' hl')
    | node h' _ => exact absurd hc.symm Loc.N_natCast_ne
    | scope h' => exact absurd hc.symm h'.ne_input
  | @loop c F i node port bs body start h hl =>
    generalize hc : (c.N i).N (-1) = loc at h'
    cases h' with
    | given => exact absurd hc.symm (hdash h.scope.dash)
    | inputs h' =>
      obtain ⟨rfl, -⟩ := Loc.N_eq_N hc
      exact absurd h' (hloop h hl)
    | loop h' hl' =>
      obtain ⟨hnode, -⟩ := Loc.N_eq_N hc
      obtain ⟨rfl, rfl, rfl, rfl⟩ := h.unique h' hnode
      exact (hl.unique hl').2.2.2
    | node h' _ => exact absurd hc.symm Loc.N_natCast_ne
    | scope h' => exact absurd hc.symm h'.ne_input
  | @node c F i node outs h hm =>
    generalize hc : c.N i = loc at h'
    cases h' with
    | given => exact absurd hc.symm (hdash h.scope.dash)
    | inputs h' => exact absurd hc Loc.N_natCast_ne
    | loop h' hl' => exact absurd hc Loc.N_natCast_ne
    | node h' hm' =>
      obtain ⟨rfl, rfl, rfl, rfl⟩ := h.unique h' hc
      exact hm.unique hm'
    | scope h' =>
      subst hc
      exact hm.unique (h.scope_eval h').2
  | scope h =>
    cases h' with
    | given => exact absurd rfl h.ne_input
    | inputs h' => exact absurd rfl h.ne_input
    | loop h' hl' => exact absurd rfl h.ne_input
    | node h' hm' => exact (h'.scope_eval h).2.unique hm'
    | scope h' => rw [h.unique h']

theorem Scope.denotes {c : Loc} {F : Frame V} (h : Scope W g₀ env₀ c F) :
    GraphDenotes W F.graph F.env F.outs := by
  cases h with
  | root ho => exact ho
  | eval _ _ _ _ _ _ _ ho => exact ho
  | round _ _ _ _ _ ho => exact ho
  | element _ _ _ _ _ _ _ ho => exact ho

/-- All graphs that a run evaluates are walkable. -/
def AllWalkable (W : Interpretation V) (g₀ : GraphData V) (env₀ : PortValues) : Prop :=
  ∀ c F, Scope W g₀ env₀ c F → Walkable F.graph

theorem Scope.walkable (hw : AllWalkable W g₀ env₀) {c : Loc} {F : Frame V}
    (h : Scope W g₀ env₀ c F) : Walkable F.graph := hw c F h

/-- So they are when those are that values decode to. -/
theorem allWalkable_of_codec (hg : Walkable g₀)
    (hw : ∀ bs g, W.graphOf bs = some g → Walkable g) : AllWalkable W g₀ env₀ := by
  intro c F h
  cases h with
  | root => exact hg
  | eval _ _ _ _ _ _ hg _ => exact hw _ _ hg
  | round _ _ _ hl _ _ => exact hw _ _ hl.graph
  | element _ _ _ hm _ _ _ _ => exact hw _ _ hm.graph

variable {c : Loc} {F : Frame V} {i : Nat} {node : NodeDef V}

theorem NodeAt.means (hw : AllWalkable W g₀ env₀) (h : NodeAt W g₀ env₀ c F i node) :
    ∃ outs, NodeMeans W F.graph F.env i outs := by
  obtain ⟨node', outs, -, hm⟩ := h.demanded.means (h.scope.walkable hw) h.scope.denotes
  exact ⟨outs, hm⟩

/-- The node that a needed reference leads to. -/
theorem NodeAt.needs (hw : AllWalkable W g₀ env₀) (h : NodeAt W g₀ env₀ c F i node) {j : Nat}
    {port : PortID} (hr : Needs W F.graph F.env node ((j : Int), port)) :
    ∃ source, NodeAt W g₀ env₀ c F j source ∧ source.kind.isOutput = false ∧
      port ∈ portsOf source.outputs := by
  obtain ⟨source, hget, ho, hport⟩ := (h.scope.walkable hw).recorded i node h.get j port hr.edge
  exact ⟨source, ⟨h.scope, .input h.demanded h.get hr, hget⟩, ho, hport⟩

theorem Scope.output (h : Scope W g₀ env₀ c F) : ∃ (o : Nat) (node : NodeDef V),
    F.graph.graphOutputIdx = some (o : Int) ∧ NodeAt W g₀ env₀ c F o node ∧ node.kind = .output ∧
      Values (Means W F.graph F.env) node.inputs F.outs := by
  obtain ⟨o, inputs, ho, hn, hv⟩ := h.denotes.output
  obtain ⟨node, hget, hk, rfl⟩ := exists_of_nodeAt? hn
  exact ⟨o, node, ho, ⟨h, .output ho, hget⟩, hk, hv⟩

end Unique

end Tierkreis.Controller
