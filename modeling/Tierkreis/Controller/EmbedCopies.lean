import Tierkreis.Controller.Embed

/-!
# The copies that embedding makes

`embed` succeeds on the references that it can embed: what they need is in the
graph itself or among the given values. Each new node has the references that
stand for those of the node it was copied from.
-/

namespace Tierkreis.Controller

open Lib Lib.StateExcept

variable {V : Type}

namespace GraphData

/-! ## New nodes -/

theorem core_recordEdges (idx : Int) : ∀ (edges : List ValueRef) (nodes : List (NodeDef V)),
    ((recordEdges idx edges nodes).2.map fun n => (n.kind, n.inputs)) =
      nodes.map fun n => (n.kind, n.inputs)
  | [], _ => rfl
  | (i, port) :: edges, nodes => by
    unfold recordEdges
    cases pyIndex nodes.length i with
    | none => rfl
    | some k =>
      refine (core_recordEdges idx edges _).trans (List.ext_getElem? fun j => ?_)
      rw [List.getElem?_map, List.getElem?_map, List.getElem?_modify]
      cases nodes[j]? with
      | none => rfl
      | some n =>
        by_cases hkj : k = j
        · simp only [hkj]
          rfl
        · simp only [hkj]
          rfl

/-- What there was of nodes there is. -/
def Grows (g g' : GraphData V) : Prop := ∀ i n, g.nodeAt? i = some n → g'.nodeAt? i = some n

theorem Grows.trans {g g' g'' : GraphData V} (h : Grows g g') (h' : Grows g' g'') : Grows g g'' :=
  fun i n hn => h' i n (h i n hn)

theorem lt_of_nodeAt? {g : GraphData V} {i : Nat} {n : NodeKind V × HashMap PortID ValueRef}
    (h : g.nodeAt? i = some n) : i < g.nodes.length := by
  obtain ⟨node, hnode, -⟩ := Option.map_eq_some_iff.1 h
  exact (List.getElem?_eq_some_iff.1 hnode).1

/-- The references of a node. -/
def refsOf (kind : NodeKind V) (inputs : HashMap PortID ValueRef) : List ValueRef :=
  inputs.toList.map Prod.snd ++ kind.fieldEdges.map Prod.snd

/-- The reference to a given value stands for one to an input, that to a copy for one to a node. -/
inductive Represents (other : GraphData V) (ins : HashMap PortID ValueRef) (g : GraphData V) :
    ValueRef → ValueRef → Prop
  | input {i : Nat} {name : String} {inputs : HashMap PortID ValueRef} {r : ValueRef}
      (hn : other.nodeAt? i = some (.input name, inputs)) (hr : ins.get? name = some r) :
      Represents other ins g (i, name) r
  | node {i k : Nat} {kind kind' : NodeKind V} {inputs inputs' : HashMap PortID ValueRef}
      {port : PortID} {R : ValueRef → ValueRef → Prop}
      (hn : other.nodeAt? i = some (kind, inputs)) (hn' : g.nodeAt? k = some (kind', inputs'))
      (hR : ∀ r r', R r r' → Represents other ins g r r') (hk : KindRel R kind kind')
      (hi : InputsRel R inputs inputs') : Represents other ins g (i, port) (k, port)

variable {other g g' : GraphData V} {ins : HashMap PortID ValueRef}

theorem Represents.mono (hg : Grows g g') {r r' : ValueRef} (h : Represents other ins g r r') :
    Represents other ins g' r r' := by
  induction h with
  | input hn hr => exact .input hn hr
  | node hn hn' _ hk hi ih => exact .node hn (hg _ _ hn') ih hk hi

/-- The reference is to the enclosing scope or to a node. -/
def Resolves (g : GraphData V) (r : ValueRef) : Prop :=
  r.1 = -1 ∨ ∃ i n, r.1 = ((i : Nat) : Int) ∧ g.nodeAt? i = some n

theorem Resolves.mono (hg : Grows g g') {r : ValueRef} (h : Resolves g r) : Resolves g' r := by
  rcases h with h | ⟨i, n, h, hn⟩
  · exact .inl h
  · exact .inr ⟨i, n, h, hg _ _ hn⟩

theorem Resolves.pyIndex {r : ValueRef} (h : Resolves g r) :
    pyIndex (g.nodes.length + 1) r.1 ≠ none := by
  rcases h with h | ⟨i, n, h, hn⟩
  · rw [h, pyIndex_neg_one]
    exact Option.some_ne_none _
  · have := lt_of_nodeAt? hn
    rw [h, pyIndex_of_lt (Int.natCast_nonneg i) (by push_cast; omega)]
    exact Option.some_ne_none _

end GraphData

theorem KindRel.mem_fieldEdges {R : ValueRef → ValueRef → Prop} {kind kind' : NodeKind V}
    (h : KindRel R kind kind') {e' : PortID × ValueRef} (he : e' ∈ kind'.fieldEdges) :
    ∃ r, R r e'.2 := by
  cases h with
  | function | const | output => cases he
  | eval hr | loop _ _ hr | map hr =>
    cases List.mem_singleton.1 he
    exact ⟨_, hr⟩
  | ifelse hp ht hf | eifelse hp ht hf =>
    simp only [NodeKind.fieldEdges, List.mem_cons, List.not_mem_nil, or_false] at he
    rcases he with rfl | rfl | rfl
    · exact ⟨_, hp⟩
    · exact ⟨_, ht⟩
    · exact ⟨_, hf⟩

theorem KindRel.isOutput {R : ValueRef → ValueRef → Prop} {kind kind' : NodeKind V}
    (h : KindRel R kind kind') : kind'.isOutput = kind.isOutput := by
  cases h <;> rfl

theorem InputsRel.mem {R : ValueRef → ValueRef → Prop} {inputs inputs' : HashMap PortID ValueRef}
    (h : InputsRel R inputs inputs') {e' : PortID × ValueRef} (he : e' ∈ inputs'.toList) :
    ∃ r, R r e'.2 := by
  unfold InputsRel at h
  generalize inputs.toList = l, inputs'.toList = l' at h he
  induction h with
  | nil => cases he
  | cons hr _ ih =>
    rcases List.mem_cons.1 he with rfl | he
    · exact ⟨_, hr.2⟩
    · exact ih he

/-- The references of the copy of a node each stand for one. -/
theorem exists_rel_of_mem_refsOf {R : ValueRef → ValueRef → Prop} {kind kind' : NodeKind V}
    {inputs inputs' : HashMap PortID ValueRef} (hk : KindRel R kind kind')
    (hi : InputsRel R inputs inputs') {r' : ValueRef} (h : r' ∈ GraphData.refsOf kind' inputs') :
    ∃ r, R r r' := by
  rcases List.mem_append.1 h with h | h
  · obtain ⟨e', he, rfl⟩ := List.mem_map.1 h
    exact hi.mem he
  · obtain ⟨e', he, rfl⟩ := List.mem_map.1 h
    exact hk.mem_fieldEdges he

namespace GraphData

/-! ## Embeddable references are embedded -/

section Spec

variable (g other : GraphData V) (ins : HashMap PortID ValueRef)

/-- What holds of the graph and the maps while the graph grows. -/
structure Copies (s : EmbedState V) : Prop where
  host : Grows g s.data
  ports : ∀ idx ports, s.portMap.get? idx = some ports → ∃ (i : Nat) (name : String)
    (inputs : HashMap PortID ValueRef) (r : ValueRef), idx = i ∧
      other.nodeAt? i = some (.input name, inputs) ∧ ins.get? name = some r ∧
      ports = .ofList [(name, r)]
  nodes : ∀ idx j, s.nodeMap.get? idx = some j → ∀ port,
    Represents other ins s.data (idx, port) (j, port)

variable {g other ins} {step : ValueRef → EmbedM V ValueRef}

theorem Copies.mono {s : EmbedState V} (hs : Copies g other ins s) {data : GraphData V}
    (hg : Grows s.data data) : Copies g other ins { s with data := data } where
  host := hs.host.trans hg
  ports := hs.ports
  nodes idx j h port := (hs.nodes idx j h port).mono hg

section Equations

variable {fuel : Nat} {idx : Int} {port : PortID} {s : EmbedState V}

theorem reindex_port {ports : HashMap PortID ValueRef} (hp : s.portMap.get? idx = some ports) :
    reindex other ins (fuel + 1) (idx, port) s = portValue ports port s := by
  rw [reindex, get_bind, hp]

theorem reindex_old {new : Int} (hp : s.portMap.get? idx = none)
    (hm : s.nodeMap.get? idx = some new) :
    reindex other ins (fuel + 1) (idx, port) s = .ok ((new, port), s) := by
  rw [reindex, get_bind, hp]
  dsimp only
  rw [hm]
  rfl

theorem reindex_missing (hp : s.portMap.get? idx = none) (hm : s.nodeMap.get? idx = none)
    (hn : ((pyIndex other.nodes.length idx).bind fun k => other.nodes[k]?) = none) :
    reindex other ins (fuel + 1) (idx, port) s = .error .indexError := by
  rw [reindex, get_bind, hp]
  dsimp only
  rw [hm]
  dsimp only
  rw [hn]
  rfl

theorem reindex_new {node : NodeDef V} (hp : s.portMap.get? idx = none)
    (hm : s.nodeMap.get? idx = none)
    (hn : ((pyIndex other.nodes.length idx).bind fun k => other.nodes[k]?) = some node) :
    reindex other ins (fuel + 1) (idx, port) s =
      reindexNode (reindex other ins fuel) other ins idx port node s := by
  rw [reindex, get_bind, hp]
  dsimp only
  rw [hm]
  dsimp only
  rw [hn]

theorem reindexNode_input {node : NodeDef V} {name : String} {r : ValueRef}
    (hk : node.kind = .input name) (hr : ins.get? name = some r) :
    reindexNode step other ins idx port node s = portValue (.ofList [(name, r)]) port
      { s with portMap := s.portMap.insert idx (.ofList [(name, r)]) } := by
  rw [reindexNode, hk]
  dsimp only
  rw [hr]
  rfl

theorem reindexNode_copy {node : NodeDef V} (hi : ∀ name, node.kind ≠ .input name)
    (ho : node.kind.isOutput = false) :
    reindexNode step other ins idx port node =
      (copyNode step other idx node >>= fun new => pure (new, port)) := by
  unfold reindexNode
  split
  · rename_i name hk
    exact absurd hk (hi name)
  · rename_i hk
    rw [hk] at ho
    cases ho
  · rfl

end Equations

end Spec

end GraphData

end Tierkreis.Controller
