import Tierkreis.Asset
import Tierkreis.Lib.Closure
import Tierkreis.Location

/-!
# Workflow graphs

A node has its definition, its input ports with what is linked to them, and the
names of its output ports. The port graph itself comes from the `portgraph`
crate: `Portgraph` stands for the two traversals the code asks it for.
-/

namespace Tierkreis

open Lib

/-- `mappedPorts` is in the iteration order of the set. -/
inductive NodeDefinition where
  | input (name : String)
  | output
  | const (value : Json)
  | ifElse
  | eagerIfElse
  | task (workerName taskName : String) (context executor : Option String)
  | eval (context executor : Option String)
  | loop (context executor : Option String)
  | map (mappedPorts : List String) (context executor : Option String)

/-- An output port, by its node and its name. -/
structure OutPort where
  node : NodeIndex
  port : String
  deriving DecidableEq, Repr

/-- An input port and the output ports linked to it, in link order. -/
structure InPort where
  name : String
  links : List OutPort
  deriving DecidableEq, Repr

structure Node where
  definition : NodeDefinition
  name : Option String
  hasBreakpoint : Bool
  inputs : List InPort
  outputs : List String

namespace Node

/-- Every input link with the name of its port, in port order. -/
def inputLinks (node : Node) : List (String × OutPort) :=
  node.inputs.flatMap fun p => p.links.map fun l => (p.name, l)

end Node

structure WorkflowGraph where
  nodes : HashMap NodeIndex Node
  outputIdx : NodeIndex
  output_mem : (nodes.get? outputIdx).isSome
  link_mem : ∀ e ∈ nodes.toList, ∀ l ∈ e.2.inputLinks, (nodes.get? l.2.node).isSome

namespace WorkflowGraph

variable (g : WorkflowGraph)

def node? (n : NodeIndex) : Option Node := g.nodes.get? n

def nodeIds : List NodeIndex := g.nodes.toList.map Prod.fst

def nodeName (n : NodeIndex) : Option String := (g.node? n).bind Node.name

def nodeDefinition (n : NodeIndex) : Option NodeDefinition := (g.node? n).map Node.definition

def hasBreakpoint (n : NodeIndex) : Bool := ((g.node? n).map Node.hasBreakpoint).getD false

def inputLinks (n : NodeIndex) : List (String × OutPort) := ((g.node? n).map Node.inputLinks).getD []

def outputNames (n : NodeIndex) : Result (List String) :=
  (okOr (g.node? n) s!"Node not found: {n}").map Node.outputs

/-- Two ports of one name share an index entry, which keeps the later. -/
def getInputPort (n : NodeIndex) (portName : String) : Result InPort := do
  let node ← okOr (g.node? n) s!"Could not find node with index: {n}"
  okOr (node.inputs.reverse.find? fun p => p.name == portName)
    s!"Could not find port id for port name: {portName}"

def connectedInput (p : InPort) : Result OutPort := okOr p.links.head? "Port link not found"

def connectedInputByPortName (n : NodeIndex) (portName : String) : Result OutPort := do
  let p ← g.getInputPort n portName
  connectedInput p

def allInputs (n : NodeIndex) (f : NodeIndex → Bool) : Bool :=
  (g.inputLinks n).all fun l => f l.2.node

/-- The nodes with a link from `n`. -/
def outputNeighbours (n : NodeIndex) : List NodeIndex :=
  g.nodeIds.filter fun m => (g.inputLinks m).any fun l => l.2.node == n

theorem mem_nodeIds {n : NodeIndex} : n ∈ g.nodeIds ↔ (g.node? n).isSome := by
  simp only [nodeIds, List.mem_map, node?, Option.isSome_iff_exists]
  constructor
  · rintro ⟨e, he, rfl⟩
    exact ⟨e.2, HashMap.get?_eq_some_iff.2 he⟩
  · rintro ⟨node, h⟩
    exact ⟨(n, node), HashMap.get?_eq_some_iff.1 h, rfl⟩

theorem outputIdx_mem : g.outputIdx ∈ g.nodeIds := g.mem_nodeIds.2 g.output_mem

theorem link_mem_nodeIds {n : NodeIndex} {l : String × OutPort} (h : l ∈ g.inputLinks n) :
    l.2.node ∈ g.nodeIds := by
  unfold inputLinks at h
  cases hn : g.node? n with
  | none => simp [hn] at h
  | some node =>
    rw [hn] at h
    exact g.mem_nodeIds.2 (g.link_mem _ (HashMap.get?_eq_some_iff.1 hn) l h)

/-- `m` is reached from `n` along links. -/
abbrev Reaches (n m : NodeIndex) : Prop := Closure.Reach g.outputNeighbours n m

/-! ## Traversals -/

/-- The nodes a backwards traversal from the output node meets, along ports and
through nodes that pass the filters. -/
inductive Demanded (nodeFilter : NodeIndex → Bool) (portFilter : NodeIndex → String → Bool) :
    NodeIndex → Prop
  | output (h : nodeFilter g.outputIdx = true) : Demanded nodeFilter portFilter g.outputIdx
  | link {n : NodeIndex} {l : String × OutPort} (h : Demanded nodeFilter portFilter n)
      (hl : l ∈ g.inputLinks n) (hp : portFilter n l.1 = true)
      (hn : nodeFilter l.2.node = true) : Demanded nodeFilter portFilter l.2.node

theorem Demanded.filter {g : WorkflowGraph} {nf : NodeIndex → Bool}
    {pf : NodeIndex → String → Bool} {n : NodeIndex} (h : g.Demanded nf pf n) : nf n = true := by
  cases h with
  | output h => exact h
  | link _ _ _ hn => exact hn

theorem Demanded.mem {g : WorkflowGraph} {nf : NodeIndex → Bool}
    {pf : NodeIndex → String → Bool} {n : NodeIndex} (h : g.Demanded nf pf n) :
    n ∈ g.nodeIds := by
  cases h with
  | output _ => exact g.outputIdx_mem
  | link _ hl _ _ => exact g.link_mem_nodeIds hl

end WorkflowGraph

/-- The traversals of the `portgraph` crate. `toposortFiltered` yields the nodes a
filtered backwards traversal from the output meets, `postorder` what is reached
forwards from a node. -/
structure Portgraph where
  toposortFiltered (g : WorkflowGraph) (nodeFilter : NodeIndex → Bool)
    (portFilter : NodeIndex → String → Bool) : List NodeIndex
  nodup_toposort : ∀ g nf pf, (toposortFiltered g nf pf).Nodup
  mem_toposort : ∀ g nf pf n, n ∈ toposortFiltered g nf pf ↔ g.Demanded nf pf n
  postorder (g : WorkflowGraph) (n : NodeIndex) : List NodeIndex
  mem_postorder : ∀ g n m, m ∈ postorder g n ↔ g.Reaches n m

namespace WorkflowGraph

variable (g : WorkflowGraph)

/-- The nodes one step back from `n`. -/
def demands (nf : NodeIndex → Bool) (pf : NodeIndex → String → Bool) (n : NodeIndex) :
    List NodeIndex :=
  (((g.inputLinks n).filter fun l => pf n l.1).map fun l => l.2.node).filter nf

theorem mem_demands {nf : NodeIndex → Bool} {pf : NodeIndex → String → Bool} {n m : NodeIndex} :
    m ∈ g.demands nf pf n ↔
      ∃ l ∈ g.inputLinks n, pf n l.1 = true ∧ l.2.node = m ∧ nf m = true := by
  simp only [demands, List.mem_filter, List.mem_map]
  constructor
  · rintro ⟨⟨l, ⟨hl, hp⟩, rfl⟩, hn⟩
    exact ⟨l, hl, hp, rfl, hn⟩
  · rintro ⟨l, hl, hp, rfl, hn⟩
    exact ⟨⟨l, ⟨hl, hp⟩, rfl⟩, hn⟩

theorem demanded_iff_reach {nf : NodeIndex → Bool} {pf : NodeIndex → String → Bool}
    {n : NodeIndex} :
    g.Demanded nf pf n ↔ nf g.outputIdx = true ∧ Closure.Reach (g.demands nf pf) g.outputIdx n := by
  constructor
  · intro h
    induction h with
    | output h => exact ⟨h, .refl⟩
    | link _ hl hp hn ih => exact ⟨ih.1, ih.2.tail (g.mem_demands.2 ⟨_, hl, hp, rfl, hn⟩)⟩
  · rintro ⟨ho, h⟩
    induction h with
    | refl => exact .output ho
    | tail _ he ih =>
      obtain ⟨l, hl, hp, rfl, hn⟩ := g.mem_demands.1 he
      exact .link ih hl hp hn

end WorkflowGraph

/-- Traversals by reachability rounds. -/
def Portgraph.byClosure : Portgraph where
  toposortFiltered g nf pf :=
    if nf g.outputIdx then Closure.closure (g.demands nf pf) g.nodeIds.length [g.outputIdx] else []
  nodup_toposort g nf pf := by
    split
    · exact Closure.nodup_closure (List.nodup_singleton _)
    · exact List.nodup_nil
  mem_toposort g nf pf n := by
    rw [g.demanded_iff_reach]
    split
    · rename_i h
      rw [Closure.mem_closure g.nodeIds]
      · simp [h]
      · intro a b hb
        obtain ⟨l, hl, -, rfl, -⟩ := g.mem_demands.1 hb
        exact g.link_mem_nodeIds hl
    · rename_i h
      simp [h]
  postorder g n := Closure.closure g.outputNeighbours g.nodeIds.length [n]
  mem_postorder g n m := by
    rw [Closure.mem_closure g.nodeIds]
    · simp
    · intro a b hb
      exact (List.mem_filter.1 hb).1

/-- The `serde_json` functions on values and on graphs in both formats. -/
structure Codec extends Serde where
  graphFromSlice : Bytes → Except String WorkflowGraph
  legacyFromSlice : Bytes → Result WorkflowGraph

/-- Decode a `graph` input, in the current format or else the previous one. -/
def loadSubgraphFromAsset (C : Codec) (A : Assets) (spec : AssetSpec) : Result WorkflowGraph := do
  let bytes ← A.loadAssetFromSpec spec
  match C.graphFromSlice bytes with
  | .ok subgraph => pure subgraph
  | .error _ => C.legacyFromSlice bytes

end Tierkreis
