import Tierkreis.Controller.GraphEdges
import Tierkreis.Controller.Meaning

/-!
# Graphs in place of their evaluation

`embed` copies into a graph the nodes that the outputs of another need, one when
a reference to it is met: the copy refers to the copies, and to the given values
where the other graph has its inputs.
-/

namespace Tierkreis.Controller

open Lib Lib.StateExcept

variable {V : Type}

/-- What `embed` raises. -/
inductive EmbedError
  | valueError (msg : String)
  | keyError
  | indexError
  | assertionError
  | recursionError
  | add (e : GraphError)
  deriving DecidableEq, Repr

structure EmbedState (V : Type) where
  data : GraphData V
  /-- The new node of a node. -/
  nodeMap : HashMap Int Int := ∅
  /-- The values in place of an input node. -/
  portMap : HashMap Int (HashMap PortID ValueRef) := ∅

/-- A computation of `embed`. The graph is not kept when it raises. -/
abbrev EmbedM (V : Type) := StateT (EmbedState V) (Except EmbedError)

namespace GraphData

section

variable (reindex : ValueRef → EmbedM V ValueRef)

/-- The entries of a dict with the new references. -/
def reindexEdges : List (PortID × ValueRef) → EmbedM V (List (PortID × ValueRef))
  | [] => pure []
  | (k, v) :: edges => do
    let v' ← reindex v
    let edges' ← reindexEdges edges
    pure ((k, v') :: edges')

def reindexKind : NodeKind V → EmbedM V (NodeKind V)
  | .eval graph => do
    let graph ← reindex graph
    pure (.eval graph)
  | .loop body continuePort name => do
    let body ← reindex body
    pure (.loop body continuePort name)
  | .map body => do
    let body ← reindex body
    pure (.map body)
  | .ifelse pred ifTrue ifFalse => do
    let pred ← reindex pred
    let ifTrue ← reindex ifTrue
    let ifFalse ← reindex ifFalse
    pure (.ifelse pred ifTrue ifFalse)
  | .eifelse pred ifTrue ifFalse => do
    let pred ← reindex pred
    let ifTrue ← reindex ifTrue
    let ifFalse ← reindex ifFalse
    pure (.eifelse pred ifTrue ifFalse)
  | kind => pure kind

/-- The inputs, and then the fields. -/
def reindexInputs (node : NodeDef V) : EmbedM V (NodeDef V) := do
  let inputs ← reindexEdges reindex node.inputs.toList
  let kind ← reindexKind reindex node.kind
  pure { node with kind := kind, inputs := .ofEntries inputs }

end

def addNode (node : NodeDef V) (metadata : Option NodeMetaData) : EmbedM V Int := fun s =>
  match s.data.add node (metadata.map .ok) with
  | (.ok idx, data) => .ok (idx, { s with data := data })
  | (.error e, _) => .error (.add e)

/-- `port_map[idx][port]`. -/
def portValue (ports : HashMap PortID ValueRef) (port : PortID) : EmbedM V ValueRef :=
  match ports.get? port with
  | some r => pure r
  | none => throw .keyError

/-- The new node in place of the one at `idx`, which is neither an input nor the output. -/
def copyNode (reindex : ValueRef → EmbedM V ValueRef) (other : GraphData V) (idx : Int)
    (node : NodeDef V) : EmbedM V Int := do
  let newNodeDef ← reindexInputs reindex node
  let new ← addNode { newNodeDef with outputs := ∅ } (other.nodeMetadata.get? idx)
  modify fun s => { s with nodeMap := s.nodeMap.insert idx new }
  pure new

/-- A reference to a node that has not been met: the value that is given for an input, and the
new node in place of another. -/
def reindexNode (reindex : ValueRef → EmbedM V ValueRef) (other : GraphData V)
    (ins : HashMap PortID ValueRef) (idx : Int) (port : PortID) (node : NodeDef V) :
    EmbedM V ValueRef :=
  match node.kind with
  | .input name =>
    match ins.get? name with
    | none => throw .keyError
    | some r => do
      let ports := HashMap.ofList [(name, r)]
      modify fun s => { s with portMap := s.portMap.insert idx ports }
      portValue ports port
  | .output => throw .assertionError
  | _ => do
    let new ← copyNode reindex other idx node
    pure (new, port)

/-- The reference in the graph that stands for one of `other`; `ins` stand for its inputs. -/
def reindex (other : GraphData V) (ins : HashMap PortID ValueRef) :
    Nat → ValueRef → EmbedM V ValueRef
  | 0, _ => throw .recursionError
  | fuel + 1, (idx, port) => do
    let s ← get
    match s.portMap.get? idx with
    | some ports => portValue ports port
    | none =>
      match s.nodeMap.get? idx with
      | some new => pure (new, port)
      | none =>
        match (pyIndex other.nodes.length idx).bind fun k => other.nodes[k]? with
        | none => throw .indexError
        | some node => reindexNode (reindex other ins fuel) other ins idx port node

/-- `reindex(outputs[p])` for each field. -/
def reindexFields (reindex : ValueRef → EmbedM V ValueRef) (outputs : HashMap PortID ValueRef) :
    List PortID → EmbedM V (List (PortID × ValueRef))
  | [] => pure []
  | p :: fields =>
    match outputs.get? p with
    | none => throw .keyError
    | some r => do
      let r' ← reindex r
      let rs ← reindexFields reindex outputs fields
      pure ((p, r') :: rs)

/-- The values of the fields of the outputs type, and the graph with the new nodes. The recursion
may go `fuel` deep. -/
def embed (fuel : Nat) (g other : GraphData V) (ins : HashMap PortID ValueRef)
    (fields : List PortID) : Except EmbedError (List (PortID × ValueRef) × GraphData V) :=
  match other.graphOutputIdx with
  | none => .error (.valueError "Can only embed graphs with an output node defined.")
  | some out =>
    match (pyIndex other.nodes.length out).bind fun k => other.nodes[k]? with
    | none => .error .indexError
    | some node => do
      let r ← reindexFields (reindex other ins fuel) node.inputs fields { data := g }
      pure (r.1, r.2.data)

end GraphData

end Tierkreis.Controller
