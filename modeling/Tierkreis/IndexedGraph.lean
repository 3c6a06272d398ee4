import Tierkreis.Lib.PortGraph
import Tierkreis.Lib.Run
import Tierkreis.Orchestrator.Plan

/-!
# The graph as it is built

The Rust `WorkflowGraph` keeps a port graph beside maps from the names of a node's
ports to the ports and back. Here are the functions that build it, and the two that
read the inputs of a node off it.
-/

namespace Tierkreis

open Lib Lib.PortGraph

/-- The port graph `G` has the ports `P`. -/
structure IndexedGraph (G P : Type) where
  graph : G
  nodeDefinitions : HashMap NodeIndex NodeDefinition
  inputPortIndices : HashMap NodeIndex (HashMap String P)
  outputPortIndices : HashMap NodeIndex (HashMap String P)
  portNames : HashMap P String
  outputNode : NodeIndex

namespace IndexedGraph

variable {G P : Type} [DecidableEq P] (A : PortGraphs G P)

/-! ## Building -/

/-- The ports of a node by name; of two with one name the later. -/
def portsByName (ports : List (P × String)) : HashMap String P :=
  HashMap.ofList (ports.map fun p => (p.2, p.1))

def namePorts (portNames : HashMap P String) (ports : List (P × String)) : HashMap P String :=
  ports.foldl (fun m p => m.insert p.1 p.2) portNames

def new (graphOutputs : List String) : IndexedGraph G P :=
  let (idx, graph) := A.addNode A.new graphOutputs.length 0
  let ports := (A.inputs graph idx).zip graphOutputs
  { graph
    nodeDefinitions := (∅ : HashMap NodeIndex NodeDefinition).insert idx .output
    inputPortIndices := (∅ : HashMap NodeIndex (HashMap String P)).insert idx (portsByName ports)
    outputPortIndices := ∅
    portNames := namePorts ∅ ports
    outputNode := idx }

variable (g : IndexedGraph G P)

def addNode (nodeDefinition : NodeDefinition) (inputs outputs : List String) :
    NodeIndex × IndexedGraph G P :=
  let (idx, graph) := A.addNode g.graph inputs.length outputs.length
  let inputPorts := (A.inputs graph idx).zip inputs
  let outputPorts := (A.outputs graph idx).zip outputs
  (idx,
    { g with
      graph
      nodeDefinitions := g.nodeDefinitions.insert idx nodeDefinition
      inputPortIndices := g.inputPortIndices.insert idx (portsByName inputPorts)
      outputPortIndices := g.outputPortIndices.insert idx (portsByName outputPorts)
      portNames := namePorts (namePorts g.portNames inputPorts) outputPorts })

def linkNodesByPortName (fromNode : NodeIndex) (fromOutput : String) (toNode : NodeIndex)
    (toInput : String) : Result (IndexedGraph G P) :=
  let res : Result (IndexedGraph G P) := do
    let outputs ← okOr (g.outputPortIndices.get? fromNode)
      s!"Node `from` not found in port indices mapping: {fromNode}:{fromOutput}"
    let fromPort ← okOr (outputs.get? fromOutput)
      s!"Port `from_output` not found in port indices mapping: {fromNode}:{fromOutput}"
    let inputs ← okOr (g.inputPortIndices.get? toNode)
      s!"Node `to` not found in port indices mapping: {toNode}:{toInput}"
    let toPort ← okOr (inputs.get? toInput)
      s!"Port `to_input` not found in port indices mapping: {toNode}:{toInput}"
    let graph ← okOr (A.linkPorts g.graph fromPort toPort) "could not link ports"
    pure { g with graph }
  res.mapError
    (Failure.wrapErr s!"Failed to link ports {fromNode}:{fromOutput} -> {toNode}:{toInput}")

/-- A call of one of the functions that build a graph. -/
inductive BuildCall where
  | addNode (nodeDefinition : NodeDefinition) (inputs outputs : List String)
  | linkNodesByPortName (fromNode : NodeIndex) (fromOutput : String) (toNode : NodeIndex)
      (toInput : String)

/-- A link that fails leaves the graph as it was. -/
def build (g : IndexedGraph G P) : BuildCall → IndexedGraph G P
  | .addNode nodeDefinition inputs outputs => (g.addNode A nodeDefinition inputs outputs).2
  | .linkNodesByPortName fromNode fromOutput toNode toInput =>
    match g.linkNodesByPortName A fromNode fromOutput toNode toInput with
    | .ok g' => g'
    | .error _ => g

/-! ## Reading -/

section

variable [Repr P]

def getPortName (port : P) : Result String :=
  okOr (g.portNames.get? port) s!"Could not find port name for port id: {repr port}"

def getInputPortIndex (node : NodeIndex) (portName : String) : Result P := do
  let ports ← okOr (g.inputPortIndices.get? node) s!"Could not find node with index: {node}"
  okOr (ports.get? portName) s!"Could not find port id for port name: {portName}"

def portNode (port : P) : Result NodeIndex :=
  okOr (A.portNode g.graph port) s!"Could not find node for port: {repr port}"

def connectedInput (port : P) : Result (NodeIndex × P) := do
  let connectedPort ← okOr (A.portLink g.graph port) "Port link not found"
  let connectedNode ← g.portNode A connectedPort
  pure (connectedNode, connectedPort)

def collectInput (nodeStates : NodeStates) (parentLoc : Location) (node : NodeIndex)
    (portName : String) : Result AssetSpec := do
  let inputPort ← g.getInputPortIndex node portName
  let (linkedNode, outputPort) ← g.connectedInput A inputPort
  let outputName ← g.getPortName outputPort
  linkedOutput nodeStates parentLoc ⟨linkedNode, outputName⟩

def collectLinks (nodeStates : NodeStates) (parentLoc : Location) :
    List (P × P) → Specs → Result Specs
  | [], inputs => pure inputs
  | (inputPort, outputPort) :: links, inputs => do
    let inputName ← g.getPortName inputPort
    let outputName ← g.getPortName outputPort
    let linkedNode ← g.portNode A outputPort
    let spec ← linkedOutput nodeStates parentLoc ⟨linkedNode, outputName⟩
    collectLinks nodeStates parentLoc links (inputs.insert inputName spec)

def collectInputs (nodeStates : NodeStates) (parentLoc : Location) (node : NodeIndex) :
    Result Specs :=
  g.collectLinks A nodeStates parentLoc (A.inputLinks g.graph node) ∅

end

end IndexedGraph

end Tierkreis
