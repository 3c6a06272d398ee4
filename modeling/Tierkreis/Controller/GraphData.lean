import Tierkreis.Controller.Location
import Tierkreis.Lib.HashMap
import Mathlib.Data.Finset.Insert

/-!
# Graphs of the Python builder

A `GraphData` is a list of node definitions that refer to values of other nodes
by index and port. The edges are kept twice: as the references of a node, and,
the other way round, as the nodes that each port of a node leads to. Every
builder operation ends in `add`, which writes both.
-/

namespace Tierkreis.Controller

open Lib

abbrev PortID := String

/-- A node index and a port. The index -1 is that of the enclosing scope. -/
abbrev ValueRef := Int × PortID

/-- What tells the node definitions apart. -/
inductive NodeKind (V : Type)
  | function (functionName : String)
  | eval (graph : ValueRef)
  | loop (body : ValueRef) (continuePort : PortID) (name : Option String)
  | map (body : ValueRef)
  | const (value : V)
  | ifelse (pred ifTrue ifFalse : ValueRef)
  | eifelse (pred ifTrue ifFalse : ValueRef)
  | input (name : String)
  | output

structure NodeDef (V : Type) where
  kind : NodeKind V
  inputs : HashMap PortID ValueRef := ∅
  outputs : HashMap PortID (List Int) := ∅

structure NodeMetaData where
  hasBreakpoint : Bool := false
  isHidden : Bool := false
  context : Option String := none
  executor : Option String := none

structure GraphData (V : Type) where
  nodes : List (NodeDef V) := []
  graphInputs : Finset PortID := ∅
  graphOutputIdx : Option Int := none
  namedNodes : HashMap String Int := ∅
  nodeMetadata : HashMap Int NodeMetaData := ∅

inductive GraphError
  /-- `TierkreisError`. -/
  | tierkreis (msg : String)
  /-- The keyword arguments are no metadata. -/
  | validation (msg : String)
  | indexError
  deriving DecidableEq, Repr

variable {V : Type}

/-- The references that a node holds in fields of its own, under the ports that they stand for. -/
def NodeKind.fieldEdges : NodeKind V → List (PortID × ValueRef)
  | .eval graph => [("body", graph)]
  | .loop body _ _ => [("body", body)]
  | .map body => [("body", body)]
  | .ifelse pred ifTrue ifFalse | .eifelse pred ifTrue ifFalse =>
    [("pred", pred), ("if_true", ifTrue), ("if_false", ifFalse)]
  | .const _ | .function _ | .input _ | .output => []

def NodeKind.isOutput : NodeKind V → Bool
  | .output => true
  | _ => false

namespace NodeDef

/-- The edges by port. A field takes the place of an input of the same name. -/
def inEdges (node : NodeDef V) : HashMap PortID ValueRef :=
  node.kind.fieldEdges.foldl (fun parents e => parents.insert e.1 e.2) node.inputs

/-- The nodes under a port of `outputs`. -/
def outputNodes (node : NodeDef V) (port : PortID) : List Int :=
  (node.outputs.get? port).getD []

/-- `outputs.setdefault(port, []).append(idx)`. -/
def appendOutput (node : NodeDef V) (port : PortID) (idx : Int) : NodeDef V :=
  { node with outputs := node.outputs.modify [] port (· ++ [idx]) }

end NodeDef

/-- The place in a list of the given length that a Python index means. A negative index counts
from the end. -/
def pyIndex (length : Nat) (i : Int) : Option Nat :=
  let j := if i < 0 then i + length else i
  if 0 ≤ j ∧ j < length then some j.toNat else none

namespace GraphData

/-- What `add` notes about a node beside its edges. -/
def note (g : GraphData V) (idx : Int) : NodeKind V → GraphData V
  | .output => { g with graphOutputIdx := some idx }
  | .input name => { g with graphInputs := insert name g.graphInputs }
  | .loop _ _ (some name) => { g with namedNodes := g.namedNodes.insert name idx }
  | _ => g

/-- The new node, under the port of each node that it refers to, until a reference leads nowhere. -/
def recordEdges (idx : Int) :
    List ValueRef → List (NodeDef V) → Except GraphError Unit × List (NodeDef V)
  | [], nodes => (.ok (), nodes)
  | (i, port) :: edges, nodes =>
    match pyIndex nodes.length i with
    | none => (.error .indexError, nodes)
    | some k => recordEdges idx edges (nodes.modify k fun node => node.appendOutput port idx)

/-- The edges of the node at `idx`, recorded on the nodes that it refers to. -/
def connect (g : GraphData V) (idx : Int) (node : NodeDef V) :
    Except GraphError Int × GraphData V :=
  let r := recordEdges idx (node.inEdges.toList.map Prod.snd) g.nodes
  (r.1.map fun _ => idx, { g with nodes := r.2 })

/-- The result of `NodeMetaData(**kwargs)`, when there are keyword arguments. -/
abbrev Kwargs := Option (Except String NodeMetaData)

/-- The index of the new node, or what is raised; and the graph afterwards either way. -/
def add (g : GraphData V) (node : NodeDef V) (kwargs : Kwargs) :
    Except GraphError Int × GraphData V :=
  let idx : Int := g.nodes.length
  let g := { g with nodes := g.nodes ++ [node] }
  match node.kind, g.graphOutputIdx with
  | .output, some out =>
    (.error (.tierkreis s!"Graph already has output at index {out}"), g)
  | kind, _ =>
    let g := g.note idx kind
    match kwargs with
    | some (.error msg) => (.error (.validation msg), g)
    | some (.ok metadata) =>
      connect { g with nodeMetadata := g.nodeMetadata.insert idx metadata } idx node
    | none => connect g idx node

end GraphData

end Tierkreis.Controller
