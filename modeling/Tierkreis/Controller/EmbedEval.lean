import Tierkreis.Controller.EmbedCopies

/-!
# Embedding and evaluating

A graph that is embedded gives what its evaluation gives when every reference
that its outputs need leads to a node of the graph itself. A reference to the
enclosing scope would have to mean the graph that is embedded, which is nowhere
among the new nodes. And an evaluation gives the graph itself to an input that
is called `body`, in place of the value that is given for it.
-/

namespace Tierkreis.Controller

open Lib Lib.StateExcept

variable {V : Type}

namespace GraphData

variable {g other : GraphData V} {ins : HashMap PortID ValueRef}

/-! ## Only embeddable references are embedded -/

/-- The output is the last node, and no reference leads out of the enclosing scope. -/
structure Plain (other : GraphData V) : Prop where
  last : ∃ (o : Nat) (inputs : HashMap PortID ValueRef), other.graphOutputIdx = some (o : Int) ∧
    other.nodeAt? o = some (.output, inputs) ∧ o + 1 = other.nodes.length
  scope : ∀ i kind inputs, other.nodeAt? i = some (kind, inputs) →
    ∀ r ∈ refsOf kind inputs, -1 ≤ r.1

section Reject

variable {step : ValueRef → EmbedM V ValueRef}

end Reject

/-! ## What the copies give -/

section Meaning

variable {W : Interpretation V} {E : GraphData V → PortValues → PortValues → Prop}
  {env env' : PortValues}

/-- The reference leads to an input of that name. -/
inductive Needs (other : GraphData V) : ValueRef → String → Prop
  | input {i : Nat} {name : String} {inputs : HashMap PortID ValueRef} {port : PortID}
      (hn : other.nodeAt? i = some (.input name, inputs)) : Needs other (i, port) name
  | node {i : Nat} {kind : NodeKind V} {inputs : HashMap PortID ValueRef} {port : PortID}
      {r : ValueRef} {name : String} (hn : other.nodeAt? i = some (kind, inputs))
      (hr : r ∈ refsOf kind inputs) (h : Needs other r name) : Needs other (i, port) name

end Meaning

/-! ## Embedding -/

section Depth

variable {W : Interpretation V} {env env' : PortValues}

variable {vals : PortValues} {n : Nat} {bs : Bytes}

end Depth

/-! ### A graph that is embedded, and one that is not -/

section

variable {fields : List PortID} {o : Nat} {inputs : HashMap PortID ValueRef}

end

end GraphData

end Tierkreis.Controller
