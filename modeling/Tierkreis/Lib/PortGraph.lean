import Mathlib.Data.List.Nodup

/-!
# Port graphs with many links at a port

What a program relies on of a library of port graphs. A node has incoming and
outgoing ports, a link goes from an outgoing port to an incoming one, and a port has
any number of links. Which index a new node gets, what a port is, in which order
links are listed and which of them counts as the first of a port is left open.
Lists of nodes and of links make up such a library.
-/

namespace Lib.PortGraph

/-- The operations of a library of graphs `G` with ports `P`, and what is known of them. -/
structure PortGraphs (G P : Type) where
  new : G
  /-- A node with so many incoming and outgoing ports, and its index. -/
  addNode : G → Nat → Nat → Nat × G
  /-- `none` when the link is refused. -/
  linkPorts : G → P → P → Option G
  inputs : G → Nat → List P
  outputs : G → Nat → List P
  portNode : G → P → Option Nat
  /-- The ports that a port is linked to. -/
  portLinks : G → P → List P
  /-- One of them. -/
  portLink : G → P → Option P
  /-- The links of the incoming ports of a node, the incoming port first. -/
  inputLinks : G → Nat → List (P × P)
  inputs_new (n : Nat) : inputs new n = []
  outputs_new (n : Nat) : outputs new n = []
  nodup_inputs (g : G) (n : Nat) : (inputs g n).Nodup
  nodup_outputs (g : G) (n : Nat) : (outputs g n).Nodup
  portNode_of_mem_inputs {g : G} {n : Nat} {p : P} : p ∈ inputs g n → portNode g p = some n
  portNode_of_mem_outputs {g : G} {n : Nat} {p : P} : p ∈ outputs g n → portNode g p = some n
  notMem_outputs {g : G} {n m : Nat} {p : P} : p ∈ inputs g n → p ∉ outputs g m
  /-- The index of a new node was free. -/
  addNode_free (g : G) (i o : Nat) :
    inputs g (addNode g i o).1 = [] ∧ outputs g (addNode g i o).1 = []
  length_addNode (g : G) (i o : Nat) :
    (inputs (addNode g i o).2 (addNode g i o).1).length = i ∧
      (outputs (addNode g i o).2 (addNode g i o).1).length = o
  addNode_other {g : G} {i o m : Nat} : m ≠ (addNode g i o).1 →
    inputs (addNode g i o).2 m = inputs g m ∧ outputs (addNode g i o).2 m = outputs g m
  portLinks_addNode {g : G} {i o : Nat} {p : P} :
    p ∈ inputs (addNode g i o).2 (addNode g i o).1 → portLinks (addNode g i o).2 p = []
  portLinks_addNode_other {g : G} {i o m : Nat} {p : P} :
    p ∈ inputs g m → portLinks (addNode g i o).2 p = portLinks g p
  linkPorts_isSome {g : G} {n m : Nat} {o p : P} :
    o ∈ outputs g n → p ∈ inputs g m → (linkPorts g o p).isSome
  linkPorts_ports {g g' : G} {o p : P} : linkPorts g o p = some g' → ∀ n,
    inputs g' n = inputs g n ∧ outputs g' n = outputs g n
  portLinks_linkPorts {g g' : G} {o p : P} :
    linkPorts g o p = some g' → (portLinks g' p).Perm (o :: portLinks g p)
  portLinks_linkPorts_other {g g' : G} {n : Nat} {o p q : P} :
    linkPorts g o p = some g' → q ∈ inputs g n → q ≠ p → portLinks g' q = portLinks g q
  portLink_mem {g : G} {p q : P} : portLink g p = some q → q ∈ portLinks g p
  portLink_isSome {g : G} {p : P} : portLinks g p ≠ [] → (portLink g p).isSome
  inputLinks_perm (g : G) (n : Nat) : (inputLinks g n).Perm
    ((inputs g n).flatMap fun p => (portLinks g p).map fun o => (p, o))

namespace PortGraphs

variable {G P : Type} (A : PortGraphs G P) {g : G} {n m : Nat} {p o : P}

theorem eq_of_mem_inputs (h : p ∈ A.inputs g n) (h' : p ∈ A.inputs g m) : n = m :=
  Option.some.inj ((A.portNode_of_mem_inputs h).symm.trans (A.portNode_of_mem_inputs h'))

theorem eq_of_mem_outputs (h : p ∈ A.outputs g n) (h' : p ∈ A.outputs g m) : n = m :=
  Option.some.inj ((A.portNode_of_mem_outputs h).symm.trans (A.portNode_of_mem_outputs h'))

/-- The nodes that were there are others than a new one. -/
theorem ne_of_mem_inputs (i o : Nat) (h : p ∈ A.inputs g n) : n ≠ (A.addNode g i o).1 := by
  rintro rfl
  rw [(A.addNode_free g i o).1] at h
  cases h

theorem ne_of_mem_outputs (i o : Nat) (h : p ∈ A.outputs g n) : n ≠ (A.addNode g i o).1 := by
  rintro rfl
  rw [(A.addNode_free g i o).2] at h
  cases h

theorem portLink_of_singleton (h : A.portLinks g p = [o]) : A.portLink g p = some o := by
  have hs : (A.portLink g p).isSome := A.portLink_isSome (by simp [h])
  obtain ⟨q, hq⟩ := Option.isSome_iff_exists.1 hs
  have hmem := A.portLink_mem hq
  rw [h] at hmem
  rw [hq, List.mem_singleton.1 hmem]

theorem mem_inputLinks {l : P × P} :
    l ∈ A.inputLinks g n ↔ l.1 ∈ A.inputs g n ∧ l.2 ∈ A.portLinks g l.1 := by
  obtain ⟨p, o⟩ := l
  rw [(A.inputLinks_perm g n).mem_iff]
  simp only [List.mem_flatMap, List.mem_map, Prod.mk.injEq]
  constructor
  · rintro ⟨q, hq, o', ho', rfl, rfl⟩
    exact ⟨hq, ho'⟩
  · rintro ⟨hp, ho⟩
    exact ⟨p, hp, o, ho, rfl, rfl⟩

/-- Where no port has two links, each port is listed at most once. -/
theorem nodup_inputLinks (h : ∀ p ∈ A.inputs g n, (A.portLinks g p).length ≤ 1) :
    ((A.inputLinks g n).map Prod.fst).Nodup := by
  rw [((A.inputLinks_perm g n).map Prod.fst).nodup_iff, List.map_flatMap, List.nodup_flatMap]
  refine ⟨fun p hp => ?_, (A.nodup_inputs g n).imp fun hne q hq hq' => ?_⟩
  · have hlen := h p hp
    match A.portLinks g p, hlen with
    | [], _ => exact List.nodup_nil
    | [_], _ => exact List.nodup_singleton _
    | _ :: _ :: _, hlen => simp at hlen
  · simp only [List.map_map, List.mem_map, Function.comp_def] at hq hq'
    obtain ⟨-, -, rfl⟩ := hq
    obtain ⟨-, -, rfl⟩ := hq'
    exact hne rfl

end PortGraphs

/-! ## Graphs as lists -/

inductive Direction where
  | incoming
  | outgoing
  deriving DecidableEq, Repr

structure PortIndex where
  node : Nat
  direction : Direction
  offset : Nat
  deriving DecidableEq, Repr

/-- The incoming ports of a node, from the counts of incoming and outgoing ports of the nodes. -/
def inputsOf (nodes : List (Nat × Nat)) (n : Nat) : List PortIndex :=
  (List.range ((nodes[n]?).getD (0, 0)).1).map (⟨n, .incoming, ·⟩)

def outputsOf (nodes : List (Nat × Nat)) (n : Nat) : List PortIndex :=
  (List.range ((nodes[n]?).getD (0, 0)).2).map (⟨n, .outgoing, ·⟩)

section

variable {nodes : List (Nat × Nat)} {n : Nat} {p : PortIndex}

theorem of_mem_inputsOf (h : p ∈ inputsOf nodes n) : p.node = n ∧ p.direction = .incoming := by
  obtain ⟨k, -, rfl⟩ := List.mem_map.1 h
  exact ⟨rfl, rfl⟩

theorem of_mem_outputsOf (h : p ∈ outputsOf nodes n) : p.node = n ∧ p.direction = .outgoing := by
  obtain ⟨k, -, rfl⟩ := List.mem_map.1 h
  exact ⟨rfl, rfl⟩

theorem nodup_inputsOf (nodes : List (Nat × Nat)) (n : Nat) : (inputsOf nodes n).Nodup :=
  List.Nodup.map (fun _ _ h => congrArg PortIndex.offset h) List.nodup_range

theorem nodup_outputsOf (nodes : List (Nat × Nat)) (n : Nat) : (outputsOf nodes n).Nodup :=
  List.Nodup.map (fun _ _ h => congrArg PortIndex.offset h) List.nodup_range

theorem ports_length (nodes : List (Nat × Nat)) :
    inputsOf nodes nodes.length = [] ∧ outputsOf nodes nodes.length = [] := by
  simp [inputsOf, outputsOf]

theorem ports_concat (counts : Nat × Nat) (h : n ≠ nodes.length) :
    inputsOf (nodes ++ [counts]) n = inputsOf nodes n ∧
      outputsOf (nodes ++ [counts]) n = outputsOf nodes n := by
  have hget : (nodes ++ [counts])[n]? = nodes[n]? := by
    rcases Nat.lt_or_gt_of_ne h with h | h
    · exact List.getElem?_append_left h
    · rw [List.getElem?_eq_none (by simp; omega), List.getElem?_eq_none (by omega)]
  unfold inputsOf outputsOf
  rw [hget]
  exact ⟨rfl, rfl⟩

theorem ports_concat_self (counts : Nat × Nat) :
    (inputsOf (nodes ++ [counts]) nodes.length).length = counts.1 ∧
      (outputsOf (nodes ++ [counts]) nodes.length).length = counts.2 := by
  simp [inputsOf, outputsOf]

end

/-- The nodes by the counts of their ports, and the links from outgoing to incoming ports. -/
structure ListGraph where
  nodes : List (Nat × Nat)
  links : List (PortIndex × PortIndex)
  link_mem : ∀ l ∈ links, l.1 ∈ outputsOf nodes l.1.node ∧ l.2 ∈ inputsOf nodes l.2.node

namespace ListGraph

variable (g : ListGraph)

/-- The index of a new node is the number of nodes before it. -/
def addNode (counts : Nat × Nat) : ListGraph where
  nodes := g.nodes ++ [counts]
  links := g.links
  link_mem l hl := by
    obtain ⟨ho, hp⟩ := g.link_mem l hl
    have hne : ∀ n, inputsOf g.nodes n ≠ [] ∨ outputsOf g.nodes n ≠ [] → n ≠ g.nodes.length := by
      rintro n h rfl
      obtain ⟨hin, hout⟩ := ports_length g.nodes
      exact h.elim (fun h => h hin) fun h => h hout
    rw [(ports_concat counts (hne _ (.inr (List.ne_nil_of_mem ho)))).2,
      (ports_concat counts (hne _ (.inl (List.ne_nil_of_mem hp)))).1]
    exact ⟨ho, hp⟩

/-- A port that is not there is not linked. -/
def linkPorts (source target : PortIndex) : Option ListGraph :=
  if h : source ∈ outputsOf g.nodes source.node ∧ target ∈ inputsOf g.nodes target.node then
    some {
      nodes := g.nodes
      links := g.links ++ [(source, target)]
      link_mem := fun l hl => by
        rcases List.mem_append.1 hl with hl | hl
        · exact g.link_mem l hl
        · rwa [List.mem_singleton.1 hl] }
  else none

/-- The outgoing ports that are linked to an incoming one. -/
def sources (p : PortIndex) : List PortIndex := (g.links.filter fun l => l.2 = p).map Prod.fst

/-- The incoming ports that are linked to an outgoing one. -/
def targets (p : PortIndex) : List PortIndex := (g.links.filter fun l => l.1 = p).map Prod.snd

def portLinks (p : PortIndex) : List PortIndex :=
  match p.direction with
  | .incoming => g.sources p
  | .outgoing => g.targets p

variable {g}

theorem portLinks_of_mem {n : Nat} {p : PortIndex} (h : p ∈ inputsOf g.nodes n) :
    g.portLinks p = g.sources p := by
  rw [portLinks, (of_mem_inputsOf h).2]

theorem linkPorts_eq_some {g' : ListGraph} {o p : PortIndex} (h : g.linkPorts o p = some g') :
    g'.nodes = g.nodes ∧ g'.links = g.links ++ [(o, p)] ∧ p ∈ inputsOf g.nodes p.node := by
  unfold linkPorts at h
  split at h
  · rename_i hmem
    cases h
    exact ⟨rfl, rfl, hmem.2⟩
  · cases h

theorem sources_linkPorts {g' : ListGraph} {o p : PortIndex} (h : g.linkPorts o p = some g')
    (q : PortIndex) : g'.sources q = g.sources q ++ if p = q then [o] else [] := by
  unfold sources
  rw [(linkPorts_eq_some h).2.1, List.filter_append, List.map_append]
  by_cases hq : p = q
  · simp [hq]
  · simp [hq]

end ListGraph

/-- Graphs as lists, with the links in the order in which they were made. -/
def listGraphs : PortGraphs ListGraph PortIndex where
  new := ⟨[], [], fun _ h => absurd h List.not_mem_nil⟩
  addNode g incoming outgoing := (g.nodes.length, g.addNode (incoming, outgoing))
  linkPorts := ListGraph.linkPorts
  inputs g := inputsOf g.nodes
  outputs g := outputsOf g.nodes
  portNode g p :=
    if p ∈ inputsOf g.nodes p.node ∨ p ∈ outputsOf g.nodes p.node then some p.node else none
  portLinks := ListGraph.portLinks
  portLink g p := (g.portLinks p).head?
  inputLinks g n := (inputsOf g.nodes n).flatMap fun p => (g.portLinks p).map fun o => (p, o)
  inputs_new _ := rfl
  outputs_new _ := rfl
  nodup_inputs g := nodup_inputsOf g.nodes
  nodup_outputs g := nodup_outputsOf g.nodes
  portNode_of_mem_inputs h := by
    obtain ⟨rfl, -⟩ := of_mem_inputsOf h
    exact if_pos (.inl h)
  portNode_of_mem_outputs h := by
    obtain ⟨rfl, -⟩ := of_mem_outputsOf h
    exact if_pos (.inr h)
  notMem_outputs h h' := by
    cases (of_mem_inputsOf h).2.symm.trans (of_mem_outputsOf h').2
  addNode_free g _ _ := ports_length g.nodes
  length_addNode _ incoming outgoing := ports_concat_self (incoming, outgoing)
  addNode_other h := ports_concat _ h
  portLinks_addNode := by
    intro g incoming outgoing p h
    have hnode := (of_mem_inputsOf h).1
    rw [ListGraph.portLinks_of_mem h, ListGraph.sources, List.map_eq_nil_iff,
      List.filter_eq_nil_iff]
    intro l hl hp
    have hmem := (g.link_mem l hl).2
    rw [of_decide_eq_true hp, hnode, (ports_length g.nodes).1] at hmem
    cases hmem
  portLinks_addNode_other _ := rfl
  linkPorts_isSome := by
    intro g n m o p ho hp
    obtain ⟨rfl, -⟩ := of_mem_outputsOf ho
    obtain ⟨rfl, -⟩ := of_mem_inputsOf hp
    rw [ListGraph.linkPorts, dif_pos ⟨ho, hp⟩]
    rfl
  linkPorts_ports h n := by
    rw [(ListGraph.linkPorts_eq_some h).1]
    exact ⟨rfl, rfl⟩
  portLinks_linkPorts := by
    intro g g' o p h
    obtain ⟨hnodes, -, hp⟩ := ListGraph.linkPorts_eq_some h
    rw [ListGraph.portLinks_of_mem hp, ListGraph.portLinks_of_mem (hnodes ▸ hp),
      ListGraph.sources_linkPorts h, if_pos rfl]
    exact List.perm_append_singleton _ _
  portLinks_linkPorts_other := by
    intro g g' n o p q h hq hne
    rw [ListGraph.portLinks_of_mem hq,
      ListGraph.portLinks_of_mem ((ListGraph.linkPorts_eq_some h).1 ▸ hq),
      ListGraph.sources_linkPorts h, if_neg (Ne.symm hne), List.append_nil]
  portLink_mem := List.mem_of_mem_head?
  portLink_isSome h := by
    rw [List.isSome_head?]
    simpa using h
  inputLinks_perm _ _ := .refl _

end Lib.PortGraph
