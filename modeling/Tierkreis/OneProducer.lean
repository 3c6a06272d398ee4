import Tierkreis.IndexedGraph

/-!
# One producer for each input port

`collect_input` follows the first link of a port and `collect_inputs` all of them,
where the last one stays. They read the same as long as no port is linked twice,
which the functions that build a graph do not see to.
-/

namespace Tierkreis

open Lib Lib.PortGraph Lib.Run

namespace IndexedGraph

variable {G P : Type} [DecidableEq P] (A : PortGraphs G P) (g : IndexedGraph G P)

def inputPort? (node : NodeIndex) (name : String) : Option P :=
  (g.inputPortIndices.get? node).bind fun ports => ports.get? name

def outputPort? (node : NodeIndex) (name : String) : Option P :=
  (g.outputPortIndices.get? node).bind fun ports => ports.get? name

def SingleLinked : Prop :=
  ∀ node, ∀ p ∈ A.inputs g.graph node, (A.portLinks g.graph p).length ≤ 1

/-- The node has a linked input port of this name. -/
def Linked (node : NodeIndex) (name : String) : Prop :=
  ∃ p ∈ A.inputs g.graph node, A.portLinks g.graph p ≠ [] ∧ g.portNames.get? p = some name

/-- Both ways to read the inputs of a node give the same. -/
structure CollectsAlike [Repr P] (nodeStates : NodeStates) (parentLoc : Location)
    (node : NodeIndex) : Prop where
  same : ∀ inputs, g.collectInputs A nodeStates parentLoc node = .ok inputs →
    ∀ name, g.Linked A node name → ∃ asset, inputs.get? name = some asset ∧
      g.collectInput A nodeStates parentLoc node name = .ok asset
  only : ∀ inputs, g.collectInputs A nodeStates parentLoc node = .ok inputs →
    ∀ name, (inputs.get? name).isSome → g.Linked A node name
  complete : (∀ name, g.Linked A node name → ∃ asset,
      g.collectInput A nodeStates parentLoc node name = .ok asset) →
    ∃ inputs, g.collectInputs A nodeStates parentLoc node = .ok inputs

structure OneProducer [Repr P] : Prop where
  single : g.SingleLinked A
  alike : ∀ nodeStates parentLoc node, g.CollectsAlike A nodeStates parentLoc node

/-- A call that would link two ports links to one that has no link yet. -/
def LinksFresh : BuildCall → Prop
  | .addNode _ _ _ => True
  | .linkNodesByPortName fromNode fromOutput toNode toInput =>
    ∀ o p, g.outputPort? fromNode fromOutput = some o → g.inputPort? toNode toInput = some p →
      A.portLinks g.graph p = []

/-- The maps and the ports fit together. -/
structure Indexed : Prop where
  input : ∀ node name p, g.inputPort? node name = some p →
    p ∈ A.inputs g.graph node ∧ g.portNames.get? p = some name
  output : ∀ node name p, g.outputPort? node name = some p →
    p ∈ A.outputs g.graph node ∧ g.portNames.get? p = some name
  link : ∀ node, ∀ p ∈ A.inputs g.graph node, ∀ o ∈ A.portLinks g.graph p,
    (∃ name, g.inputPort? node name = some p) ∧
      ∃ source name, o ∈ A.outputs g.graph source ∧ g.portNames.get? o = some name

/-! ## Adding nodes -/

section AddNode

variable {A} {m : HashMap P String} {ports : List (P × String)} {p : P} {name : String}

theorem namePorts_of_notMem (h : p ∉ ports.map Prod.fst) :
    (namePorts m ports).get? p = m.get? p := HashMap.get?_ofList_cons_notMem h

theorem namePorts_of_mem (h : (ports.map Prod.fst).Nodup) (hm : (p, name) ∈ ports) :
    (namePorts m ports).get? p = some name := HashMap.get?_foldl_insert_of_mem h hm m

omit [DecidableEq P] in
theorem mem_of_portsByName (h : (portsByName ports).get? name = some p) : (p, name) ∈ ports := by
  obtain ⟨e, he, hp⟩ := List.mem_map.1 (HashMap.mem_of_get?_ofList h)
  cases hp
  exact he

omit [DecidableEq P] in
theorem fst_mem_of_mem_zip {l : List P} {names : List String}
    (h : p ∈ (l.zip names).map Prod.fst) : p ∈ l := by
  obtain ⟨e, he, rfl⟩ := List.mem_map.1 h
  exact (List.of_mem_zip he).1

omit [DecidableEq P] in
theorem nodup_zip {l : List P} {names : List String} (h : l.Nodup)
    (hlen : l.length = names.length) : ((l.zip names).map Prod.fst).Nodup := by
  rwa [List.map_fst_zip (Nat.le_of_eq hlen)]

variable {g g' : IndexedGraph G P}

/-- A new node, and its ports in the maps. -/
structure Extends (A : PortGraphs G P) (g g' : IndexedGraph G P) (idx : NodeIndex)
    (inputs outputs : List String) : Prop where
  graph : A.addNode g.graph inputs.length outputs.length = (idx, g'.graph)
  input : ∀ node name p, g'.inputPort? node name = some p →
    if node = idx then (p, name) ∈ (A.inputs g'.graph idx).zip inputs
    else g.inputPort? node name = some p
  input_old : ∀ node name, node ≠ idx → g'.inputPort? node name = g.inputPort? node name
  output : ∀ node name p, g'.outputPort? node name = some p →
    if node = idx then (p, name) ∈ (A.outputs g'.graph idx).zip outputs
    else g.outputPort? node name = some p
  portNames : g'.portNames = namePorts
    (namePorts g.portNames ((A.inputs g'.graph idx).zip inputs))
    ((A.outputs g'.graph idx).zip outputs)

namespace Extends

variable {idx : NodeIndex} {inputs outputs : List String}

theorem index (h : Extends A g g' idx inputs outputs) :
    (A.addNode g.graph inputs.length outputs.length).1 = idx := congrArg Prod.fst h.graph

theorem length_ports (h : Extends A g g' idx inputs outputs) :
    (A.inputs g'.graph idx).length = inputs.length ∧
      (A.outputs g'.graph idx).length = outputs.length := by
  have hlen := A.length_addNode g.graph inputs.length outputs.length
  rwa [h.graph] at hlen

theorem ports_ne (h : Extends A g g' idx inputs outputs) {node : NodeIndex} (hn : node ≠ idx) :
    A.inputs g'.graph node = A.inputs g.graph node ∧
      A.outputs g'.graph node = A.outputs g.graph node := by
  have hother := A.addNode_other (g := g.graph) (i := inputs.length) (o := outputs.length)
    (h.index ▸ hn)
  rwa [h.graph] at hother

/-- A port of a node that was there has the links it had, and a new one has none. -/
theorem portLinks_of_mem (h : Extends A g g' idx inputs outputs) {node : NodeIndex}
    (hp : p ∈ A.inputs g'.graph node) :
    (node = idx ∧ A.portLinks g'.graph p = []) ∨
      (node ≠ idx ∧ p ∈ A.inputs g.graph node ∧ A.portLinks g'.graph p = A.portLinks g.graph p) := by
  by_cases hn : node = idx
  · subst hn
    have hnone := A.portLinks_addNode (g := g.graph) (i := inputs.length) (o := outputs.length)
      (p := p)
    rw [h.graph] at hnone
    exact .inl ⟨rfl, hnone hp⟩
  · rw [(h.ports_ne hn).1] at hp
    have hlinks := A.portLinks_addNode_other (i := inputs.length) (o := outputs.length) hp
    rw [h.graph] at hlinks
    exact .inr ⟨hn, hp, hlinks⟩

theorem portName_input (h : Extends A g g' idx inputs outputs)
    (hp : (p, name) ∈ (A.inputs g'.graph idx).zip inputs) : g'.portNames.get? p = some name := by
  have hnot : p ∉ ((A.outputs g'.graph idx).zip outputs).map Prod.fst := fun hout =>
    A.notMem_outputs (List.of_mem_zip hp).1 (fst_mem_of_mem_zip hout)
  rw [h.portNames, namePorts_of_notMem hnot]
  exact namePorts_of_mem (nodup_zip (A.nodup_inputs _ _) h.length_ports.1) hp

theorem portName_output (h : Extends A g g' idx inputs outputs)
    (hp : (p, name) ∈ (A.outputs g'.graph idx).zip outputs) : g'.portNames.get? p = some name := by
  rw [h.portNames]
  exact namePorts_of_mem (nodup_zip (A.nodup_outputs _ _) h.length_ports.2) hp

theorem portName_old (h : Extends A g g' idx inputs outputs)
    (hin : p ∉ A.inputs g'.graph idx) (hout : p ∉ A.outputs g'.graph idx) :
    g'.portNames.get? p = g.portNames.get? p := by
  rw [h.portNames, namePorts_of_notMem fun h => hout (fst_mem_of_mem_zip h),
    namePorts_of_notMem fun h => hin (fst_mem_of_mem_zip h)]

/-- The ports of the other nodes keep their names. -/
theorem portName_of_mem_inputs (h : Extends A g g' idx inputs outputs) {node : NodeIndex}
    (hp : p ∈ A.inputs g.graph node) : g'.portNames.get? p = g.portNames.get? p := by
  have hn : node ≠ idx := h.index ▸ A.ne_of_mem_inputs _ _ hp
  rw [← (h.ports_ne hn).1] at hp
  exact h.portName_old (fun h' => hn (A.eq_of_mem_inputs hp h')) (A.notMem_outputs hp)

theorem portName_of_mem_outputs (h : Extends A g g' idx inputs outputs) {node : NodeIndex}
    (hp : p ∈ A.outputs g.graph node) : g'.portNames.get? p = g.portNames.get? p := by
  have hn : node ≠ idx := h.index ▸ A.ne_of_mem_outputs _ _ hp
  rw [← (h.ports_ne hn).2] at hp
  exact h.portName_old (fun h' => A.notMem_outputs h' hp) fun h' => hn (A.eq_of_mem_outputs hp h')

theorem indexed (h : Extends A g g' idx inputs outputs) (hg : g.Indexed A) : g'.Indexed A where
  input node name p hp := by
    have hp := h.input node name p hp
    split at hp
    · rename_i hn
      subst hn
      exact ⟨(List.of_mem_zip hp).1, h.portName_input hp⟩
    · rename_i hn
      obtain ⟨hmem, hname⟩ := hg.input node name p hp
      exact ⟨(h.ports_ne hn).1 ▸ hmem, (h.portName_of_mem_inputs hmem).trans hname⟩
  output node name p hp := by
    have hp := h.output node name p hp
    split at hp
    · rename_i hn
      subst hn
      exact ⟨(List.of_mem_zip hp).1, h.portName_output hp⟩
    · rename_i hn
      obtain ⟨hmem, hname⟩ := hg.output node name p hp
      exact ⟨(h.ports_ne hn).2 ▸ hmem, (h.portName_of_mem_outputs hmem).trans hname⟩
  link node p hp o ho := by
    rcases h.portLinks_of_mem hp with ⟨-, hnone⟩ | ⟨hn, hold, hlinks⟩
    · rw [hnone] at ho
      cases ho
    · rw [hlinks] at ho
      obtain ⟨⟨inputName, hin⟩, source, outputName, hsource, hout⟩ := hg.link node p hold o ho
      have hs : source ≠ idx := h.index ▸ A.ne_of_mem_outputs _ _ hsource
      refine ⟨⟨inputName, by rw [h.input_old _ _ hn, hin]⟩, source, outputName, ?_, ?_⟩
      · rw [(h.ports_ne hs).2]
        exact hsource
      · rw [h.portName_of_mem_outputs hsource, hout]

end Extends

end AddNode

variable {A} {g : IndexedGraph G P}

theorem extends_addNode (nodeDefinition : NodeDefinition) (inputs outputs : List String) :
    Extends A g (g.addNode A nodeDefinition inputs outputs).2
      (A.addNode g.graph inputs.length outputs.length).1 inputs outputs where
  graph := rfl
  input node name p hp := by
    rw [inputPort?, addNode, HashMap.get?_insert] at hp
    split_ifs at hp ⊢
    · exact mem_of_portsByName hp
    · exact hp
  input_old node name hn := by
    rw [inputPort?, addNode, HashMap.get?_insert_ne _ _ hn]
    rfl
  output node name p hp := by
    rw [outputPort?, addNode, HashMap.get?_insert] at hp
    split_ifs at hp ⊢
    · exact mem_of_portsByName hp
    · exact hp
  portNames := rfl

variable (A) in
/-- The graph before its output node. -/
def bare : IndexedGraph G P where
  graph := A.new
  nodeDefinitions := ∅
  inputPortIndices := ∅
  outputPortIndices := ∅
  portNames := ∅
  outputNode := 0

theorem indexed_bare : (bare A).Indexed A where
  input _ _ _ h := nomatch h
  output _ _ _ h := nomatch h
  link node p hp := by
    rw [bare, A.inputs_new] at hp
    cases hp

theorem extends_new (graphOutputs : List String) :
    Extends A (bare A) (new A graphOutputs) (A.addNode A.new graphOutputs.length 0).1
      graphOutputs [] where
  graph := rfl
  input node name p hp := by
    rw [inputPort?, new, HashMap.get?_insert] at hp
    split_ifs at hp ⊢
    · exact mem_of_portsByName hp
    · exact hp
  input_old node name hn := by
    rw [inputPort?, new, HashMap.get?_insert_ne _ _ hn]
    rfl
  output node name p hp := nomatch hp
  portNames := by
    rw [List.zip_nil_right]
    rfl

/-! ## Linking ports -/

omit [DecidableEq P] in
theorem linkNodesByPortName_eq_ok {g' : IndexedGraph G P} {fromNode toNode : NodeIndex}
    {fromOutput toInput : String} :
    g.linkNodesByPortName A fromNode fromOutput toNode toInput = .ok g' ↔
      ∃ o p graph, g.outputPort? fromNode fromOutput = some o ∧
        g.inputPort? toNode toInput = some p ∧ A.linkPorts g.graph o p = some graph ∧
        g' = { g with graph } := by
  have hmap : ∀ (res : Result (IndexedGraph G P)) (text : String),
      res.mapError (Failure.wrapErr text) = .ok g' ↔ res = .ok g' := by
    intro res text
    cases res <;> simp [Except.mapError]
  unfold linkNodesByPortName
  simp only [hmap, Result.bind_eq_ok, okOr_eq_ok, outputPort?, inputPort?, Option.bind_eq_some_iff]
  constructor
  · rintro ⟨outputs, houtputs, o, ho, inputs, hinputs, p, hp, graph, hgraph, hg⟩
    cases hg
    exact ⟨o, p, graph, ⟨outputs, houtputs, ho⟩, ⟨inputs, hinputs, hp⟩, hgraph, rfl⟩
  · rintro ⟨o, p, graph, ⟨outputs, houtputs, ho⟩, ⟨inputs, hinputs, hp⟩, hgraph, rfl⟩
    exact ⟨outputs, houtputs, o, ho, inputs, hinputs, p, hp, graph, hgraph, rfl⟩

/-- A call for ports that are there links them, and any other leaves the graph as it is. -/
theorem build_link_cases (h : g.Indexed A) (fromNode : NodeIndex) (fromOutput : String)
    (toNode : NodeIndex) (toInput : String) :
    (∃ o p graph, g.outputPort? fromNode fromOutput = some o ∧
        g.inputPort? toNode toInput = some p ∧ A.linkPorts g.graph o p = some graph ∧
        g.build A (.linkNodesByPortName fromNode fromOutput toNode toInput) = { g with graph }) ∨
      ((∀ o p, g.outputPort? fromNode fromOutput = some o →
          g.inputPort? toNode toInput ≠ some p) ∧
        g.build A (.linkNodesByPortName fromNode fromOutput toNode toInput) = g) := by
  rw [build]
  split
  · rename_i g' hg
    obtain ⟨o, p, graph, ho, hp, hgraph, rfl⟩ := linkNodesByPortName_eq_ok.1 hg
    exact .inl ⟨o, p, graph, ho, hp, hgraph, rfl⟩
  · rename_i e he
    refine .inr ⟨fun o p ho hp => ?_, rfl⟩
    obtain ⟨graph, hgraph⟩ := Option.isSome_iff_exists.1
      (A.linkPorts_isSome (h.output _ _ _ ho).1 (h.input _ _ _ hp).1)
    have hok := linkNodesByPortName_eq_ok.2 ⟨o, p, graph, ho, hp, hgraph, rfl⟩
    exact absurd (he.symm.trans hok) nofun

theorem Indexed.link_indexed (h : g.Indexed A) {fromNode toNode : NodeIndex}
    {fromOutput toInput : String} {o p : P} {graph : G}
    (ho : g.outputPort? fromNode fromOutput = some o) (hp : g.inputPort? toNode toInput = some p)
    (hgraph : A.linkPorts g.graph o p = some graph) :
    ({ g with graph } : IndexedGraph G P).Indexed A where
  input node name q hq := by
    rw [(A.linkPorts_ports hgraph node).1]
    exact h.input node name q hq
  output node name q hq := by
    rw [(A.linkPorts_ports hgraph node).2]
    exact h.output node name q hq
  link node q hq o' ho' := by
    rw [(A.linkPorts_ports hgraph node).1] at hq
    have hold : o' ∈ A.portLinks g.graph q →
        (∃ name, g.inputPort? node name = some q) ∧ ∃ source name,
          o' ∈ A.outputs graph source ∧ g.portNames.get? o' = some name := by
      intro hmem
      obtain ⟨hin, source, name, hsource, hname⟩ := h.link node q hq o' hmem
      rw [← (A.linkPorts_ports hgraph source).2] at hsource
      exact ⟨hin, source, name, hsource, hname⟩
    by_cases hqp : q = p
    · subst hqp
      rcases List.mem_cons.1 ((A.portLinks_linkPorts hgraph).mem_iff.1 ho') with rfl | hmem
      · obtain ⟨hmem, hname⟩ := h.output _ _ _ ho
        have hnode := A.eq_of_mem_inputs hq (h.input _ _ _ hp).1
        rw [← (A.linkPorts_ports hgraph fromNode).2] at hmem
        exact ⟨⟨toInput, hnode ▸ hp⟩, fromNode, fromOutput, hmem, hname⟩
      · exact hold hmem
    · rw [A.portLinks_linkPorts_other hgraph hq hqp] at ho'
      exact hold ho'

theorem Indexed.build (h : g.Indexed A) (call : BuildCall) : (g.build A call).Indexed A := by
  cases call with
  | addNode nodeDefinition inputs outputs =>
    exact (extends_addNode nodeDefinition inputs outputs).indexed h
  | linkNodesByPortName fromNode fromOutput toNode toInput =>
    rcases build_link_cases h fromNode fromOutput toNode toInput with
      ⟨o, p, graph, ho, hp, hgraph, heq⟩ | ⟨-, heq⟩
    · rw [heq]
      exact h.link_indexed ho hp hgraph
    · rwa [heq]

/-! ## Single links -/

/-- Ports and their links stay. -/
theorem links_build (h : g.Indexed A) (call : BuildCall) {node : NodeIndex} {p : P}
    (hp : p ∈ A.inputs g.graph node) :
    p ∈ A.inputs (g.build A call).graph node ∧
      (A.portLinks g.graph p).length ≤ (A.portLinks (g.build A call).graph p).length := by
  cases call with
  | addNode nodeDefinition inputs outputs =>
    have hext : Extends A g (g.addNode A nodeDefinition inputs outputs).2 _ inputs outputs :=
      extends_addNode nodeDefinition inputs outputs
    have hn := A.ne_of_mem_inputs inputs.length outputs.length hp
    have hlinks := A.portLinks_addNode_other (i := inputs.length) (o := outputs.length) hp
    refine ⟨(hext.ports_ne hn).1 ▸ hp, ?_⟩
    exact Nat.le_of_eq (congrArg List.length hlinks).symm
  | linkNodesByPortName fromNode fromOutput toNode toInput =>
    rcases build_link_cases h fromNode fromOutput toNode toInput with
      ⟨o, q, graph, -, -, hgraph, heq⟩ | ⟨-, heq⟩
    · rw [heq]
      refine ⟨(A.linkPorts_ports hgraph node).1 ▸ hp, ?_⟩
      by_cases hq : p = q
      · subst hq
        rw [(A.portLinks_linkPorts hgraph).length_eq, List.length_cons]
        exact Nat.le_succ _
      · rw [A.portLinks_linkPorts_other hgraph hp hq]
    · rw [heq]
      exact ⟨hp, Nat.le_refl _⟩

/-- What one call does: the links stay single if and only if it links a port without a link. -/
theorem singleLinked_build_iff (h : g.Indexed A) (hs : g.SingleLinked A) (call : BuildCall) :
    (g.build A call).SingleLinked A ↔ g.LinksFresh A call := by
  cases call with
  | addNode nodeDefinition inputs outputs =>
    refine iff_of_true (fun node p hp => ?_) trivial
    rcases (extends_addNode nodeDefinition inputs outputs).portLinks_of_mem hp with
      ⟨-, hnone⟩ | ⟨-, hold, hlinks⟩
    · exact Nat.le_trans (Nat.le_of_eq (congrArg List.length hnone)) (Nat.zero_le 1)
    · exact Nat.le_trans (Nat.le_of_eq (congrArg List.length hlinks)) (hs node p hold)
  | linkNodesByPortName fromNode fromOutput toNode toInput =>
    rcases build_link_cases h fromNode fromOutput toNode toInput with
      ⟨o, p, graph, ho, hp, hgraph, heq⟩ | ⟨hnone, heq⟩
    · rw [heq]
      have hmem := (h.input _ _ _ hp).1
      constructor
      · intro hsingle o' p' _ hp'
        obtain rfl : p = p' := Option.some.inj (hp.symm.trans hp')
        have hlen := hsingle toNode p ((A.linkPorts_ports hgraph toNode).1 ▸ hmem)
        rw [(A.portLinks_linkPorts hgraph).length_eq, List.length_cons] at hlen
        exact List.eq_nil_of_length_eq_zero (by omega)
      · intro hfresh node q hq
        rw [(A.linkPorts_ports hgraph node).1] at hq
        by_cases hqp : q = p
        · subst hqp
          rw [(A.portLinks_linkPorts hgraph).length_eq, List.length_cons, hfresh o q ho hp]
          exact Nat.le_refl 1
        · rw [A.portLinks_linkPorts_other hgraph hq hqp]
          exact hs node q hq
    · rw [heq]
      exact iff_of_true hs fun o p ho hp => absurd hp (hnone o p ho)

/-- Along a whole run. -/
theorem singleLinked_foldl_iff {calls : List BuildCall} : ∀ {g : IndexedGraph G P}, g.Indexed A →
    g.SingleLinked A → ((calls.foldl (build A) g).SingleLinked A ↔
      Along (build A) (LinksFresh A) g calls) := by
  have hstays : ∀ {calls : List BuildCall} {g : IndexedGraph G P}, g.Indexed A →
      (calls.foldl (build A) g).SingleLinked A → g.SingleLinked A := by
    intro calls
    induction calls with
    | nil => exact fun _ h => h
    | cons call calls ih =>
      intro g hg h node p hp
      obtain ⟨hmem, hlen⟩ := links_build hg call hp
      exact Nat.le_trans hlen (ih (hg.build call) h node p hmem)
  induction calls with
  | nil => exact fun _ hs => iff_of_true hs trivial
  | cons call calls ih =>
    intro g hg hs
    rw [List.foldl_cons, Along]
    constructor
    · intro h
      have hstep := hstays (hg.build call) h
      exact ⟨(singleLinked_build_iff hg hs call).1 hstep, (ih (hg.build call) hstep).1 h⟩
    · rintro ⟨hfresh, hrest⟩
      have hstep := (singleLinked_build_iff hg hs call).2 hfresh
      exact (ih (hg.build call) hstep).2 hrest

/-! ## Collecting -/

section Links

variable {nodeStates : NodeStates} {parentLoc : Location}

/-- Links of distinct names each have their entry. -/
theorem collectLinks_eq_ok {links : List (String × OutPort)} :
    ∀ {inputs collected : Specs}, (links.map Prod.fst).Nodup →
      Tierkreis.collectLinks nodeStates parentLoc links inputs = .ok collected →
        (∀ l ∈ links, ∃ asset, linkedOutput nodeStates parentLoc l.2 = .ok asset ∧
          collected.get? l.1 = some asset) ∧
        ∀ name, name ∉ links.map Prod.fst → collected.get? name = inputs.get? name := by
  induction links with
  | nil =>
    intro inputs collected _ h
    cases h
    exact ⟨nofun, fun _ _ => rfl⟩
  | cons link links ih =>
    intro inputs collected hnodup h
    rw [List.map_cons, List.nodup_cons] at hnodup
    rw [Tierkreis.collectLinks, Result.bind_eq_ok] at h
    obtain ⟨asset, hasset, h⟩ := h
    obtain ⟨hin, hout⟩ := ih hnodup.2 h
    refine ⟨List.forall_mem_cons.2 ⟨⟨asset, hasset, ?_⟩, hin⟩, fun name hname => ?_⟩
    · rw [hout _ hnodup.1, HashMap.get?_insert_self]
    · rw [List.map_cons, List.mem_cons, not_or] at hname
      rw [hout name hname.2, HashMap.get?_insert_ne _ _ hname.1]

theorem exists_collectLinks {links : List (String × OutPort)}
    (h : ∀ l ∈ links, ∃ asset, linkedOutput nodeStates parentLoc l.2 = .ok asset) :
    ∀ inputs, ∃ collected, Tierkreis.collectLinks nodeStates parentLoc links inputs = .ok collected := by
  induction links with
  | nil => exact fun inputs => ⟨inputs, rfl⟩
  | cons link links ih =>
    intro inputs
    obtain ⟨⟨asset, hasset⟩, hrest⟩ := List.forall_mem_cons.1 h
    obtain ⟨collected, hcollected⟩ := ih hrest (inputs.insert link.1 asset)
    exact ⟨collected, Result.bind_eq_ok.2 ⟨asset, hasset, hcollected⟩⟩

variable (A g) in
/-- A link by the names of its ports. -/
def namedLink (l : P × P) : String × OutPort :=
  ((g.portNames.get? l.1).getD "",
    ⟨(A.portNode g.graph l.2).getD 0, (g.portNames.get? l.2).getD ""⟩)

variable [Repr P]

/-- The ports of a link have names, by which the input port is found. -/
theorem Indexed.named (h : g.Indexed A) {node : NodeIndex} {l : P × P}
    (hl : l ∈ A.inputLinks g.graph node) :
    g.portNames.get? l.1 = some (g.namedLink A l).1 ∧
      g.inputPort? node (g.namedLink A l).1 = some l.1 ∧
      g.portNames.get? l.2 = some (g.namedLink A l).2.port ∧
      g.portNode A l.2 = .ok (g.namedLink A l).2.node := by
  obtain ⟨hmem, hsource⟩ := A.mem_inputLinks.1 hl
  obtain ⟨⟨name, hname⟩, source, outputName, hmemo, houtput⟩ := h.link _ _ hmem _ hsource
  have hin := (h.input _ _ _ hname).2
  have hport := A.portNode_of_mem_outputs hmemo
  refine ⟨?_, ?_, ?_, ?_⟩
  · rw [namedLink, hin]
    rfl
  · rw [namedLink, hin]
    exact hname
  · rw [namedLink, houtput]
    rfl
  · rw [portNode, namedLink, hport]
    rfl

theorem linked_iff (h : g.Indexed A) {node : NodeIndex} {name : String} :
    g.Linked A node name ↔
      name ∈ ((A.inputLinks g.graph node).map (g.namedLink A)).map Prod.fst := by
  rw [List.map_map, List.mem_map]
  constructor
  · rintro ⟨p, hp, hne, hname⟩
    obtain ⟨o, ho⟩ := List.exists_mem_of_ne_nil _ hne
    have hl : (p, o) ∈ A.inputLinks g.graph node := A.mem_inputLinks.2 ⟨hp, ho⟩
    exact ⟨(p, o), hl, Option.some.inj ((h.named hl).1.symm.trans hname)⟩
  · rintro ⟨l, hl, rfl⟩
    obtain ⟨hp, ho⟩ := A.mem_inputLinks.1 hl
    exact ⟨l.1, hp, List.ne_nil_of_mem ho, (h.named hl).1⟩

/-- Reading the links of a built graph is reading their names. -/
theorem Indexed.collectInputs_eq (h : g.Indexed A) (node : NodeIndex) :
    g.collectInputs A nodeStates parentLoc node =
      Tierkreis.collectLinks nodeStates parentLoc
        ((A.inputLinks g.graph node).map (g.namedLink A)) ∅ := by
  have hs : ∀ links : List (P × P), (∀ l ∈ links, l ∈ A.inputLinks g.graph node) →
      ∀ inputs, g.collectLinks A nodeStates parentLoc links inputs =
        Tierkreis.collectLinks nodeStates parentLoc (links.map (g.namedLink A)) inputs := by
    intro links
    induction links with
    | nil => exact fun _ _ => rfl
    | cons l links ih =>
      intro hl inputs
      obtain ⟨hl, hlinks⟩ := List.forall_mem_cons.1 hl
      obtain ⟨hin, -, hout, hnode⟩ := h.named hl
      have hrest := fun asset => ih hlinks (inputs.insert (g.namedLink A l).1 asset)
      rw [collectLinks, List.map_cons, Tierkreis.collectLinks, getPortName, getPortName, hin, hout,
        hnode]
      exact congrArg (bind _) (funext hrest)
  exact hs _ (fun _ hl => hl) ∅

theorem collectInput_eq (h : g.Indexed A) (hs : g.SingleLinked A) {node : NodeIndex} {l : P × P}
    (hl : l ∈ A.inputLinks g.graph node) :
    g.collectInput A nodeStates parentLoc node (g.namedLink A l).1 =
      linkedOutput nodeStates parentLoc (g.namedLink A l).2 := by
  obtain ⟨-, hindex, hout, hnode⟩ := h.named hl
  obtain ⟨hmem, hsource⟩ := A.mem_inputLinks.1 hl
  have hlink : A.portLink g.graph l.1 = some l.2 := by
    refine A.portLink_of_singleton ?_
    have hlen := hs node l.1 hmem
    match hg : A.portLinks g.graph l.1, hsource, hlen with
    | [o], hsource, _ => rw [List.mem_singleton.1 hsource]
    | _ :: _ :: _, _, hlen => simp at hlen
  have hport : g.getInputPortIndex node (g.namedLink A l).1 = .ok l.1 := by
    obtain ⟨ports, hports, hp⟩ := Option.bind_eq_some_iff.1 hindex
    exact Result.bind_eq_ok.2 ⟨ports, okOr_eq_ok.2 hports, okOr_eq_ok.2 hp⟩
  have hconnected : g.connectedInput A l.1 = .ok ((g.namedLink A l).2.node, l.2) := by
    rw [connectedInput, hlink]
    exact Result.bind_eq_ok.2 ⟨l.2, rfl, Result.bind_eq_ok.2 ⟨_, hnode, rfl⟩⟩
  rw [collectInput, hport]
  change (g.connectedInput A l.1 >>= _) = _
  rw [hconnected]
  change (g.getPortName l.2 >>= _) = _
  rw [getPortName, hout]
  rfl

theorem nodup_inputLinks (h : g.Indexed A) (hs : g.SingleLinked A) (node : NodeIndex) :
    (((A.inputLinks g.graph node).map (g.namedLink A)).map Prod.fst).Nodup := by
  have hinj : ∀ l ∈ A.inputLinks g.graph node, ∀ l' ∈ A.inputLinks g.graph node,
      (g.namedLink A l).1 = (g.namedLink A l').1 → l.1 = l'.1 := by
    intro l hl l' hl' he
    have hindex := (h.named hl).2.1
    rw [he, (h.named hl').2.1] at hindex
    exact (Option.some.inj hindex).symm
  have hmap : ((A.inputLinks g.graph node).map (g.namedLink A)).map Prod.fst =
      ((A.inputLinks g.graph node).map Prod.fst).map fun p => (g.portNames.get? p).getD "" := by
    rw [List.map_map, List.map_map]
    rfl
  rw [hmap]
  refine List.Nodup.map_on ?_ (A.nodup_inputLinks (hs node))
  intro p hp p' hp' he
  obtain ⟨l, hl, rfl⟩ := List.mem_map.1 hp
  obtain ⟨l', hl', rfl⟩ := List.mem_map.1 hp'
  exact hinj l hl l' hl' he

theorem collectsAlike (h : g.Indexed A) (hs : g.SingleLinked A) (node : NodeIndex) :
    g.CollectsAlike A nodeStates parentLoc node where
  same inputs hinputs name hname := by
    rw [h.collectInputs_eq] at hinputs
    obtain ⟨hin, -⟩ := collectLinks_eq_ok (nodup_inputLinks h hs node) hinputs
    obtain ⟨_, hmem, rfl⟩ := List.mem_map.1 ((linked_iff h).1 hname)
    obtain ⟨l, hl, rfl⟩ := List.mem_map.1 hmem
    obtain ⟨asset, hasset, hget⟩ := hin _ (List.mem_map_of_mem hl)
    exact ⟨asset, hget, (collectInput_eq h hs hl).trans hasset⟩
  only inputs hinputs name hname := by
    rw [h.collectInputs_eq] at hinputs
    obtain ⟨-, hout⟩ := collectLinks_eq_ok (nodup_inputLinks h hs node) hinputs
    rw [linked_iff h]
    by_contra hnot
    rw [hout name hnot] at hname
    cases hname
  complete hok := by
    rw [h.collectInputs_eq]
    refine exists_collectLinks (fun named hnamed => ?_) ∅
    obtain ⟨l, hl, rfl⟩ := List.mem_map.1 hnamed
    have hlinked : g.Linked A node (g.namedLink A l).1 :=
      (linked_iff h).2 (List.mem_map_of_mem (List.mem_map_of_mem hl))
    obtain ⟨asset, hasset⟩ := hok _ hlinked
    exact ⟨asset, (collectInput_eq h hs hl).symm.trans hasset⟩

end Links

/-! ## Built graphs -/

theorem indexed_new (graphOutputs : List String) : (new A graphOutputs).Indexed A :=
  (extends_new graphOutputs).indexed indexed_bare

theorem singleLinked_new (graphOutputs : List String) : (new A graphOutputs).SingleLinked A := by
  intro node p hp
  rcases (extends_new graphOutputs).portLinks_of_mem hp with ⟨-, hnone⟩ | ⟨-, hold, -⟩
  · rw [hnone]
    exact Nat.zero_le 1
  · rw [bare, A.inputs_new] at hold
    cases hold

theorem indexed_foldl {calls : List BuildCall} :
    ∀ {g : IndexedGraph G P}, g.Indexed A → (calls.foldl (build A) g).Indexed A := by
  induction calls with
  | nil => exact fun h => h
  | cons call calls ih => exact fun h => ih (h.build call)

/-- Every input port has one producer and both readers agree on it if and only if no call links a
port that is linked already. -/
theorem one_producer_iff {G P : Type} [DecidableEq P] [Repr P] (A : PortGraphs G P)
    (graphOutputs : List String) (calls : List BuildCall) :
    (calls.foldl (build A) (new A graphOutputs)).OneProducer A ↔
      Along (build A) (LinksFresh A) (new A graphOutputs) calls := by
  have hindexed : (new A graphOutputs).Indexed A := indexed_new graphOutputs
  rw [← singleLinked_foldl_iff hindexed (singleLinked_new graphOutputs)]
  constructor
  · exact fun h => h.single
  · intro hs
    exact ⟨hs, fun _ _ node => collectsAlike (indexed_foldl hindexed) hs node⟩

/-- Two inputs linked to the two outputs of a graph. -/
theorem one_producer_two :
    let calls : List BuildCall := [.addNode (.input "a") [] ["a"], .addNode (.input "b") [] ["b"],
      .linkNodesByPortName 1 "a" 0 "x", .linkNodesByPortName 2 "b" 0 "y"]
    let g := calls.foldl (build listGraphs) (new listGraphs ["x", "y"])
    g.OneProducer listGraphs ∧ g.Linked listGraphs 0 "x" ∧ g.Linked listGraphs 0 "y" := by
  intro calls g
  have hfresh : Along (build listGraphs) (LinksFresh listGraphs) (new listGraphs ["x", "y"])
      calls :=
    ⟨trivial, trivial, fun o p _ hp => by cases hp; rfl, fun o p _ hp => by cases hp; rfl, trivial⟩
  refine ⟨(one_producer_iff listGraphs _ _).2 hfresh, ?_, ?_⟩
  · exact ⟨⟨0, .incoming, 0⟩, by decide, by decide, rfl⟩
  · exact ⟨⟨0, .incoming, 1⟩, by decide, by decide, rfl⟩

/-- Two inputs linked to the one output of a graph: the port has two links. -/
theorem not_one_producer :
    let calls : List BuildCall := [.addNode (.input "a") [] ["a"], .addNode (.input "b") [] ["b"],
      .linkNodesByPortName 1 "a" 0 "x", .linkNodesByPortName 2 "b" 0 "x"]
    ¬ (calls.foldl (build listGraphs) (new listGraphs ["x"])).OneProducer listGraphs := by
  intro calls h
  exact absurd (h.single 0 ⟨0, .incoming, 0⟩ (by decide)) (by decide)

end IndexedGraph

end Tierkreis
