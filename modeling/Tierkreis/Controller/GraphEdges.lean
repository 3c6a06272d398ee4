import Tierkreis.Controller.GraphData
import Tierkreis.Lib.Run

/-!
# The output edges of a graph

`add` lists a node under the ports that it refers to. The lists are exact when
they hold each node once for each of its references, and nothing else: no node
for a reference to the enclosing scope, and no node under itself.
-/

namespace Tierkreis.Controller

open Lib Lib.Run

variable {V : Type}

namespace NodeDef

/-- All the references that a node holds. -/
def references (node : NodeDef V) : List ValueRef :=
  node.inputs.toList.map Prod.snd ++ node.kind.fieldEdges.map Prod.snd

/-- The inputs whose port is that of a field, which takes their place among the edges. -/
def hidden (node : NodeDef V) : List ValueRef :=
  node.kind.fieldEdges.filterMap fun e => node.inputs.get? e.1

/-- The references that are recorded. -/
def edges (node : NodeDef V) : List ValueRef := node.inEdges.toList.map Prod.snd

theorem insert_values_perm (m : HashMap PortID ValueRef) (k : PortID) (v : ValueRef) :
    ((m.insert k v).toList.map Prod.snd ++ (m.get? k).toList).Perm
      (m.toList.map Prod.snd ++ [v]) := by
  obtain ⟨rest, hnew, hold⟩ := m.toList_modify_perm v k fun _ => v
  have hnew : (m.insert k v).toList = (k, v) :: rest := hnew
  have hold : (m.toList.map Prod.snd).Perm ((m.get? k).toList ++ rest.map Prod.snd) := by
    refine (hold.map Prod.snd).trans (.of_eq ?_)
    simp
  rw [hnew, List.map_cons]
  refine .trans ?_ (hold.append_right [v]).symm
  refine .trans ?_ (@List.perm_append_comm _ [v] _)
  exact .cons v List.perm_append_comm

theorem insertAll_values_perm (l : List (PortID × ValueRef)) (hl : (l.map Prod.fst).Nodup) :
    ∀ m : HashMap PortID ValueRef,
      ((l.foldl (fun parents e => parents.insert e.1 e.2) m).toList.map Prod.snd ++
          l.filterMap fun e => m.get? e.1).Perm
        (m.toList.map Prod.snd ++ l.map Prod.snd) := by
  induction l with
  | nil => exact fun m => .of_eq (by simp)
  | cons e l ih =>
    intro m
    rw [List.map_cons, List.nodup_cons] at hl
    have hsame : (l.filterMap fun e' => (m.insert e.1 e.2).get? e'.1) =
        l.filterMap fun e' => m.get? e'.1 := by
      refine List.filterMap_congr fun e' he' => ?_
      exact HashMap.get?_insert_ne m e.2 fun h => hl.1 (h ▸ List.mem_map_of_mem he')
    have hhead : ((e :: l).filterMap fun e' => m.get? e'.1) =
        (m.get? e.1).toList ++ l.filterMap fun e' => m.get? e'.1 := by
      rw [List.filterMap_cons]
      cases m.get? e.1 with
      | none => rfl
      | some v => rfl
    have hrest := ih hl.2 (m.insert e.1 e.2)
    rw [hsame] at hrest
    rw [List.foldl_cons, hhead]
    refine .trans (List.Perm.append_left _ List.perm_append_comm) ?_
    rw [← List.append_assoc]
    refine .trans (hrest.append_right _) ?_
    rw [List.append_assoc]
    refine .trans (List.Perm.append_left _ List.perm_append_comm) ?_
    rw [← List.append_assoc]
    refine .trans ((insert_values_perm m e.1 e.2).append_right _) ?_
    rw [List.append_assoc]
    exact .refl _

theorem nodup_fieldEdges (kind : NodeKind V) : (kind.fieldEdges.map Prod.fst).Nodup := by
  cases kind with
  | ifelse pred ifTrue ifFalse => simp +decide [NodeKind.fieldEdges]
  | eifelse pred ifTrue ifFalse => simp +decide [NodeKind.fieldEdges]
  | _ => simp [NodeKind.fieldEdges]

/-- A reference is recorded or hidden. -/
theorem edges_perm (node : NodeDef V) : (node.edges ++ node.hidden).Perm node.references :=
  insertAll_values_perm _ (nodup_fieldEdges node.kind) node.inputs

theorem count_references (node : NodeDef V) (r : ValueRef) :
    node.references.count r = node.edges.count r + node.hidden.count r := by
  rw [← node.edges_perm.count_eq, List.count_append]

theorem mem_references {node : NodeDef V} {r : ValueRef} :
    r ∈ node.references ↔ r ∈ node.edges ∨ r ∈ node.hidden := by
  rw [← node.edges_perm.mem_iff, List.mem_append]

theorem outputNodes_appendOutput (node : NodeDef V) (p q : PortID) (idx : Int) :
    (node.appendOutput p idx).outputNodes q =
      node.outputNodes q ++ if q = p then [idx] else [] := by
  unfold outputNodes appendOutput
  simp only [HashMap.get?_modify]
  split
  · rename_i h
    rw [h]
    rfl
  · rw [List.append_nil]

end NodeDef

namespace GraphData

/-! ## Exact lists -/

/-- The references of the node at an index, if there is one. -/
def referencesAt (nodes : List (NodeDef V)) (j : Int) : List ValueRef :=
  if 0 ≤ j then ((nodes[j.toNat]?).map NodeDef.references).getD [] else []

structure EdgesExact (nodes : List (NodeDef V)) : Prop where
  /-- A node is listed once for each reference. -/
  listed : ∀ (i : Nat) (node : NodeDef V), nodes[i]? = some node → ∀ port j,
    (node.outputNodes port).count j = (referencesAt nodes j).count ((i : Int), port)
  noSelf : ∀ (i : Nat) (node : NodeDef V), nodes[i]? = some node → ∀ port,
    (i : Int) ∉ node.outputNodes port

/-- A call of the builder: a new node, whose references are to nodes or to the enclosing scope. -/
structure BuilderCall (V : Type) where
  node : NodeDef V
  kwargs : Kwargs := none
  fresh : ∀ port, node.outputNodes port = []
  scope : ∀ r ∈ node.references, -1 ≤ r.1

def step (g : GraphData V) (c : BuilderCall V) : GraphData V := (g.add c.node c.kwargs).2

/-- Nothing has changed when `add` raises, and the lists are exact. -/
structure KeepsEdges (g : GraphData V) (c : BuilderCall V) : Prop where
  raises : ∀ e, (g.add c.node c.kwargs).1 = .error e → g.step c = g
  exact : EdgesExact (g.step c).nodes

/-- The call is accepted, and refers to earlier nodes alone, from ports of its own. -/
structure RefersBack (g : GraphData V) (c : BuilderCall V) : Prop where
  output : c.node.kind.isOutput = true → g.graphOutputIdx = none
  metadata : ∀ msg, c.kwargs ≠ some (.error msg)
  edges : ∀ r ∈ c.node.edges, 0 ≤ r.1 ∧ r.1 < g.nodes.length
  hidden : ∀ r ∈ c.node.hidden, r.1 < 0 ∨ (g.nodes.length : Int) < r.1
  earlier : ∀ n ∈ g.nodes, ∀ r ∈ n.references, r.1 ≠ g.nodes.length

/-! ## Recording -/

theorem pyIndex_of_lt {length : Nat} {i : Int} (h : 0 ≤ i) (hlt : i < length) :
    pyIndex length i = some i.toNat := by
  have hneg : ¬i < 0 := by omega
  unfold pyIndex
  rw [if_neg hneg, if_pos ⟨h, hlt⟩]

theorem pyIndex_eq_none {length : Nat} {i : Int} (h : (length : Int) ≤ i) :
    pyIndex length i = none := by
  have hneg : ¬i < 0 := by omega
  have hout : ¬(0 ≤ i ∧ i < (length : Int)) := by omega
  unfold pyIndex
  rw [if_neg hneg, if_neg hout]

theorem pyIndex_neg_one (length : Nat) : pyIndex (length + 1) (-1) = some length := by
  unfold pyIndex
  rw [if_pos (by omega), if_pos (by omega)]
  congr 1
  omega

/-- The node has grown by the new node under its ports, once for each edge that leads to it. -/
def Recorded (idx : Int) (edges : List ValueRef) (nodes nodes' : List (NodeDef V)) : Prop :=
  ∀ (i : Nat) (n : NodeDef V), nodes[i]? = some n → ∃ n', nodes'[i]? = some n' ∧
    n'.references = n.references ∧ ∀ port, n'.outputNodes port = n.outputNodes port ++
      List.replicate (edges.countP fun e => pyIndex nodes.length e.1 = some i ∧ e.2 = port) idx

theorem length_recordEdges (idx : Int) : ∀ (edges : List ValueRef) (nodes : List (NodeDef V)),
    (recordEdges idx edges nodes).2.length = nodes.length
  | [], _ => rfl
  | (i, port) :: edges, nodes => by
    unfold recordEdges
    cases pyIndex nodes.length i with
    | none => rfl
    | some k => exact (length_recordEdges idx edges _).trans (List.length_modify _ _ _)

theorem recordEdges_ok (idx : Int) : ∀ (edges : List ValueRef) (nodes : List (NodeDef V)),
    (∀ e ∈ edges, pyIndex nodes.length e.1 ≠ none) →
      (recordEdges idx edges nodes).1 = .ok () ∧
        Recorded idx edges nodes (recordEdges idx edges nodes).2
  | [], nodes, _ => ⟨rfl, fun i n hn => ⟨n, hn, rfl, fun port => by simp⟩⟩
  | (i, port) :: edges, nodes, h => by
    unfold recordEdges
    cases hk : pyIndex nodes.length i with
    | none => exact absurd hk (h (i, port) List.mem_cons_self)
    | some k =>
      have hlen : (nodes.modify k fun n => n.appendOutput port idx).length = nodes.length :=
        List.length_modify _ _ _
      obtain ⟨hok, hrec⟩ := recordEdges_ok idx edges
        (nodes.modify k fun n => n.appendOutput port idx) fun e he => by
          rw [hlen]
          exact h e (.tail _ he)
      refine ⟨hok, fun j n hn => ?_⟩
      have hmod : (nodes.modify k fun n => n.appendOutput port idx)[j]? =
          some (if k = j then n.appendOutput port idx else n) := by
        rw [List.getElem?_modify, hn]
        split
        · rfl
        · rfl
      obtain ⟨n', hn', href, hout⟩ := hrec j _ hmod
      refine ⟨n', hn', ?_, fun q => ?_⟩
      · rw [href]
        split
        · rfl
        · rfl
      · rw [hout, hlen, List.countP_cons]
        have hhead : (if k = j then n.appendOutput port idx else n).outputNodes q =
            n.outputNodes q ++ if k = j ∧ q = port then [idx] else [] := by
          split
          · rename_i hkj
            rw [NodeDef.outputNodes_appendOutput]
            simp [hkj]
          · rename_i hkj
            simp [hkj]
        rw [hhead, hk, List.append_assoc]
        congr 1
        by_cases hkj : k = j ∧ q = port
        · rw [if_pos hkj]
          simp [hkj.1, hkj.2, List.replicate_succ]
        · have hne : ¬(k = j ∧ port = q) := fun hh => hkj ⟨hh.1, hh.2.symm⟩
          rw [if_neg hkj]
          simp [hne]

theorem recordEdges_error (idx : Int) : ∀ (edges : List ValueRef) (nodes : List (NodeDef V)),
    (∃ e ∈ edges, pyIndex nodes.length e.1 = none) →
      (recordEdges idx edges nodes).1 = .error .indexError
  | [], _, h => by
    obtain ⟨e, he, -⟩ := h
    cases he
  | (i, port) :: edges, nodes, h => by
    unfold recordEdges
    cases hk : pyIndex nodes.length i with
    | none => rfl
    | some k =>
      refine recordEdges_error idx edges _ ?_
      rw [List.length_modify]
      obtain ⟨e, he, hnone⟩ := h
      rcases List.mem_cons.1 he with rfl | he
      · rw [hk] at hnone
        cases hnone
      · exact ⟨e, he, hnone⟩

/-! ## One call -/

variable {g : GraphData V} {c : BuilderCall V}

theorem nodes_note (g : GraphData V) (idx : Int) (kind : NodeKind V) :
    (g.note idx kind).nodes = g.nodes := by
  unfold note
  split
  · rfl
  · rfl
  · rfl
  · rfl

/-- What `add` does with the graph that holds the new node and what is noted about it. -/
theorem add_eq {node : NodeDef V} {kwargs : Kwargs}
    (h : node.kind.isOutput = true → g.graphOutputIdx = none) :
    g.add node kwargs =
      let idx : Int := g.nodes.length
      let g' := ({ g with nodes := g.nodes ++ [node] } : GraphData V).note idx node.kind
      match kwargs with
      | some (.error msg) => (.error (.validation msg), g')
      | some (.ok metadata) =>
        connect { g' with nodeMetadata := g'.nodeMetadata.insert idx metadata } idx node
      | none => connect g' idx node := by
  unfold add
  dsimp only
  split
  · rename_i out hkind hout
    rw [h (by rw [hkind]; rfl)] at hout
    cases hout
  · rfl

/-- An accepted call records the edges of its node. -/
theorem add_accepted {node : NodeDef V} {kwargs : Kwargs}
    (houtput : node.kind.isOutput = true → g.graphOutputIdx = none)
    (hmetadata : ∀ msg, kwargs ≠ some (.error msg)) :
    let r := recordEdges g.nodes.length node.edges (g.nodes ++ [node])
    (g.add node kwargs).1 = r.1.map (fun _ => (g.nodes.length : Int)) ∧
      (g.add node kwargs).2.nodes = r.2 := by
  rw [add_eq houtput]
  cases hk : kwargs with
  | none =>
    simp only [connect, nodes_note]
    exact ⟨rfl, rfl⟩
  | some kwargs =>
    cases kwargs with
    | error msg => exact absurd hk (hmetadata msg)
    | ok metadata =>
      simp only [connect, nodes_note]
      exact ⟨rfl, rfl⟩

/-- A call that is accepted adds no second output. -/
theorem output_of_ok {node : NodeDef V} {kwargs : Kwargs} {idx : Int}
    (hok : (g.add node kwargs).1 = .ok idx) :
    node.kind.isOutput = true → g.graphOutputIdx = none := by
  intro hkind
  cases hout : g.graphOutputIdx with
  | none => rfl
  | some out =>
    cases hk : node.kind with
    | output =>
      unfold add at hok
      rw [hk, hout] at hok
      cases hok
    | _ =>
      rw [hk] at hkind
      cases hkind

theorem metadata_of_ok {node : NodeDef V} {kwargs : Kwargs} {idx : Int}
    (hok : (g.add node kwargs).1 = .ok idx) : ∀ msg, kwargs ≠ some (.error msg) := by
  intro msg hmsg
  rw [add_eq (output_of_ok hok), hmsg] at hok
  cases hok

/-- The graph of a call that raises holds the new node all the same. -/
theorem length_step : (g.step c).nodes.length = g.nodes.length + 1 := by
  by_cases houtput : c.node.kind.isOutput = true → g.graphOutputIdx = none
  · by_cases hmetadata : ∀ msg, c.kwargs ≠ some (.error msg)
    · rw [step, (add_accepted houtput hmetadata).2, length_recordEdges, List.length_append]
      rfl
    · obtain ⟨msg, hmsg⟩ := Classical.not_forall_not.1 hmetadata
      unfold step
      rw [add_eq houtput, hmsg]
      simp only [nodes_note, List.length_append]
      rfl
  · obtain ⟨hkind, hout⟩ := Classical.not_imp.1 houtput
    obtain ⟨out, hout⟩ := Option.ne_none_iff_exists'.1 hout
    cases hk : c.node.kind with
    | output =>
      unfold step add
      rw [hk, hout]
      simp
    | _ =>
      rw [hk] at hkind
      cases hkind

/-- A call that keeps the edges does not raise. -/
theorem KeepsEdges.accepted (h : KeepsEdges g c) : ∃ idx, (g.add c.node c.kwargs).1 = .ok idx := by
  cases hr : (g.add c.node c.kwargs).1 with
  | ok idx => exact ⟨idx, rfl⟩
  | error e =>
    have hsame := congrArg (fun g => g.nodes.length) (h.raises e hr)
    simp only [length_step] at hsame
    omega

theorem KeepsEdges.output (h : KeepsEdges g c) :
    c.node.kind.isOutput = true → g.graphOutputIdx = none := by
  obtain ⟨idx, hok⟩ := h.accepted
  exact output_of_ok hok

theorem KeepsEdges.metadata (h : KeepsEdges g c) : ∀ msg, c.kwargs ≠ some (.error msg) := by
  obtain ⟨idx, hok⟩ := h.accepted
  exact metadata_of_ok hok

/-- Where the references of the new node are recorded: at earlier nodes and at itself. -/
theorem resolve_edge {i : Int} (hscope : -1 ≤ i) (n : Nat) :
    pyIndex (n + 1) i = if (n : Int) < i then none else if i = -1 then some n else some i.toNat := by
  split
  · exact pyIndex_eq_none (by push_cast; omega)
  · split
    · rename_i h
      rw [h, pyIndex_neg_one]
    · exact pyIndex_of_lt (by omega) (by push_cast; omega)

/-- The nodes after an accepted call none of whose edges leads nowhere. -/
theorem recorded_step (houtput : c.node.kind.isOutput = true → g.graphOutputIdx = none)
    (hmetadata : ∀ msg, c.kwargs ≠ some (.error msg))
    (hedges : ∀ e ∈ c.node.edges, e.1 ≤ g.nodes.length) :
    (g.add c.node c.kwargs).1 = .ok (g.nodes.length : Int) ∧
      Recorded g.nodes.length c.node.edges (g.nodes ++ [c.node]) (g.step c).nodes := by
  obtain ⟨hresult, hnodes⟩ := add_accepted houtput hmetadata
  have hresolve : ∀ e ∈ c.node.edges, pyIndex (g.nodes ++ [c.node]).length e.1 ≠ none := by
    intro e he hnone
    have hscope := c.scope e (NodeDef.mem_references.2 (.inl he))
    have hle : ¬(g.nodes.length : Int) < e.1 := Int.not_lt.2 (hedges e he)
    rw [List.length_append, List.length_singleton, resolve_edge hscope, if_neg hle] at hnone
    split at hnone
    · cases hnone
    · cases hnone
  obtain ⟨hok, hrec⟩ := recordEdges_ok g.nodes.length c.node.edges (g.nodes ++ [c.node]) hresolve
  rw [step, hnodes]
  rw [hok] at hresult
  exact ⟨hresult, hrec⟩

theorem KeepsEdges.edges_le (h : KeepsEdges g c) : ∀ e ∈ c.node.edges, e.1 ≤ g.nodes.length := by
  intro e he
  obtain ⟨idx, hok⟩ := h.accepted
  obtain ⟨hresult, -⟩ := add_accepted h.output h.metadata
  refine Int.not_lt.1 fun hlt => ?_
  have hscope := c.scope e (NodeDef.mem_references.2 (.inl he))
  have herror := recordEdges_error g.nodes.length c.node.edges (g.nodes ++ [c.node]) ⟨e, he, by
    rw [List.length_append, List.length_singleton, resolve_edge hscope, if_pos hlt]⟩
  rw [hok, herror] at hresult
  cases hresult

theorem referencesAt_eq_nil {nodes : List (NodeDef V)} {j : Int}
    (h : j < 0 ∨ (nodes.length : Int) ≤ j) : referencesAt nodes j = [] := by
  unfold referencesAt
  split
  · have hout : nodes[j.toNat]? = none := List.getElem?_eq_none (by omega)
    rw [hout]
    rfl
  · rfl

theorem referencesAt_of_getElem? {nodes : List (NodeDef V)} {j : Nat} {n : NodeDef V}
    (h : nodes[j]? = some n) : referencesAt nodes (j : Int) = n.references := by
  unfold referencesAt
  rw [if_pos (Int.natCast_nonneg j), Int.toNat_natCast, h]
  rfl

/-- The references of the nodes after a call are those of the nodes before it and of the new one. -/
theorem referencesAt_recorded {nodes : List (NodeDef V)}
    (hlen : nodes.length = g.nodes.length + 1)
    (h : Recorded g.nodes.length c.node.edges (g.nodes ++ [c.node]) nodes) (j : Int) :
    referencesAt nodes j =
      if j = g.nodes.length then c.node.references else referencesAt g.nodes j := by
  by_cases hout : j < 0 ∨ (nodes.length : Int) ≤ j
  · have hne : j ≠ g.nodes.length := by omega
    rw [if_neg hne, referencesAt_eq_nil hout, referencesAt_eq_nil (by omega)]
  · obtain ⟨k, rfl⟩ : ∃ k : Nat, j = k := ⟨j.toNat, by omega⟩
    by_cases hk : k = g.nodes.length
    · subst hk
      have hnew : (g.nodes ++ [c.node])[g.nodes.length]? = some c.node := by simp
      obtain ⟨n', hn', href, -⟩ := h _ _ hnew
      rw [if_pos rfl, referencesAt_of_getElem? hn', href]
    · have hlt : k < g.nodes.length := by omega
      have hold : (g.nodes ++ [c.node])[k]? = some g.nodes[k] := by
        rw [List.getElem?_append_left hlt, List.getElem?_eq_getElem hlt]
      obtain ⟨n', hn', href, -⟩ := h _ _ hold
      have hne : (k : Int) ≠ g.nodes.length := by omega
      rw [if_neg hne, referencesAt_of_getElem? hn', href,
        referencesAt_of_getElem? (List.getElem?_eq_getElem hlt)]

/-- The edges that lead to an earlier node. -/
theorem countP_edges (hedges : ∀ e ∈ c.node.edges, 0 ≤ e.1 ∧ e.1 < g.nodes.length) (i : Nat)
    (port : PortID) : (c.node.edges.countP fun e =>
        pyIndex (g.nodes ++ [c.node]).length e.1 = some i ∧ e.2 = port) =
      c.node.edges.count ((i : Int), port) := by
  rw [List.count]
  refine List.countP_congr fun e he => ?_
  obtain ⟨h0, hlt⟩ := hedges e he
  obtain ⟨k, q⟩ := e
  rw [List.length_append, List.length_singleton, pyIndex_of_lt h0 (by push_cast; omega)]
  simp only [decide_eq_true_eq, Option.some.injEq, beq_iff_eq, Prod.mk.injEq]
  constructor
  · rintro ⟨hk, rfl⟩
    exact ⟨by omega, rfl⟩
  · rintro ⟨hk, rfl⟩
    exact ⟨by omega, rfl⟩

/-- A call that refers back keeps exact lists exact. -/
theorem RefersBack.keepsEdges (hg : EdgesExact g.nodes) (h : RefersBack g c) : KeepsEdges g c := by
  obtain ⟨hok, hrec⟩ := recorded_step h.output h.metadata fun e he =>
    Int.le_of_lt (h.edges e he).2
  refine ⟨fun e he => (by rw [hok] at he; cases he), ?_⟩
  have hrefs := referencesAt_recorded length_step hrec
  have hsplit : ∀ (i : Nat) (n : NodeDef V), (g.step c).nodes[i]? = some n → ∃ n₀,
      (g.nodes ++ [c.node])[i]? = some n₀ ∧ ∀ port, n.outputNodes port =
        n₀.outputNodes port ++ List.replicate (c.node.edges.count ((i : Int), port))
          (g.nodes.length : Int) := by
    intro i n hn
    have hlt : i < (g.nodes ++ [c.node]).length := by
      rw [List.length_append, List.length_singleton, ← length_step]
      exact (List.getElem?_eq_some_iff.1 hn).1
    obtain ⟨n', hn', -, hout⟩ := hrec i _ (List.getElem?_eq_getElem hlt)
    rw [hn] at hn'
    obtain rfl := Option.some.inj hn'
    refine ⟨_, List.getElem?_eq_getElem hlt, fun port => ?_⟩
    rw [hout, countP_edges h.edges]
  have hnoself : ∀ port, ((g.nodes.length : Int), port) ∉ c.node.edges := fun port hmem =>
    Int.lt_irrefl _ (h.edges _ hmem).2
  constructor
  · intro i n hn port j
    obtain ⟨n₀, hn₀, hout⟩ := hsplit i n hn
    rw [hout, List.count_append, List.count_replicate, hrefs]
    by_cases hi : i < g.nodes.length
    · rw [List.getElem?_append_left hi] at hn₀
      rw [hg.listed i n₀ hn₀]
      by_cases hj : j = g.nodes.length
      · subst hj
        have hnone : referencesAt g.nodes (g.nodes.length : Int) = [] :=
          referencesAt_eq_nil (.inr (Int.le_refl _))
        have hhidden : c.node.hidden.count ((i : Int), port) = 0 := by
          refine List.count_eq_zero.2 fun hmem => ?_
          have := h.hidden _ hmem
          simp only at this
          omega
        rw [if_pos rfl, hnone, NodeDef.count_references, hhidden]
        simp
      · have hne : ¬((g.nodes.length : Int) == j) = true := by simpa using Ne.symm hj
        rw [if_neg hj, if_neg hne, Nat.add_zero]
    · have hlen := (List.getElem?_eq_some_iff.1 hn₀).1
      rw [List.length_append, List.length_singleton] at hlen
      obtain rfl : i = g.nodes.length := by omega
      have hnew : n₀ = c.node := by simpa using hn₀.symm
      have hcount : c.node.edges.count ((g.nodes.length : Int), port) = 0 :=
        List.count_eq_zero.2 (hnoself port)
      have hnone : (if j = (g.nodes.length : Int) then c.node.references
          else referencesAt g.nodes j).count ((g.nodes.length : Int), port) = 0 := by
        refine List.count_eq_zero.2 fun hmem => ?_
        split at hmem
        · rcases NodeDef.mem_references.1 hmem with hmem | hmem
          · exact hnoself port hmem
          · have := h.hidden _ hmem
            simp only at this
            omega
        · unfold referencesAt at hmem
          split at hmem
          · cases hget : g.nodes[j.toNat]? with
            | none =>
              rw [hget] at hmem
              cases hmem
            | some n₁ =>
              rw [hget] at hmem
              exact h.earlier n₁ (List.mem_of_getElem? hget) _ hmem rfl
          · cases hmem
      rw [hnew, c.fresh, hcount, hnone]
      simp
  · intro i n hn port hmem
    obtain ⟨n₀, hn₀, hout⟩ := hsplit i n hn
    rw [hout, List.mem_append] at hmem
    rcases hmem with hmem | hmem
    · by_cases hi : i < g.nodes.length
      · rw [List.getElem?_append_left hi] at hn₀
        exact hg.noSelf i n₀ hn₀ port hmem
      · have hlen := (List.getElem?_eq_some_iff.1 hn₀).1
        rw [List.length_append, List.length_singleton] at hlen
        obtain rfl : i = g.nodes.length := by omega
        have hnew : n₀ = c.node := by simpa using hn₀.symm
        rw [hnew, c.fresh] at hmem
        cases hmem
    · have hi := (List.mem_replicate.1 hmem)
      rw [hi.2] at hi
      exact hi.1 (List.count_eq_zero.2 (hnoself port))

/-- What the exactness of the lists after a call says of one node of the graph before it. -/
theorem KeepsEdges.listed_old (h : KeepsEdges g c) {i : Nat} {n : NodeDef V}
    (hn : (g.nodes ++ [c.node])[i]? = some n) (port : PortID) (j : Int) :
    (n.outputNodes port).count j + (List.replicate (c.node.edges.countP fun e =>
        pyIndex (g.nodes ++ [c.node]).length e.1 = some i ∧ e.2 = port) (g.nodes.length : Int)).count j =
      (if j = g.nodes.length then c.node.references
        else referencesAt g.nodes j).count ((i : Int), port) := by
  obtain ⟨-, hrec⟩ := recorded_step h.output h.metadata h.edges_le
  obtain ⟨n', hn', -, hout⟩ := hrec i n hn
  rw [← referencesAt_recorded length_step hrec, ← h.exact.listed i n' hn', hout, List.count_append]

/-- And a call that keeps them refers back. -/
theorem KeepsEdges.refersBack (hg : EdgesExact g.nodes) (h : KeepsEdges g c) : RefersBack g c := by
  have hnew : (g.nodes ++ [c.node])[g.nodes.length]? = some c.node := by simp
  have hedges : ∀ r ∈ c.node.edges, 0 ≤ r.1 ∧ r.1 < g.nodes.length := by
    intro r hr
    obtain ⟨-, hrec⟩ := recorded_step h.output h.metadata h.edges_le
    obtain ⟨n', hn', -, hout⟩ := hrec _ _ hnew
    have hscope := c.scope r (NodeDef.mem_references.2 (.inl hr))
    have hle := h.edges_le r hr
    -- An edge to the scope or to the node itself would be recorded on the node itself.
    have hself : pyIndex (g.nodes ++ [c.node]).length r.1 ≠ some g.nodes.length := by
      intro hres
      refine h.exact.noSelf _ n' hn' r.2 ?_
      rw [hout, List.mem_append, List.mem_replicate]
      refine .inr ⟨?_, rfl⟩
      have hpos : 0 < c.node.edges.countP fun e =>
          pyIndex (g.nodes ++ [c.node]).length e.1 = some g.nodes.length ∧ e.2 = r.2 :=
        List.countP_pos_iff.2 ⟨r, hr, decide_eq_true ⟨hres, rfl⟩⟩
      exact Nat.pos_iff_ne_zero.1 hpos
    rw [List.length_append, List.length_singleton, resolve_edge hscope,
      if_neg (Int.not_lt.2 hle)] at hself
    split at hself
    · exact absurd rfl hself
    · rename_i hne
      have hne' : r.1.toNat ≠ g.nodes.length := fun he => hself (he ▸ rfl)
      omega
  refine ⟨h.output, h.metadata, hedges, fun r hr => ?_, fun n hn r hr he => ?_⟩
  · refine Classical.not_not.1 fun hin => ?_
    obtain ⟨k, hk⟩ : ∃ k : Nat, r.1 = k := ⟨r.1.toNat, by omega⟩
    have hreferences : c.node.references.count r = c.node.edges.count r + c.node.hidden.count r :=
      c.node.count_references r
    have hpos : 0 < c.node.hidden.count r := List.count_pos_iff.2 hr
    have hlt : k < (g.nodes ++ [c.node]).length := by
      rw [List.length_append, List.length_singleton]
      omega
    have hlisted := h.listed_old (List.getElem?_eq_getElem hlt) r.2 g.nodes.length
    have hr' : ((k : Int), r.2) = r := Prod.ext hk.symm rfl
    rw [if_pos rfl, countP_edges hedges, hr', hreferences, List.count_replicate, if_pos (by simp)]
      at hlisted
    have hold : ((g.nodes ++ [c.node])[k].outputNodes r.2).count (g.nodes.length : Int) = 0 := by
      by_cases hkl : k < g.nodes.length
      · rw [List.getElem_append_left hkl, hg.listed k _ (List.getElem?_eq_getElem hkl),
          referencesAt_eq_nil (.inr (Int.le_refl _))]
        rfl
      · obtain rfl : k = g.nodes.length := by omega
        rw [List.getElem_append_right (Nat.le_refl _)]
        simp [c.fresh]
    omega
  · obtain ⟨j, hj, hget⟩ := List.getElem_of_mem hn
    have hlisted := h.listed_old hnew r.2 (j : Int)
    have hne : (j : Int) ≠ g.nodes.length := by omega
    rw [if_neg hne, referencesAt_of_getElem? (List.getElem?_eq_getElem hj), hget, c.fresh,
      List.count_replicate, if_neg (by simpa using Ne.symm hne)] at hlisted
    have hr' : ((g.nodes.length : Int), r.2) = r := Prod.ext he.symm rfl
    rw [hr'] at hlisted
    have hpos := List.count_pos_iff.2 hr
    simp at hlisted
    omega

/-- Along every run of the builder the lists are exact, and a call that raises changes nothing,
exactly where the calls refer back. -/
theorem keepsEdges_iff (calls : List (BuilderCall V)) :
    Along step KeepsEdges {} calls ↔ Along step RefersBack {} calls := by
  have hfresh : EdgesExact (V := V) [] := ⟨by simp, by simp⟩
  refine along_iff (fun g => EdgesExact g.nodes) ?_ ?_ hfresh
  · exact fun g c hg => ⟨KeepsEdges.refersBack hg, RefersBack.keepsEdges hg⟩
  · exact fun g c hg h => (RefersBack.keepsEdges hg h).exact

/-! ## A recursive graph -/

/-- An eval node that evaluates the graph that it is part of, as `Graph.ref` refers to it. -/
def recursiveEval : BuilderCall Unit where
  node := { kind := .eval (-1, "body") }
  fresh := fun _ => rfl
  scope := by decide

/-- The eval node is listed under itself, for a reference to the enclosing scope; a second output
raises and stays. -/
theorem not_keepsEdges :
    ¬ Along step KeepsEdges {} [recursiveEval] ∧
      (add (V := Unit) { nodes := [⟨.output, ∅, ∅⟩], graphOutputIdx := some 0 }
        ⟨.output, ∅, ∅⟩ none).1 = .error (.tierkreis "Graph already has output at index 0") ∧
      (add (V := Unit) { nodes := [⟨.output, ∅, ∅⟩], graphOutputIdx := some 0 }
        ⟨.output, ∅, ∅⟩ none).2.nodes.length = 2 := by
  refine ⟨fun h => ?_, by decide, by decide⟩
  exact h.1.exact.noSelf 0 _ rfl "body" (by decide)

end GraphData

end Tierkreis.Controller
