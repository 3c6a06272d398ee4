import Tierkreis.Controller.Script

/-!
# Graphs that are made from others

What a script embeds keeps what the controller relies on: the copies have the
shape of the nodes that they are copied from, and refer to copies and to given
values. So whatever plain calls and the embedding of such graphs make can be
walked.
-/

namespace Tierkreis.Controller

open Lib Lib.StateExcept GraphData

variable {V : Type}

/-! ## Copies -/

/-- A copy has the shape of the node it was copied from. -/
theorem GraphData.Shape.copy {R : ValueRef → ValueRef → Prop} {kind kind' : NodeKind V}
    {inputs inputs' : HashMap PortID ValueRef} (h : Shape kind inputs)
    (hR : ∀ r r', R r r' → 0 ≤ r'.1) (hk : KindRel R kind kind') (hi : InputsRel R inputs inputs') :
    Shape kind' inputs' := by
  have hempty : inputs = ∅ → inputs' = ∅ := by
    rintro rfl
    have hports : [] = inputs'.toList.map Prod.fst := hi.ports
    exact HashMap.toList_inj (List.map_eq_nil_iff.1 hports.symm)
  constructor
  case branches =>
    rintro pred ifTrue ifFalse rfl
    cases hk with
    | ifelse hp ht hf => exact ⟨hR _ _ ht, hR _ _ hf⟩
  case bodies =>
    rintro body rfl
    cases hk with
    | @map r _ hr =>
      have hnone := h.bodies r rfl
      cases hget : inputs'.get? "body" with
      | none => rfl
      | some a =>
        have hmem : "body" ∈ portsOf inputs' := mem_portsOf.2 ⟨a, hget⟩
        unfold portsOf at hmem
        rw [← hi.ports] at hmem
        obtain ⟨a', ha'⟩ := mem_portsOf.1 hmem
        rw [hnone] at ha'
        cases ha'
  case fields =>
    rintro (⟨value, rfl⟩ | ⟨name, rfl⟩ | ⟨pred, ifTrue, ifFalse, rfl⟩)
    · cases hk
      exact hempty (h.fields (.inl ⟨_, rfl⟩))
    · cases hk
    · cases hk with
      | eifelse => exact hempty (h.fields (.inr (.inr ⟨_, _, _, rfl⟩)))

namespace GraphData

section Embed

variable {g other : GraphData V} {ins : HashMap PortID ValueRef}

/-- The graph can be walked, and what stands for references leads to nodes that give outputs. -/
structure Hosts (ins : HashMap PortID ValueRef) (s : EmbedState V) : Prop where
  walkable : Walkable s.data
  given : ∀ name r, ins.get? name = some r → s.data.Leads r
  ports : ∀ idx ports, s.portMap.get? idx = some ports → ∀ port r, ports.get? port = some r →
    s.data.Leads r
  nodes : ∀ idx new, s.nodeMap.get? idx = some new → ∀ port, s.data.Leads (new, port)

/-- A step that returns leaves such a graph, with more nodes, and a reference into it. -/
def KeepsHosts (ins : HashMap PortID ValueRef) (step : ValueRef → EmbedM V ValueRef) : Prop :=
  ∀ r s r' s', Hosts ins s → step r s = .ok (r', s') →
    Hosts ins s' ∧ Grows s.data s'.data ∧ s'.data.Leads r'

variable {step : ValueRef → EmbedM V ValueRef} {s s' : EmbedState V}

theorem hosts_of_reindexEdges (hstep : KeepsHosts ins step) {edges : List (PortID × ValueRef)}
    {edges' : List (PortID × ValueRef)} (hs : Hosts ins s)
    (h : reindexEdges step edges s = .ok (edges', s')) :
    Hosts ins s' ∧ Grows s.data s'.data ∧
      List.Forall₂ (fun e e' => e.1 = e'.1 ∧ s'.data.Leads e'.2) edges edges' := by
  induction edges generalizing s edges' with
  | nil =>
    cases h
    exact ⟨hs, fun _ _ h => h, .nil⟩
  | cons e edges ih =>
    rw [reindexEdges] at h
    obtain ⟨r', s₁, hr, h⟩ := bind_eq_ok.1 h
    obtain ⟨rs, s₂, hrs, h⟩ := bind_eq_ok.1 h
    cases h
    obtain ⟨hs₁, hg₁, hlead⟩ := hstep e.2 s r' s₁ hs hr
    obtain ⟨hs₂, hg₂, hleads⟩ := ih hs₁ hrs
    exact ⟨hs₂, hg₁.trans hg₂, .cons ⟨rfl, hlead.mono hg₂⟩ hleads⟩

theorem hosts_of_reindexKind (hstep : KeepsHosts ins step) {kind kind' : NodeKind V}
    (hi : ∀ name, kind ≠ .input name) (hs : Hosts ins s)
    (h : reindexKind step kind s = .ok (kind', s')) :
    Hosts ins s' ∧ Grows s.data s'.data ∧ KindRel (fun _ r' => s'.data.Leads r') kind kind' := by
  cases kind with
  | input name => exact absurd rfl (hi name)
  | function f =>
    cases h
    exact ⟨hs, fun _ _ h => h, .function f⟩
  | const v =>
    cases h
    exact ⟨hs, fun _ _ h => h, .const v⟩
  | output =>
    cases h
    exact ⟨hs, fun _ _ h => h, .output⟩
  | eval r =>
    obtain ⟨r', s₁, hr, h⟩ := bind_eq_ok.1 h
    cases h
    obtain ⟨hs₁, hg, hlead⟩ := hstep r s r' s' hs hr
    exact ⟨hs₁, hg, .eval hlead⟩
  | loop r port name =>
    obtain ⟨r', s₁, hr, h⟩ := bind_eq_ok.1 h
    cases h
    obtain ⟨hs₁, hg, hlead⟩ := hstep r s r' s' hs hr
    exact ⟨hs₁, hg, .loop port name hlead⟩
  | map r =>
    obtain ⟨r', s₁, hr, h⟩ := bind_eq_ok.1 h
    cases h
    obtain ⟨hs₁, hg, hlead⟩ := hstep r s r' s' hs hr
    exact ⟨hs₁, hg, .map hlead⟩
  | ifelse p t f | eifelse p t f =>
    obtain ⟨p', s₁, hp, h⟩ := bind_eq_ok.1 h
    obtain ⟨t', s₂, ht, h⟩ := bind_eq_ok.1 h
    obtain ⟨f', s₃, hf, h⟩ := bind_eq_ok.1 h
    cases h
    obtain ⟨hs₁, hg₁, hlp⟩ := hstep p s p' s₁ hs hp
    obtain ⟨hs₂, hg₂, hlt⟩ := hstep t s₁ t' s₂ hs₁ ht
    obtain ⟨hs₃, hg₃, hlf⟩ := hstep f s₂ f' s' hs₂ hf
    refine ⟨hs₃, hg₁.trans (hg₂.trans hg₃), ?_⟩
    constructor
    · exact (hlp.mono hg₂).mono hg₃
    · exact hlt.mono hg₃
    · exact hlf

theorem hosts_of_copyNode (hstep : KeepsHosts ins step) {idx new : Int} {node : NodeDef V}
    (hshape : Shape node.kind node.inputs) (hi : ∀ name, node.kind ≠ .input name)
    (ho : node.kind.isOutput = false) (hs : Hosts ins s)
    (h : copyNode step other idx node s = .ok (new, s')) :
    Hosts ins s' ∧ Grows s.data s'.data ∧ ∀ port, s'.data.Leads (new, port) := by
  obtain ⟨node', s₁, hnode, hrest⟩ := bind_eq_ok.1 h
  obtain ⟨new', s₂, hadd, hmodify⟩ := bind_eq_ok.1 hrest
  obtain ⟨inputs', s₀, hinputs, hnode'⟩ := bind_eq_ok.1 hnode
  obtain ⟨kind', s₁', hkind, hpure⟩ := bind_eq_ok.1 hnode'
  cases hpure
  obtain ⟨hs₀, hg₀, hrel₀⟩ := hosts_of_reindexEdges hstep hs hinputs
  obtain ⟨hs₁, hg₁, hrel⟩ := hosts_of_reindexKind hstep hi hs₀ hkind
  have hlist : (HashMap.ofEntries inputs').toList = inputs' := by
    refine HashMap.toList_ofEntries ?_
    rw [← forall₂_map_eq (fun _ _ he => he.1) hrel₀]
    exact HashMap.nodup_toList _
  have hinputsRel : InputsRel (fun _ r' => s₁.data.Leads r') node.inputs (.ofEntries inputs') := by
    unfold InputsRel
    rw [hlist]
    exact hrel₀.imp fun e e' he => ⟨he.1, he.2.mono hg₁⟩
  have hleads : ∀ r ∈ refsOf kind' (.ofEntries inputs'), s₁.data.Leads r := fun r hr =>
    (exists_rel_of_mem_refsOf hrel hinputsRel hr).elim fun _ h => h
  unfold addNode at hadd
  split at hadd
  · rename_i idx' data hadd'
    cases hadd
    cases hmodify
    obtain ⟨hrecording, hshapes⟩ := walkable_iff_shape.1 hs₁.walkable
    obtain ⟨rfl, hrecording'⟩ := recording_add hadd' rfl (fun r hr => .inl (hleads r hr)) hrecording
    have hgrows := grows_add hadd'
    have hnew : ∀ port, data.Leads ((s₁.data.nodes.length : Int), port) := fun port =>
      ⟨_, _, _, rfl, nodeAt?_add hadd', hrel.isOutput.trans ho⟩
    refine ⟨⟨walkable_iff_shape.2 ⟨hrecording', ?_⟩, ?_, ?_, ?_⟩,
      (hg₀.trans hg₁).trans hgrows, hnew⟩
    · rw [cores_add hadd']
      refine List.forall_mem_append.2 ⟨hshapes, List.forall_mem_singleton.2 ?_⟩
      exact hshape.copy (fun _ _ h => h.nonneg) hrel hinputsRel
    · exact fun name r hr => (hs₁.given name r hr).mono hgrows
    · exact fun idx ports hp port r hr => (hs₁.ports idx ports hp port r hr).mono hgrows
    · intro idx j hj
      change (s₁.nodeMap.insert _ _).get? idx = some j at hj
      rw [HashMap.get?_insert] at hj
      split at hj
      · cases hj
        exact hnew
      · exact fun port => (hs₁.nodes idx j hj port).mono hgrows
  · cases hadd

theorem hosts_of_reindexNode (hstep : KeepsHosts ins step) {idx : Int} {port : PortID}
    {node : NodeDef V} (hshape : Shape node.kind node.inputs) {r' : ValueRef} (hs : Hosts ins s)
    (h : reindexNode step other ins idx port node s = .ok (r', s')) :
    Hosts ins s' ∧ Grows s.data s'.data ∧ s'.data.Leads r' := by
  by_cases hinput : ∃ name, node.kind = .input name
  · obtain ⟨name, hk⟩ := hinput
    cases hr : ins.get? name with
    | none =>
      rw [reindexNode, hk] at h
      dsimp only at h
      rw [hr] at h
      cases h
    | some r =>
      have honly : ∀ q v, (HashMap.ofList [(name, r)]).get? q = some v → s.data.Leads v := by
        intro q v hq
        cases List.mem_singleton.1 (HashMap.mem_of_get?_ofList hq)
        exact hs.given _ _ hr
      rw [reindexNode_input hk hr, portValue] at h
      cases hq : (HashMap.ofList [(name, r)]).get? port with
      | none =>
        rw [hq] at h
        cases h
      | some v =>
        rw [hq] at h
        cases h
        refine ⟨⟨hs.walkable, hs.given, ?_, hs.nodes⟩, fun _ _ h => h, honly _ _ hq⟩
        intro idx ports hports
        change (s.portMap.insert _ _).get? idx = some ports at hports
        rw [HashMap.get?_insert] at hports
        split at hports
        · cases hports
          exact honly
        · exact hs.ports idx ports hports
  · have hi : ∀ name, node.kind ≠ .input name := fun name hk => hinput ⟨name, hk⟩
    have ho : node.kind.isOutput = false := by
      cases hk : node.kind with
      | output =>
        rw [reindexNode, hk] at h
        cases h
      | _ => rfl
    rw [reindexNode_copy hi ho] at h
    obtain ⟨new, s₁, hcopy, h⟩ := bind_eq_ok.1 h
    cases h
    obtain ⟨hs', hgrows, hnew⟩ := hosts_of_copyNode hstep hshape hi ho hs hcopy
    exact ⟨hs', hgrows, hnew port⟩

theorem keepsHosts_reindex (ho : Walkable other) :
    ∀ fuel, KeepsHosts ins (reindex other ins fuel) := by
  intro fuel
  induction fuel with
  | zero =>
    intro r s r' s' _ h
    cases h
  | succ fuel ih =>
    rintro ⟨idx, port⟩ s r' s' hs h
    cases hport : s.portMap.get? idx with
    | some ports =>
      rw [reindex_port hport, portValue] at h
      cases hr : ports.get? port with
      | none =>
        rw [hr] at h
        cases h
      | some r =>
        rw [hr] at h
        cases h
        exact ⟨hs, fun _ _ h => h, hs.ports _ _ hport _ _ hr⟩
    | none =>
      cases hnode : s.nodeMap.get? idx with
      | some new =>
        rw [reindex_old hport hnode] at h
        cases h
        exact ⟨hs, fun _ _ h => h, hs.nodes _ _ hnode _⟩
      | none =>
        cases hn : (pyIndex other.nodes.length idx).bind fun k => other.nodes[k]? with
        | none =>
          rw [reindex_missing hport hnode hn] at h
          cases h
        | some node =>
          rw [reindex_new hport hnode hn] at h
          obtain ⟨k, -, hk⟩ := Option.bind_eq_some_iff.1 hn
          exact hosts_of_reindexNode ih ((walkable_iff_shape.1 ho).2 _
            (List.mem_map_of_mem (List.mem_of_getElem? hk))) hs h

theorem hosts_of_reindexFields (hstep : KeepsHosts ins step) {outputs : HashMap PortID ValueRef}
    {fields : List PortID} {rs : List (PortID × ValueRef)} (hs : Hosts ins s)
    (h : reindexFields step outputs fields s = .ok (rs, s')) :
    Hosts ins s' ∧ Grows s.data s'.data ∧ ∀ e ∈ rs, s'.data.Leads e.2 := by
  induction fields generalizing s rs with
  | nil =>
    cases h
    exact ⟨hs, fun _ _ h => h, fun _ he => absurd he List.not_mem_nil⟩
  | cons p fields ih =>
    rw [reindexFields] at h
    cases hr : outputs.get? p with
    | none =>
      rw [hr] at h
      cases h
    | some r =>
      rw [hr] at h
      obtain ⟨r', s₁, hr, h⟩ := bind_eq_ok.1 h
      obtain ⟨rs', s₂, hrs, h⟩ := bind_eq_ok.1 h
      cases h
      obtain ⟨hs₁, hg₁, hlead⟩ := hstep r s r' s₁ hs hr
      obtain ⟨hs₂, hg₂, hleads⟩ := ih hs₁ hrs
      exact ⟨hs₂, hg₁.trans hg₂, List.forall_mem_cons.2 ⟨hlead.mono hg₂, hleads⟩⟩

/-- Embedding keeps what the controller relies on. -/
theorem walkable_of_embed (hg : Walkable g) (ho : Walkable other)
    (hins : ∀ name r, ins.get? name = some r → g.Leads r) {fuel : Nat} {fields : List PortID}
    {rs : List (PortID × ValueRef)} {g' : GraphData V}
    (h : embed fuel g other ins fields = .ok (rs, g')) :
    Walkable g' ∧ Grows g g' ∧ ∀ e ∈ rs, g'.Leads e.2 := by
  unfold embed at h
  split at h
  · cases h
  · split at h
    · cases h
    · obtain ⟨⟨rs', s'⟩, hfields, h⟩ := except_bind_eq_ok.1 h
      cases h
      have hs : Hosts ins { data := g } := by
        refine ⟨hg, hins, fun _ _ h => ?_, fun _ _ h => ?_⟩
        · cases h
        · cases h
      obtain ⟨hs', hgrows, hleads⟩ := hosts_of_reindexFields (keepsHosts_reindex ho fuel) hs hfields
      exact ⟨hs'.walkable, hgrows, hleads⟩

end Embed

end GraphData

/-! ## Calls and embeddings -/

/-- What plain calls make, and the embedding of such graphs at references that they returned. -/
inductive Made : GraphData V → Set ValueRef → Prop
  | start : Made {} ∅
  | call {g g' : GraphData V} {refs : Set ValueRef} {m : Method V} {kwargs : Kwargs} {idx : Int}
      (h : Made g refs) (hplain : m.Plain)
      (hrefs : ∀ r ∈ m.node.references, r ∈ refs ∨ r = selfRef)
      (hadd : g.add m.node kwargs = (.ok idx, g')) : Made g' (refs ∪ m.returned idx)
  | embed {g g' other : GraphData V} {refs refs' : Set ValueRef} {ins : HashMap PortID ValueRef}
      {fuel : Nat} {fields : List PortID} {rs : List (PortID × ValueRef)}
      (h : Made g refs) (ho : Made other refs')
      (hins : ∀ name r, ins.get? name = some r → r ∈ refs)
      (hembed : embed fuel g other ins fields = .ok (rs, g')) :
      Made g' (refs ∪ {r | ∃ e ∈ rs, e.2 = r})

/-- The controller can walk what is made so, and what was returned leads to nodes that give
outputs. -/
theorem walkable_of_made {g : GraphData V} {refs : Set ValueRef} (h : Made g refs) :
    Walkable g ∧ ∀ r ∈ refs, g.Leads r := by
  induction h with
  | start =>
    refine ⟨walkable_iff_shape.2 ⟨fun i node hn => ?_, fun core hcore => ?_⟩, fun r hr => ?_⟩
    · cases hn
    · cases hcore
    · exact absurd hr (Set.notMem_empty r)
  | @call g g' refs m kwargs idx _ hplain hrefs hadd ih =>
    obtain ⟨hwalk, hleads⟩ := ih
    obtain ⟨hrecording, hshapes⟩ := walkable_iff_shape.1 hwalk
    obtain ⟨hrecording', hleads'⟩ := Script.call_spec hrecording hleads hrefs hadd
    refine ⟨walkable_iff_shape.2 ⟨hrecording', ?_⟩, hleads'⟩
    rw [cores_add hadd]
    refine List.forall_mem_append.2 ⟨hshapes, List.forall_mem_singleton.2 ?_⟩
    have hgiven : ∀ r ∈ m.node.references, 0 ≤ r.1 ∨ r = selfRef := fun r hr =>
      (hrefs r hr).imp_left fun h => (hleads r h).nonneg
    exact (Method.shape_iff_plain hgiven).2 hplain
  | embed _ _ hins hembed ih iho =>
    obtain ⟨hwalk, hgrows, hreturned⟩ :=
      walkable_of_embed ih.1 iho.1 (fun name r hr => ih.2 r (hins name r hr)) hembed
    refine ⟨hwalk, ?_⟩
    rintro r (hr | ⟨e, he, rfl⟩)
    · exact (ih.2 r hr).mono hgrows
    · exact hreturned e he

/-- What is made so can be walked; and in a run of it everything that is evaluated, when whatever
values decode to is made so. -/
theorem allWalkable_of_made {g₀ : GraphData V} {refs : Set ValueRef} (hg : Made g₀ refs) :
    Walkable g₀ ∧ ∀ (W : Interpretation V) (env₀ : PortValues),
      (∀ bs g, W.graphOf bs = some g → ∃ refs, Made g refs) → AllWalkable W g₀ env₀ := by
  refine ⟨(walkable_of_made hg).1, fun W env₀ hw => ?_⟩
  refine allWalkable_of_codec (walkable_of_made hg).1 fun bs g hbs => ?_
  obtain ⟨refs', h⟩ := hw bs g hbs
  exact (walkable_of_made h).1

/-! ## A function in a graph -/

section

open Script

def withInput : Script Unit := after {} (.input "x")

def withFunc : Script Unit := withInput.after (.func "w.f" (.ofList [("x", (0, "x"))]))

/-- A graph that calls a function on its input. -/
def onInput : Script Unit := withFunc.after (.output (.ofList [("value", (1, "value"))]))

def constGraph : Script Unit := after {} constCall

/-- The function is copied to where its input is a constant. -/
def copied : Script Unit where
  graph := (constGraph.graph.add
    { kind := .function "w.f", inputs := .ofList [("x", (0, "value"))] } none).2
  refs := constGraph.refs ∪ {r | ∃ e ∈ [("value", ((1 : Int), "value"))], e.2 = r}

/-- What it gives is given to the graph that the constant stands for. -/
def withEval : Script Unit := copied.after (.eval (0, "value") (.ofList [("x", (1, "value"))]))

def embedded : Script Unit := withEval.after (.output (.ofList [("value", (2, "value"))]))

/-- The constant is the graph, and the function gives one more than it is given. -/
def onInputWorker : Interpretation Unit where
  toBytes _ := some [91]
  ofGraph _ := ()
  graphOf _ := some onInput.graph
  shouldContinue _ := none
  run _ _ args :=
    match args with
    | [("x", .value bs)] => some (.ofList [("value", bs ++ [43])])
    | _ => none

theorem Made.after {s : Script Unit} {m : Method Unit} (h : Made s.graph s.refs) (hplain : m.Plain)
    (hrefs : ∀ r ∈ m.node.references, r ∈ s.refs ∨ r = selfRef)
    (hok : (s.graph.add m.node none).1 = .ok (s.graph.nodes.length : Int)) :
    Made (s.after m).graph (s.after m).refs :=
  .call h hplain hrefs (Prod.ext hok rfl)

theorem made_onInput : Made onInput.graph onInput.refs := by
  have hinput : Made withInput.graph withInput.refs :=
    Made.after .start trivial (fun _ hr => absurd hr List.not_mem_nil) rfl
  have hfunc : Made withFunc.graph withFunc.refs := by
    refine hinput.after trivial (fun r hr => ?_) rfl
    cases List.mem_singleton.1 hr
    exact .inl (.inr rfl)
  refine hfunc.after trivial (fun r hr => ?_) rfl
  cases List.mem_singleton.1 hr
  exact .inl (.inr rfl)

theorem made_constGraph : Made constGraph.graph constGraph.refs :=
  Made.after .start trivial (fun _ hr => absurd hr List.not_mem_nil) rfl

theorem made_embedded : Made embedded.graph embedded.refs := by
  have hins : ∀ name r, (HashMap.ofList [("x", ((0 : Int), "value"))]).get? name = some r →
      r ∈ constGraph.refs := by
    intro name r hr
    cases List.mem_singleton.1 (HashMap.mem_of_get?_ofList hr)
    exact .inr rfl
  have hcopied : Made copied.graph copied.refs := by
    have hembed : embed 2 constGraph.graph onInput.graph (.ofList [("x", (0, "value"))]) ["value"] =
        .ok ([("value", (1, "value"))], copied.graph) := rfl
    exact .embed made_constGraph made_onInput hins hembed
  have heval : Made withEval.graph withEval.refs := by
    refine hcopied.after trivial (fun r hr => .inl ?_) rfl
    rcases hr with _ | ⟨_, _ | ⟨_, hr⟩⟩
    · exact .inr ⟨_, .head _, rfl⟩
    · exact .inl (.inr rfl)
    · cases hr
  refine heval.after trivial (fun r hr => ?_) rfl
  cases List.mem_singleton.1 hr
  exact .inl (.inr rfl)

/-- What a graph gives that calls the function on its input. -/
theorem gives_onInput {env : PortValues} {bs : Bytes} (h : env.get? "x" = some bs) :
    GraphGives onInputWorker 1 onInput.graph env (.ofEntries [("value", bs ++ [43])]) := by
  let look : ValueRef → Arg → Prop := Gives onInputWorker (GraphGives onInputWorker 0) onInput.graph env
  have hx : look (0, "x") (.value bs) := .input rfl h rfl
  have hargs : Args look (.ofList [("x", (0, "x"))]) [("x", .value bs)] := .cons ⟨rfl, hx⟩ .nil
  have hcall : NodeGives onInputWorker (GraphGives onInputWorker 0) look (.ofList [("x", (0, "x"))])
      (.function "w.f") (.ofList [("value", bs ++ [43])]) := ⟨_, hargs, rfl⟩
  exact ⟨2, _, rfl, rfl, .cons ⟨rfl, .node rfl (fun _ _ h => h) hcall rfl⟩ .nil⟩

theorem denotes_embedded :
    GraphDenotes onInputWorker embedded.graph ∅ (.ofEntries [("value", [91, 43, 43])]) := by
  let look : ValueRef → Arg → Prop := Gives onInputWorker (GraphGives onInputWorker 1) embedded.graph ∅
  have hgraph : look (0, "value") (.value [91]) := by
    have hgives : NodeGives onInputWorker (GraphGives onInputWorker 1) look ∅ (.const ())
        (.ofList [("value", [91])]) := ⟨[91], rfl, rfl⟩
    exact .node rfl (fun _ _ h => h) hgives rfl
  have hcall : look (1, "value") (.value [91, 43]) := by
    have hargs : Args look (.ofList [("x", (0, "value"))]) [("x", .value [91])] :=
      .cons ⟨rfl, hgraph⟩ .nil
    have hgives : NodeGives onInputWorker (GraphGives onInputWorker 1) look
        (.ofList [("x", (0, "value"))]) (.function "w.f") (.ofList [("value", [91, 43])]) :=
      ⟨_, hargs, rfl⟩
    exact .node rfl (fun _ _ h => h) hgives rfl
  have heval : look (2, "value") (.value [91, 43, 43]) := by
    have hvals : Values look (.ofList [("x", (1, "value"))]) (.ofList [("x", [91, 43])]) :=
      .cons ⟨rfl, hcall⟩ .nil
    have hinner : GraphGives onInputWorker 1 onInput.graph
        ((HashMap.ofList [("x", [91, 43])]).insert "body" [91])
        (.ofEntries [("value", [91, 43] ++ [43])]) := gives_onInput rfl
    have hgives : NodeGives onInputWorker (GraphGives onInputWorker 1) look
        (.ofList [("x", (1, "value"))]) (.eval (0, "value"))
        (.ofEntries [("value", [91, 43, 43])]) :=
      ⟨_, _, _, hvals, hgraph, rfl, hinner⟩
    exact .node rfl (fun _ _ h => h) hgives rfl
  exact ⟨2, 3, _, rfl, rfl, .cons ⟨rfl, heval⟩ .nil⟩

/-- The graph with the copy gives an output, and all that it evaluates can be walked. -/
theorem allWalkable_embedded : Walkable embedded.graph ∧ AllWalkable onInputWorker embedded.graph ∅ ∧
    GraphDenotes onInputWorker embedded.graph ∅ (.ofEntries [("value", [91, 43, 43])]) := by
  obtain ⟨hwalkable, hall⟩ := allWalkable_of_made made_embedded
  refine ⟨hwalkable, hall onInputWorker ∅ fun bs g hg => ?_, denotes_embedded⟩
  cases hg
  exact ⟨_, made_onInput⟩

end

end Tierkreis.Controller
