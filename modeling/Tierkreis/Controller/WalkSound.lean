import Tierkreis.Controller.Sound

/-!
# What a walk finds

In a sound storage, a walk from a node that the output of its graph needs reads
what the references mean. It stays within the tree of scopes, the values that it
passes on are those that the nodes mean, and what it finds can be started.
-/

namespace Tierkreis.Controller

open Lib Lib.StateExcept

variable {V : Type}

/-! ## Indices -/

theorem nodeAt_natCast {g : GraphData V} {i : Nat} {node : NodeDef V} :
    g.nodeAt (i : Int) = .ok node ↔ g.nodes[i]? = some node := by
  have hidx : (pyIndex g.nodes.length (i : Int)).bind (fun k => g.nodes[k]?) = g.nodes[i]? := by
    unfold pyIndex
    by_cases h : i < g.nodes.length
    · have hpos : ¬ (i : Int) < 0 := by omega
      have hin : 0 ≤ (i : Int) ∧ (i : Int) < g.nodes.length := by omega
      rw [if_neg hpos, if_pos hin, Option.bind_some, Int.toNat_natCast]
    · have hpos : ¬ (i : Int) < 0 := by omega
      have hout : ¬ (0 ≤ (i : Int) ∧ (i : Int) < g.nodes.length) := by omega
      rw [if_neg hpos, if_neg hout, Option.bind_none, List.getElem?_eq_none (by omega)]
  unfold GraphData.nodeAt
  rw [hidx]
  cases g.nodes[i]? with
  | none => simp
  | some node' => simp

theorem of_outputIdx_eq_ok {g : GraphData V} {idx : Int} (h : g.outputIdx = .ok idx) :
    g.graphOutputIdx = some idx := by
  unfold GraphData.outputIdx at h
  cases ho : g.graphOutputIdx with
  | none =>
    rw [ho] at h
    cases h
  | some idx' =>
    rw [ho] at h
    obtain ⟨node, -, h⟩ := except_bind_eq_ok.1 h
    split at h
    · cases h
      rfl
    · cases h

/-- The iteration that a walk looks into is started, when the first is. -/
theorem Storage.isNodeStarted_latest {s : Storage V} {loc : Loc}
    (h : s.isNodeStarted (loc.L (0 : Nat)) = true) :
    s.isNodeStarted (loc.L (s.latestLoopIteration loc)) = true := by
  have hfrom : ∀ fuel i, s.isNodeStarted (loc.L (i : Nat)) = true →
      s.isNodeStarted (loc.L (s.latestFrom loc fuel i)) = true := by
    intro fuel
    induction fuel with
    | zero => exact fun i hi => hi
    | succ fuel ih =>
      intro i hi
      rw [latestFrom]
      split
      · rename_i hnext
        exact ih (i + 1) hnext
      · exact hi
  exact hfrom _ 0 h

/-! ## Values that are passed on -/

theorem get?_single (p q : PortID) (bs : Bytes) :
    (HashMap.ofList [(p, bs)]).get? q = if q = p then some bs else none :=
  HashMap.get?_insert ∅ p q bs

theorem forall₂_zip {α β γ : Type} {R : α → β → Prop} {S : β → γ → Prop} {T : α → β × γ → Prop}
    {l : List α} {m : List β} (hl : List.Forall₂ R l m) :
    ∀ {n : List γ}, List.Forall₂ S m n →
      (∀ a b c, b ∈ m → R a b → S b c → T a (b, c)) → List.Forall₂ T l (m.zip n) := by
  induction hl with
  | nil =>
    intro n hm _
    cases hm
    exact .nil
  | cons hab _ ih =>
    intro n hm h
    cases hm with
    | cons hbc hm =>
      exact .cons (h _ _ _ (.head _) hab hbc) (ih hm fun a b c hb => h a b c (.tail _ hb))

theorem get?_ofList_toList (outs : PortValues) (p : PortID) :
    (HashMap.ofList outs.toList).get? p = outs.get? p := by
  cases ho : outs.get? p with
  | some bs => exact HashMap.get?_ofList_of_mem outs.nodup_toList (HashMap.get?_eq_some_iff.1 ho)
  | none =>
    cases hl : (HashMap.ofList outs.toList).get? p with
    | none => rfl
    | some bs =>
      rw [HashMap.get?_eq_some_iff.2 (HashMap.mem_of_get?_ofList hl)] at ho
      cases ho

namespace Storage

variable {s : Storage V} {loc : Loc}

/-- Links from all ports of a location find what is there. -/
theorem filterMap_ports {outs : PortValues} (f : PortID → PortID)
    (h : ∀ e ∈ outs.toList, s.outputs.get? (loc, e.1) = some e.2) :
    ((portsOf outs).map fun k => (f k, loc, k)).filterMap
        (fun e => (s.outputs.get? e.2).map fun bs => (e.1, bs)) =
      outs.toList.map fun e => (f e.1, e.2) := by
  unfold portsOf
  generalize outs.toList = l at h ⊢
  induction l with
  | nil => rfl
  | cons e l ih =>
    rw [List.map_cons, List.map_cons, List.filterMap_cons_some (by rw [h e (.head _), Option.map_some]),
      ih fun e' he' => h e' (.tail _ he'), List.map_cons]

theorem get?_found_ports {outs : PortValues}
    (h : ∀ e ∈ outs.toList, s.outputs.get? (loc, e.1) = some e.2) (p : PortID) :
    (s.found ((portsOf outs).map fun k => (k, loc, k))).get? p = outs.get? p := by
  unfold found
  rw [filterMap_ports (fun k => k) h, List.map_id', get?_ofList_toList]

/-- The elements that are iterated over are those of the family, with their numbers. -/
theorem outputsIter_family {family : List (PortID × Bytes)} {elements : List (Int × PortID)}
    (hports : s.readOutputPorts loc = family.map Prod.fst) (h : outputsIter s loc = .ok elements) :
    List.Forall₂ (fun x e => pyInt (lastPart e.1) = .ok x.1 ∧ x.2 = e.1) elements family := by
  unfold outputsIter at h
  rw [hports, mapM_eq_ok_iff, List.forall₂_map_left_iff] at h
  refine List.Forall₂.flip (h.imp fun e x hx => ?_)
  obtain ⟨k, hk, hx⟩ := except_bind_eq_ok.1 hx
  cases hx
  exact ⟨hk, rfl⟩

/-- Links from all elements find the outputs of each. -/
theorem found_elements {outputs : List PortID} {elements : List (Int × PortID)}
    {family : List (PortID × Bytes)} {results : List PortValues}
    (h : List.Forall₂ (fun (x : Int × PortID) (e : (PortID × Bytes) × PortValues) => x.2 = e.1.1 ∧
      outputs = portsOf e.2 ∧ ∀ o ∈ e.2.toList, s.outputs.get? (loc.M x.1, o.1) = some o.2)
      elements (family.zip results)) :
    s.found (elements.flatMap fun x => outputs.map fun output =>
      (outputPort output x.2, loc.M x.1, output)) = elementOutputs family results := by
  refine congrArg HashMap.ofList ?_
  generalize family.zip results = pairs at h ⊢
  induction h with
  | nil => rfl
  | cons hx _ ih =>
    obtain ⟨hport, rfl, houts⟩ := hx
    rw [List.flatMap_cons, List.filterMap_append, ih, List.flatMap_cons, hport]
    exact congrArg (· ++ _) (filterMap_ports (fun k => outputPort k _) houts)

end Storage

/-! ## What there is at a node -/

section

variable {W : Interpretation V} {g₀ : GraphData V} {env₀ : PortValues} {c : Loc} {F : Frame V} {i : Nat}
  {node : NodeDef V}

theorem NodeAt.gives (hw : AllWalkable W g₀ env₀) (h : NodeAt W g₀ env₀ c F i node)
    (hk : ∀ name, node.kind ≠ .input name) : ∃ outs, NodeMeans W F.graph F.env i outs ∧
      NodeGives W (GraphDenotes W) (Means W F.graph F.env) node.inputs node.kind outs := by
  obtain ⟨outs, hm⟩ := h.means hw
  exact ⟨outs, hm, hm.gives (nodeAt?_of_getElem? h.get) hk⟩

/-- The graph of an eval node is evaluated at the node. -/
theorem NodeAt.evalScope (hw : AllWalkable W g₀ env₀) (h : NodeAt W g₀ env₀ c F i node) {ref : ValueRef}
    (hk : node.kind = .eval ref) : ∃ vals bs body outs, Values (Means W F.graph F.env) node.inputs vals ∧
      Means W F.graph F.env ref (.value bs) ∧ W.graphOf bs = some body ∧
      Scope W g₀ env₀ (c.N i) ⟨body, vals.insert "body" bs, outs⟩ := by
  obtain ⟨outs, -, hg⟩ := h.gives hw (by simp [hk])
  rw [hk] at hg
  obtain ⟨vals, bs, body, hv, hb, hbody, ho⟩ := hg
  exact ⟨vals, bs, body, outs, hv, hb, hbody, .eval h.scope h.demanded h.get hk hv hb hbody ho⟩

theorem NodeAt.loopData (hw : AllWalkable W g₀ env₀) (h : NodeAt W g₀ env₀ c F i node) {ref : ValueRef}
    {port : PortID} {name : Option String} (hk : node.kind = .loop ref port name) :
    ∃ bs body start outs, LoopData W F node port bs body start ∧ NodeMeans W F.graph F.env i outs ∧
      Rounds W (GraphDenotes W) body bs port (portsOf node.inputs) start outs := by
  obtain ⟨outs, hm, hg⟩ := h.gives hw (by simp [hk])
  rw [hk] at hg
  obtain ⟨vals, bs, body, hv, hb, hbody, hr⟩ := hg
  exact ⟨bs, body, vals.insert "body" bs, outs, ⟨⟨ref, name, vals, hk, hv, hb, rfl⟩, hbody⟩, hm, hr⟩

/-- What is evaluated at an iteration is a round of the loop. -/
theorem NodeAt.round (h : NodeAt W g₀ env₀ c F i node) {port : PortID} {bs : Bytes}
    {body : GraphData V} {start : PortValues} (hl : LoopData W F node port bs body start) {n : Nat}
    {F' : Frame V} (hF : Scope W g₀ env₀ ((c.N i).L n) F') : F'.graph = body ∧
      Reached W body bs port (portsOf node.inputs) start n F'.env ∧
      GraphDenotes W body F'.env F'.outs := by
  generalize hloc : (c.N i).L n = loc at hF
  cases hF with
  | root => exact absurd hloc Loc.append_ne_root
  | eval => cases (Loc.append_eq_append hloc).2
  | element => cases (Loc.append_eq_append hloc).2
  | round hF hd hn hl' hr ho =>
    obtain ⟨hnode, hj⟩ := Loc.L_eq_L hloc
    obtain rfl := Int.ofNat.inj hj
    obtain ⟨rfl, rfl, rfl, rfl⟩ := h.unique ⟨hF, hd, hn⟩ hnode
    obtain ⟨rfl, rfl, rfl, rfl⟩ := hl.unique hl'
    exact ⟨rfl, hr, ho⟩

theorem Place.scope_of_L {n : Int} (h : Place W g₀ env₀ ((c.N i).L n)) :
    ∃ F', Scope W g₀ env₀ ((c.N i).L n) F' := by
  generalize hloc : (c.N i).L n = loc at h
  cases h with
  | scope h => exact ⟨_, h⟩
  | node => cases (Loc.append_eq_append hloc).2

/-- From each round that is reached, the loop gives the same. -/
theorem Rounds.of_reached {body : GraphData V} {bs : Bytes} {port : PortID} {ports : List PortID}
    {start ins final : PortValues} {n : Nat}
    (h : Rounds W (GraphDenotes W) body bs port ports start final)
    (hr : Reached W body bs port ports start n ins) :
    Rounds W (GraphDenotes W) body bs port ports ins final := by
  induction hr with
  | first => exact h
  | next _ ho hc ih =>
    cases ih with
    | last ho' hc' =>
      cases GraphDenotes.unique _ _ _ _ ho ho'
      cases hc.symm.trans hc'
    | next ho' _ hrest =>
      cases GraphDenotes.unique _ _ _ _ ho ho'
      exact hrest

/-- The last round gives what the loop gives. -/
theorem Rounds.eq_of_last {body : GraphData V} {bs : Bytes} {port : PortID} {ports : List PortID}
    {ins outs final : PortValues} (h : Rounds W (GraphDenotes W) body bs port ports ins final)
    (ho : GraphDenotes W body ins outs) (hc : (outs.get? port).bind W.shouldContinue = some false) :
    final = outs := by
  cases h with
  | last ho' _ => exact GraphDenotes.unique _ _ _ _ ho' ho
  | next ho' hc' _ =>
    cases GraphDenotes.unique _ _ _ _ ho' ho
    cases hc.symm.trans hc'

theorem NodeAt.mapData (hw : AllWalkable W g₀ env₀) (h : NodeAt W g₀ env₀ c F i node) {ref : ValueRef}
    (hk : node.kind = .map ref) : ∃ first family bs body results,
      firstRef node.inputs = .ok first ∧ Means W F.graph F.env first (.family family) ∧
      Means W F.graph F.env ref (.value bs) ∧ MapData W F node bs body family ∧
      NodeMeans W F.graph F.env i (elementOutputs family results) ∧
      List.Forall₂ (fun e outs => ∃ vals, ElementValues (Means W F.graph F.env) node.inputs e.1 vals ∧
        GraphDenotes W body ((HashMap.ofList [("body", bs)]).extend vals) outs) family results := by
  obtain ⟨outs, hm, hg⟩ := h.gives hw (by simp [hk])
  rw [hk] at hg
  obtain ⟨-, first, family, bs, body, results, -, hfirst, hf, hnum, hb, hbody, hresults, rfl⟩ := hg
  exact ⟨first, family, bs, body, results, hfirst, hf, hb,
    ⟨⟨ref, first, hk, hfirst, hf, hb⟩, hnum, hbody⟩,
    hm, hresults⟩

/-- An element of a map is evaluated at its number. -/
theorem NodeAt.elementScope (h : NodeAt W g₀ env₀ c F i node) {bs : Bytes} {body : GraphData V}
    {family : List (PortID × Bytes)} (hm : MapData W F node bs body family)
    {results : List PortValues}
    (hresults : List.Forall₂ (fun e outs => ∃ vals,
      ElementValues (Means W F.graph F.env) node.inputs e.1 vals ∧
        GraphDenotes W body ((HashMap.ofList [("body", bs)]).extend vals) outs) family results)
    {e : PortID × Bytes} (he : e ∈ family) {k : Int} (hk : pyInt (lastPart e.1) = .ok k) :
    ∃ vals outs, ElementValues (Means W F.graph F.env) node.inputs e.1 vals ∧
      Scope W g₀ env₀ ((c.N i).M k) ⟨body, (HashMap.ofList [("body", bs)]).extend vals, outs⟩ := by
  obtain ⟨outs, -, vals, hv, ho⟩ := forall₂_mem_left hresults he
  exact ⟨vals, outs, hv, .element h.scope h.demanded h.get hm he hk hv ho⟩

/-- What a map is over is an input of it, and no field. -/
theorem of_firstRef_eq_ok {inputs : HashMap PortID ValueRef} {ref : ValueRef}
    (h : firstRef inputs = .ok ref) : ref.2 = "*" ∧ ∃ port, inputs.get? port = some ref := by
  unfold firstRef at h
  split at h
  · rename_i e he
    cases h
    exact ⟨by simpa using List.find?_some he, e.1,
      HashMap.get?_eq_some_iff.2 (List.mem_of_find?_eq_some he)⟩
  · cases h

theorem ElementValues.get? {look : ValueRef → Arg → Prop} {inputs : HashMap PortID ValueRef}
    {port : PortID} {vals : PortValues} (h : ElementValues look inputs port vals) {p : PortID}
    {ref : ValueRef} (hr : inputs.get? p = some ref) : ∃ v, vals.get? p = some v ∧
      if ref.2 = "*" then ∃ family, look ref (.family family) ∧ family.lookup port = some v
      else look ref (.value v) := by
  obtain ⟨⟨_, v⟩, hv, rfl, hlook⟩ := forall₂_mem_left h (HashMap.get?_eq_some_iff.1 hr)
  exact ⟨v, HashMap.get?_eq_some_iff.2 hv, hlook⟩

theorem ElementValues.get?_eq_none {look : ValueRef → Arg → Prop} {inputs : HashMap PortID ValueRef}
    {port : PortID} {vals : PortValues} (h : ElementValues look inputs port vals) {p : PortID}
    (hr : inputs.get? p = none) : vals.get? p = none := by
  cases hv : vals.get? p with
  | none => rfl
  | some v =>
    obtain ⟨⟨_, ref⟩, hmem, rfl, -⟩ := forall₂_mem_right h (HashMap.get?_eq_some_iff.1 hv)
    rw [HashMap.get?_eq_some_iff.2 hmem] at hr
    cases hr

end

/-! ## Nodes that the walk finishes -/

section

variable {W : Interpretation V} {g₀ : GraphData V} {env₀ : PortValues} {s s' : Storage V} {c : Loc}
  {F : Frame V} {i : Nat} {node : NodeDef V} {outs : PortValues}

/-- A node that hands its values on itself. -/
def NodeKind.passes : NodeKind V → Bool
  | .function _ | .eval _ | .output => false
  | _ => true

/-- A node gets the values that it means, and is finished. -/
theorem Sound.settle (hs : Sound W g₀ env₀ s) (h : NodeAt W g₀ env₀ c F i node)
    (hk : node.kind.passes = true) (hm : NodeMeans W F.graph F.env i outs)
    (hdefs : s'.nodeDefs = s.nodeDefs) (hfin : s'.finished = s.finished) {m : PortValues}
    (hother : ∀ k : Loc × PortID, k.1 ≠ c.N i → s'.outputs.get? k = s.outputs.get? k)
    (hin : ∀ p, s'.outputs.get? (c.N i, p) = (m.get? p).or (s.outputs.get? (c.N i, p)))
    (hm' : ∀ p, m.get? p = outs.get? p) :
    Sound W g₀ env₀ (s'.markNodeFinished (c.N i)) := by
  have hnot : ∀ node' outs', ¬ FunctionAt W g₀ env₀ (c.N i) node' outs' := by
    rintro node' outs' ⟨c', F', j, name, hloc, h', hkind, -⟩
    obtain ⟨-, -, -, rfl⟩ := h.unique h' hloc
    rw [hkind] at hk
    cases hk
  have hscope : ∀ F', ¬ Scope W g₀ env₀ (c.N i) F' := by
    intro F' hF
    obtain ⟨⟨ref, hkind⟩, -⟩ := h.scope_eval hF
    rw [hkind] at hk
    cases hk
  have hput : Sound W g₀ env₀ s' := by
    refine hs.put hdefs hfin hother hin (.node h hm) (fun p bs hp => (hm' p).symm.trans hp) ?_
    exact fun node' outs' hfun => absurd hfun (hnot node' outs')
  refine hput.mark (fun outs' ho p bs hp => ?_) (fun node' outs' hfun => absurd hfun (hnot node' outs'))
    fun F' hF => absurd hF (hscope F')
  rw [ho.holds.unique (.node h hm)] at hp
  rw [hin, hm', hp, Option.some_or]

/-- A node gets its one value by a link. -/
theorem Sound.settleLink (hs : Sound W g₀ env₀ s) (h : NodeAt W g₀ env₀ c F i node)
    (hk : node.kind.passes = true) {p port : PortID} {bs : Bytes} {loc : Loc}
    (hm : NodeMeans W F.graph F.env i (.ofList [(p, bs)]))
    (hsource : s.outputs.get? (loc, port) = some bs) :
    Sound W g₀ env₀ ((s.linkOutputs (c.N i) p loc port).markNodeFinished (c.N i)) := by
  refine hs.settle (m := .ofList [(p, bs)]) h hk hm (s.nodeDefs_linkOutputs _ _ _ _)
    (s.finished_linkOutputs _ _ _ _) (fun k hne => ?_) (fun q => ?_) fun _ => rfl
  · rw [Storage.get?_linkOutputs, if_neg fun heq => hne (congrArg Prod.fst heq)]
  · rw [Storage.get?_linkOutputs, get?_single]
    by_cases hq : q = p
    · rw [hq, if_pos rfl, if_pos rfl, hsource, Option.some_or]
    · rw [if_neg fun heq => hq (congrArg Prod.snd heq), if_neg hq, Option.none_or]

/-- A node gets its values by links. -/
theorem Sound.settleLinks (hs : Sound W g₀ env₀ s) (h : NodeAt W g₀ env₀ c F i node)
    (hk : node.kind.passes = true) (hm : NodeMeans W F.graph F.env i outs)
    {l : List (PortID × Loc × PortID)} (hsource : ∀ e ∈ l, e.2.1 ≠ c.N i)
    (hfound : ∀ p, (s.found l).get? p = outs.get? p) :
    Sound W g₀ env₀ ((s.pipe (c.N i) l).markNodeFinished (c.N i)) := by
  obtain ⟨hother, hin⟩ := Storage.get?_pipe hsource
  exact hs.settle h hk hm (s.nodeDefs_pipe _ _) (s.finished_pipe _ _) hother hin hfound

end

/-! ## What can be started -/

/-- A node that is needed and has its inputs, or the next round of a loop. -/
inductive Startable (W : Interpretation V) (g₀ : GraphData V) (env₀ : PortValues) (s : Storage V) :
    NodeRunData V → Prop
  | node {c : Loc} {F : Frame V} {i : Nat} {node : NodeDef V} (h : NodeAt W g₀ env₀ c F i node)
      (hstart : s.isNodeStarted c = true)
      (hin : ∀ r ∈ node.waitsFor, 0 ≤ r.1 → c.N r.1 ∈ s.finished) :
      Startable W g₀ env₀ s (runData (c.N i) node)
  | round {c : Loc} {F : Frame V} {i n out : Nat} {node outputNode : NodeDef V} {port : PortID}
      {bs : Bytes} {body : GraphData V} {start ins outs : PortValues}
      (h : NodeAt W g₀ env₀ c F i node) (hl : LoopData W F node port bs body start)
      (hr : Reached W body bs port (portsOf node.inputs) start n ins)
      (ho : GraphDenotes W body ins outs)
      (hc : (outs.get? port).bind W.shouldContinue = some true)
      (hstart : s.isNodeStarted ((c.N i).L n) = true) (hfin : (c.N i).L n ∈ s.finished)
      (hout : body.graphOutputIdx = some (out : Int)) (hn : body.nodes[out]? = some outputNode) :
      Startable W g₀ env₀ s {
        nodeLocation := (c.N i).L (n + 1 : Nat)
        node := iterationDef node outputNode.inputs
        outputList := portsOf outputNode.inputs }

theorem stable_startable {W : Interpretation V} {g₀ : GraphData V} {env₀ : PortValues} :
    Stable (Startable W g₀ env₀) := by
  intro s s' data hdefs hfin h
  have hstarted : ∀ l, s'.isNodeStarted l = s.isNodeStarted l := fun l => by
    unfold Storage.isNodeStarted
    rw [hdefs]
  cases h with
  | node h hstart hin =>
    exact .node h ((hstarted _).trans hstart) fun r hr hi => hfin (hin r hr hi)
  | round h hl hr ho hc hstart hfin' hout hn =>
    exact .round h hl hr ho hc ((hstarted _).trans hstart) (hfin hfin') hout hn

/-! ## The walk -/

/-- A walk, from the nodes that the outputs of graphs need. -/
def WalkSound (W : Interpretation V) (g₀ : GraphData V) (env₀ : PortValues)
    (walk : Loc → Int → GraphData V → Ctl V (WalkResult V)) : Prop :=
  ∀ c F (i : Nat) node s r s', NodeAt W g₀ env₀ c F i node → Sound W g₀ env₀ s →
    s.isNodeStarted c = true → walk c i F.graph s = .ok (r, s') →
      Sound W g₀ env₀ s' ∧ Walked (Startable W g₀ env₀) s r s'

section

variable {W : Interpretation V} {g₀ : GraphData V} {env₀ : PortValues}
  {walk : Loc → Int → GraphData V → Ctl V (WalkResult V)} {s s' : Storage V} {r : WalkResult V}
  {c : Loc} {F : Frame V} {i : Nat} {node : NodeDef V}

theorem Walked.none {Ready : Storage V → NodeRunData V → Prop} (s : Storage V) : Walked Ready s {} s :=
  .refl s fun _ hdata => absurd hdata List.not_mem_nil

/-- The walk of a graph that is evaluated begins at its output. -/
theorem WalkSound.scope (hwalk : WalkSound W g₀ env₀ walk) (hF : Scope W g₀ env₀ c F)
    (hs : Sound W g₀ env₀ s) (hstart : s.isNodeStarted c = true) {out : Int}
    (hout : F.graph.outputIdx = .ok out) (h : walk c out F.graph s = .ok (r, s')) :
    Sound W g₀ env₀ s' ∧ Walked (Startable W g₀ env₀) s r s' := by
  obtain ⟨o, node, ho, hnode, -⟩ := hF.output
  cases ho.symm.trans (of_outputIdx_eq_ok hout)
  exact hwalk _ _ _ _ _ _ _ hnode hs hstart h

/-- What passes values on finishes nodes and finds none. -/
theorem Walked.settled {loc : Loc} {Ready : Storage V → NodeRunData V → Prop}
    (hdefs : s'.nodeDefs = s.nodeDefs) (hfin : s'.finished = s.finished) :
    Walked Ready s {} (s'.markNodeFinished loc) :=
  ⟨hdefs, finished_subset_mark hfin, fun _ hdata => absurd hdata List.not_mem_nil⟩

theorem walkLoop_sound (hw : AllWalkable W g₀ env₀) (hwalk : WalkSound W g₀ env₀ walk)
    (h : NodeAt W g₀ env₀ c F i node) {ref : ValueRef} {port : PortID} {name : Option String}
    (hk : node.kind = .loop ref port name) (hs : Sound W g₀ env₀ s)
    (hstart : s.isNodeStarted (c.N i) = true)
    (hloop : walkLoop W walk c i node port s = .ok (r, s')) :
    Sound W g₀ env₀ s' ∧ Walked (Startable W g₀ env₀) s r s' := by
  obtain ⟨bs, body, start, outs, hl, hm, hrounds⟩ := h.loopData hw hk
  obtain ⟨hstart₀, hfirst⟩ := hs.loops _ bs body start ⟨c, F, i, node, port, rfl, h, hl⟩ hstart
  have hbody : start.get? "body" = some bs := by
    obtain ⟨_, _, vals, -, -, -, rfl⟩ := hl.means
    exact HashMap.get?_insert_self _ _ _
  rcases walkLoop_ok hloop with
    ⟨-, rfl, rfl⟩ | ⟨-, bs', body', out, outputNode, hbs, hg, hout, hnode, hcases⟩
  · exact ⟨hs, .none s'⟩
  cases (hstart₀ _ _ hbody).symm.trans hbs
  cases hl.graph.symm.trans hg
  -- the latest iteration is a round of the loop
  have hlatest := Storage.isNodeStarted_latest hfirst
  generalize s.latestLoopIteration (c.N i) = n at hcases hlatest
  obtain ⟨F', hF'⟩ := Place.scope_of_L (hs.placed _ hlatest)
  obtain ⟨rfl, hr, ho⟩ := h.round hl hF'
  rcases hcases with ⟨-, hinside⟩ | ⟨hfin, cont, hcont, hcases⟩
  · exact hwalk.scope hF' hs hlatest hout hinside
  have hfin' : (c.N i).L n ∈ s.finished := of_decide_eq_true hfin
  have hcomplete := hs.finished _ _ (.scope hF') hfin'
  have hread : F'.outs.get? port = some cont := by
    rw [← hs.values (.scope hF') hcomplete, Storage.get?_valuesAt]
    exact hcont
  obtain ⟨o, node', ho', hnode', -, hv⟩ := hF'.output
  cases ho'.symm.trans (of_outputIdx_eq_ok hout)
  cases (nodeAt_natCast.1 hnode).symm.trans hnode'.get
  rcases hcases with ⟨hc, rfl, rfl⟩ | ⟨hc, rfl, rfl⟩
  · refine ⟨hs, .refl _ fun data hdata => ?_⟩
    cases List.mem_singleton.1 hdata
    exact .round h hl hr ho (by rw [hread]; exact hc) hlatest hfin' ho' hnode'.get
  · have hlast := (hrounds.of_reached hr).eq_of_last ho (by rw [hread]; exact hc)
    have hports : portsOf outputNode.inputs = portsOf F'.outs := forall₂_map_eq (fun _ _ he => he.1) hv
    rw [Storage.linkPorts_eq, hports]
    refine ⟨hs.settleLinks h (by rw [hk]; rfl) hm ?_ fun p => ?_, .settled (Storage.nodeDefs_pipe _ _ _)
      (Storage.finished_pipe _ _ _)⟩
    · intro e he heq
      obtain ⟨k, -, rfl⟩ := List.mem_map.1 he
      have hlen := congrArg (fun l : Loc => l.tail.length) heq
      simp [Loc.L, Loc.length_append] at hlen
    · rw [hlast]
      exact Storage.get?_found_ports (fun e he => hcomplete _ _ (HashMap.get?_eq_some_iff.2 he)) p

theorem walkIfelse_sound (hw : AllWalkable W g₀ env₀) (hwalk : WalkSound W g₀ env₀ walk)
    (h : NodeAt W g₀ env₀ c F i node) {pred ifTrue ifFalse : ValueRef}
    (hk : node.kind = .ifelse pred ifTrue ifFalse) (hs : Sound W g₀ env₀ s)
    (hstart : s.isNodeStarted c = true) (hin : ∀ r ∈ node.waitsFor, 0 ≤ r.1 → c.N r.1 ∈ s.finished)
    (hif : walkIfelse walk c i F.graph pred ifTrue ifFalse s = .ok (r, s')) :
    Sound W g₀ env₀ s' ∧ Walked (Startable W g₀ env₀) s r s' := by
  obtain ⟨outs, hm, hg⟩ := h.gives hw (by simp [hk])
  rw [hk] at hg
  obtain ⟨p, bs, hp, hbs, rfl⟩ := hg
  have hwaits : pred ∈ node.waitsFor := by simp [waitsFor_ifelse hk]
  have hneeds : Needs W F.graph F.env node (selected p ifTrue ifFalse) := .branch hk hp
  obtain ⟨p', hp', hcases⟩ := walkIfelse_ok hif
  have hread := hs.readValue hw h hstart (.waits hwaits) hp (hin pred hwaits)
  cases hread.symm.trans hp'
  have hnext : 0 ≤ (selected p ifTrue ifFalse).1 := by
    obtain ⟨htrue, hfalse⟩ := (h.scope.walkable hw).branches i node h.get pred ifTrue ifFalse hk
    unfold selected
    split
    · exact htrue
    · exact hfalse
  rcases hcases with ⟨hfin, rfl, rfl⟩ | ⟨-, hinside⟩
  · have hvalue := hs.readValue hw h hstart hneeds hbs fun _ => of_decide_eq_true hfin
    exact ⟨hs.settleLink h (by rw [hk]; rfl) hm hvalue, .settled (Storage.nodeDefs_linkOutputs _ _ _ _ _)
      (Storage.finished_linkOutputs _ _ _ _ _)⟩
  · obtain ⟨j, hj⟩ := Int.eq_ofNat_of_zero_le hnext
    generalize selected p ifTrue ifFalse = next at hneeds hj hinside
    obtain ⟨_, port⟩ := next
    obtain rfl := hj
    obtain ⟨source, hsource, -⟩ := h.needs hw hneeds
    exact hwalk _ _ _ _ _ _ _ hsource hs hstart hinside

theorem walkEifelse_sound (hw : AllWalkable W g₀ env₀) (h : NodeAt W g₀ env₀ c F i node)
    {pred ifTrue ifFalse : ValueRef} (hk : node.kind = .eifelse pred ifTrue ifFalse)
    (hs : Sound W g₀ env₀ s) (hstart : s.isNodeStarted c = true)
    (hin : ∀ r ∈ node.waitsFor, 0 ≤ r.1 → c.N r.1 ∈ s.finished)
    (hif : walkEifelse c i pred ifTrue ifFalse s = .ok (r, s')) :
    Sound W g₀ env₀ s' ∧ Walked (Startable W g₀ env₀) s r s' := by
  obtain ⟨outs, hm, hg⟩ := h.gives hw (by simp [hk])
  rw [hk] at hg
  obtain ⟨p, t, f, hp, ht, hf, rfl⟩ := hg
  have hwaits : ∀ port r, (port, r) ∈ node.kind.fieldEdges → r ∈ node.waitsFor := by
    intro port r hr
    rw [waitsFor_of_not_ifelse (by simp [hk])]
    exact mem_edges_field port hr
  have hpred := hwaits "pred" pred (by simp [hk, NodeKind.fieldEdges])
  have htrue := hwaits "if_true" ifTrue (by simp [hk, NodeKind.fieldEdges])
  have hfalse := hwaits "if_false" ifFalse (by simp [hk, NodeKind.fieldEdges])
  obtain ⟨p', hp', rfl, rfl⟩ := walkEifelse_ok hif
  cases (hs.readValue hw h hstart (.waits hpred) hp (hin _ hpred)).symm.trans hp'
  refine ⟨hs.settleLink h (by rw [hk]; rfl) hm ?_, .settled (Storage.nodeDefs_linkOutputs _ _ _ _ _)
    (Storage.finished_linkOutputs _ _ _ _ _)⟩
  unfold selected
  split
  · exact hs.readValue hw h hstart (.waits htrue) ht (hin _ htrue)
  · exact hs.readValue hw h hstart (.waits hfalse) hf (hin _ hfalse)

theorem walkMap_sound (hw : AllWalkable W g₀ env₀) (hwalk : WalkSound W g₀ env₀ walk)
    (h : NodeAt W g₀ env₀ c F i node) {ref : ValueRef} (hk : node.kind = .map ref)
    (hs : Sound W g₀ env₀ s) (hparent : s.isNodeStarted c = true)
    (hstart : s.isNodeStarted (c.N i) = true)
    (hin : ∀ r ∈ node.waitsFor, 0 ≤ r.1 → c.N r.1 ∈ s.finished)
    (hmap : walkMap W.decodeGraph walk c i node s = .ok (r, s')) :
    Sound W g₀ env₀ s' ∧ Walked (Startable W g₀ env₀) s r s' := by
  obtain ⟨first, family, bs, body, results, hfirst, hf, -, hmd, hm, hresults⟩ := h.mapData hw hk
  obtain ⟨hstarted, hempty⟩ := hs.maps _ family ⟨c, F, i, node, bs, body, rfl, h, hmd⟩ hstart
  have hbody := (h.scope.walkable hw).bodies i node h.get ref hk
  have hscope := fun {e} he {k} => h.elementScope hmd hresults (e := e) he (k := k)
  rcases walkMap_ok hmap with ⟨-, rfl, rfl⟩ | ⟨hfin, first', elements, bs', body', hfirst', helements,
    hbs, hg, hcases⟩
  · exact ⟨hs, .none s'⟩
  cases hfirst.symm.trans hfirst'
  -- the elements are those of the family
  obtain ⟨hstar, port, hport⟩ := of_firstRef_eq_ok hfirst
  have hwaits : first ∈ node.waitsFor := by
    rw [waitsFor_of_not_ifelse (by simp [hk])]
    refine mem_edges_input (fun hp => ?_) hport
    rw [hk] at hp
    rw [List.mem_singleton.1 hp, hbody] at hport
    cases hport
  have hfamily := hs.read hw h hparent (.waits hwaits) hf (hin _ hwaits)
  rw [hstar] at hfamily
  have helems := Storage.outputsIter_family (Storage.family_of_star hfamily).2 helements
  -- the graph is read from the first element, which is there as the map is not finished
  obtain ⟨numbers, hnumbers, -, hzero⟩ := hmd.numbered
  have hne : family ≠ [] := by
    intro hnil
    have hmem : s.isNodeFinished (c.N i) = true := decide_eq_true (hempty hnil)
    cases hmem.symm.trans hfin
  obtain ⟨e₀, he₀, hk₀⟩ := forall₂_mem_right hnumbers (hzero hne)
  obtain ⟨vals₀, outs₀, hv₀, hF₀⟩ := hscope he₀ hk₀
  have hbody₀ : ((HashMap.ofList [("body", bs)]).extend vals₀).get? "body" = some bs := by
    rw [HashMap.get?_extend, hv₀.get?_eq_none hbody, get?_single, if_pos rfl, Option.none_or]
  have hread := hs.entered _ _ hF₀ (hstarted e₀ he₀ 0 hk₀) _ _ hbody₀
  cases hread.symm.trans hbs
  cases hmd.graph.symm.trans hg
  rcases hcases with ⟨-, hwalks⟩ | ⟨hnil, rfl, out, outputNode, hout, hnode, rfl⟩
  · refine (walkElements_walked (fun t => Sound W g₀ env₀ t ∧ t.nodeDefs = s.nodeDefs) stable_startable
      (fun k hk out hout t r t' ht hwalk' => ?_) ⟨hs, rfl⟩ (.none s) hwalks).imp_left And.left
    obtain ⟨hsound, hdefs⟩ := ht
    obtain ⟨x, hx, rfl⟩ := List.mem_map.1 (List.mem_filter.1 hk).1
    obtain ⟨e, he, hke, -⟩ := forall₂_mem_left helems hx
    obtain ⟨vals, outs, -, hF⟩ := hscope he hke
    have hstart' : t.isNodeStarted ((c.N i).M x.1) = true := by
      unfold Storage.isNodeStarted
      rw [hdefs]
      exact hstarted e he _ hke
    obtain ⟨hsound', hwalked⟩ := hwalk.scope hF hsound hstart' hout hwalk'
    exact ⟨⟨hsound', hwalked.nodeDefs.trans hdefs⟩, hwalked⟩
  · rw [linkElements_eq]
    refine ⟨hs.settleLinks h (by rw [hk]; rfl) hm ?_ fun p => ?_, .settled (Storage.nodeDefs_pipe _ _ _)
      (Storage.finished_pipe _ _ _)⟩
    · intro l hl heq
      obtain ⟨x, -, hl⟩ := List.mem_flatMap.1 hl
      obtain ⟨o, -, rfl⟩ := List.mem_map.1 hl
      have hlen := congrArg (fun l : Loc => l.tail.length) heq
      simp [Loc.M, Loc.length_append] at hlen
    · rw [Storage.found_elements]
      refine forall₂_zip helems hresults ?_
      rintro x e outs he ⟨hkx, hx⟩ ⟨vals, hv, ho⟩
      have hF : Scope W g₀ env₀ ((c.N i).M x.1) ⟨body, _, outs⟩ :=
        .element h.scope h.demanded h.get hmd he hkx hv ho
      have hfin' : (c.N i).M x.1 ∈ s.finished := by
        obtain ⟨x', hx', hkx', -⟩ := forall₂_mem_right helems he
        have hnumber : x.1 = x'.1 := Except.ok.inj (hkx.symm.trans hkx')
        have hall := List.filter_eq_nil_iff.1 hnil x'.1 (List.mem_map_of_mem hx')
        rw [hnumber]
        simpa [Storage.isNodeFinished] using hall
      obtain ⟨o, node', ho', hnode', -, hvals⟩ := hF.output
      cases ho'.symm.trans (of_outputIdx_eq_ok hout)
      cases (nodeAt_natCast.1 hnode).symm.trans hnode'.get
      refine ⟨hx, forall₂_map_eq (fun _ _ he => he.1) hvals, fun o ho => ?_⟩
      exact hs.finished _ _ (.scope hF) hfin' _ _ (HashMap.get?_eq_some_iff.2 ho)

theorem walkStarted_sound (hw : AllWalkable W g₀ env₀) (hwalk : WalkSound W g₀ env₀ walk)
    (h : NodeAt W g₀ env₀ c F i node) (hs : Sound W g₀ env₀ s) (hparent : s.isNodeStarted c = true)
    (hstart : s.isNodeStarted (c.N i) = true)
    (hin : ∀ r ∈ node.waitsFor, 0 ≤ r.1 → c.N r.1 ∈ s.finished)
    (hstarted : walkStarted W walk c i F.graph node s = .ok (r, s')) :
    Sound W g₀ env₀ s' ∧ Walked (Startable W g₀ env₀) s r s' := by
  unfold walkStarted at hstarted
  cases hk : node.kind with
  | function name =>
    rw [hk] at hstarted
    obtain ⟨rfl, rfl⟩ := pure_eq_ok.1 hstarted
    exact ⟨hs, .refl _ fun _ hdata => absurd hdata List.not_mem_nil⟩
  | input name =>
    rw [hk] at hstarted
    obtain ⟨rfl, rfl⟩ := pure_eq_ok.1 hstarted
    exact ⟨hs, .none _⟩
  | output | const value =>
    rw [hk] at hstarted
    obtain ⟨rfl, rfl⟩ := pure_eq_ok.1 hstarted
    refine ⟨hs, .refl _ fun data hdata => ?_⟩
    cases List.mem_singleton.1 hdata
    exact .node h hparent hin
  | eval graph =>
    rw [hk] at hstarted
    dsimp only at hstarted
    rw [get_bind] at hstarted
    obtain ⟨bs', hbs', hstarted⟩ := lift_bind_eq_ok.1 hstarted
    obtain ⟨body', hbody', hstarted⟩ := lift_bind_eq_ok.1 hstarted
    obtain ⟨out, hout, hinside⟩ := lift_bind_eq_ok.1 hstarted
    obtain ⟨vals, bs, body, outs, -, hb, hbody, hF⟩ := h.evalScope hw hk
    have hwaits : graph ∈ node.waitsFor := by
      rw [waitsFor_of_not_ifelse (by simp [hk])]
      exact mem_edges_field "body" (by simp [hk, NodeKind.fieldEdges])
    have hread := hs.readValue hw h hparent (.waits hwaits) hb (hin _ hwaits)
    cases hread.symm.trans (Storage.readOutput_eq_ok.1 hbs')
    cases hbody.symm.trans (decodeGraph_eq_ok.1 hbody')
    exact hwalk.scope hF hs hstart hout hinside
  | loop body port name =>
    rw [hk] at hstarted
    exact walkLoop_sound hw hwalk h hk hs hstart hstarted
  | map body =>
    rw [hk] at hstarted
    exact walkMap_sound hw hwalk h hk hs hparent hstart hin hstarted
  | ifelse pred ifTrue ifFalse =>
    rw [hk] at hstarted
    exact walkIfelse_sound hw hwalk h hk hs hparent hin hstarted
  | eifelse pred ifTrue ifFalse =>
    rw [hk] at hstarted
    exact walkEifelse_sound hw h hk hs hparent hin hstarted

/-- Whatever has failed and however deep it goes, a walk keeps the storage sound. -/
theorem walkNode_sound (hw : AllWalkable W g₀ env₀) (hasError : Loc → Bool) (depth : Nat) :
    WalkSound W g₀ env₀ (walkNode W hasError depth) := by
  induction depth with
  | zero => exact fun _ _ _ _ _ _ _ _ _ _ h => absurd h throw_ne_ok
  | succ depth ih =>
    intro c F i node s r s' h hs hstart hwalk
    rcases walkNode_ok hwalk with ⟨-, rfl, rfl⟩ | ⟨-, node', hnode, hcases⟩
    · exact ⟨hs, .refl _ fun _ hdata => absurd hdata List.not_mem_nil⟩
    cases (nodeAt_natCast.1 hnode).symm.trans h.get
    rcases hcases with ⟨-, hinputs⟩ | ⟨hnil, -, rfl, _, rfl⟩ | ⟨hnil, hstarted, hinside⟩
    · refine (walkInputs_walked (fun t => Sound W g₀ env₀ t ∧ t.nodeDefs = s.nodeDefs) stable_startable
        (fun x hx t r t' ht hwalk' => ?_) ⟨hs, rfl⟩ (.none s) hinputs).imp_left And.left
      obtain ⟨hsound, hdefs⟩ := ht
      have hstart' : t.isNodeStarted c = true := by
        unfold Storage.isNodeStarted
        rw [hdefs]
        exact hstart
      obtain ⟨hwaits, hpos⟩ := List.mem_filter.1 (List.mem_filter.1 hx).1
      obtain ⟨j, hj⟩ := Int.eq_ofNat_of_zero_le (of_decide_eq_true hpos)
      obtain ⟨_, port⟩ := x
      obtain rfl := hj
      obtain ⟨source, hsource, -⟩ := h.needs hw (.waits hwaits)
      obtain ⟨hsound', hwalked⟩ := ih _ _ _ _ _ _ _ hsource hsound hstart' hwalk'
      exact ⟨⟨hsound', hwalked.nodeDefs.trans hdefs⟩, hwalked⟩
    · refine ⟨hs, .refl _ fun data hdata => ?_⟩
      cases List.mem_singleton.1 hdata
      exact .node h hstart fun r hr hi => finished_of_unfinishedInputs_eq_nil hnil hr hi
    · refine walkStarted_sound hw ih h hs hstart hstarted ?_ hinside
      exact fun r hr hi => finished_of_unfinishedInputs_eq_nil hnil hr hi

end

end Tierkreis.Controller
