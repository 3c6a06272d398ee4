import Tierkreis.Controller.WalkSound

/-!
# What a start does to a sound storage

What can be started is given the values that its references mean: the graph of
an eval node, of a round and of an element gets its inputs before the next walk
looks into it, and a function is handed over with the places of its arguments.
-/

namespace Tierkreis.Controller

open Lib Lib.StateExcept

variable {V : Type}

/-! ## Started locations -/

namespace StartedAt

variable {loc : Loc} {s s' : Storage V}

theorem writeNodeDef (s : Storage V) (loc : Loc) (node : NodeDef V) :
    StartedAt loc s (s.writeNodeDef loc node) :=
  ⟨rfl, rfl, s.isNodeStarted_writeNodeDef loc node⟩

theorem linkOutputs (h : StartedAt loc s s') (newLoc : Loc) (newPort : PortID) (oldLoc : Loc)
    (oldPort : PortID) : StartedAt loc (s.linkOutputs newLoc newPort oldLoc oldPort)
      (s'.linkOutputs newLoc newPort oldLoc oldPort) := by
  obtain ⟨hout, hfin, hstarted⟩ := h
  refine ⟨?_, ?_, fun l => ?_⟩
  · unfold Storage.linkOutputs
    rw [hout]
    cases s.outputs.get? (oldLoc, oldPort) with
    | none => exact hout
    | some bs => rfl
  · rw [Storage.finished_linkOutputs, Storage.finished_linkOutputs, hfin]
  · unfold Storage.isNodeStarted
    rw [Storage.nodeDefs_linkOutputs, Storage.nodeDefs_linkOutputs]
    exact hstarted l

theorem pipeInputs (h : StartedAt loc s s') (l : Loc) (inputs : HashMap PortID (Loc × PortID)) :
    StartedAt loc (s.pipeInputs l inputs) (s'.pipeInputs l inputs) := by
  unfold Storage.pipeInputs
  induction inputs.toList generalizing s s' with
  | nil => exact h
  | cons e rest ih => exact ih (h.linkOutputs l e.1 e.2.1 e.2.2)

theorem define (h : StartedAt loc s s') (l : Loc) (node : NodeDef V) :
    StartedAt loc (s.writeNodeDef l node) (s'.writeNodeDef l node) := by
  obtain ⟨hout, hfin, hstarted⟩ := h
  refine ⟨hout, hfin, fun k => ?_⟩
  rw [Storage.isNodeStarted_writeNodeDef, Storage.isNodeStarted_writeNodeDef, hstarted,
    Bool.or_left_comm]

theorem again (h : StartedAt loc s s') (node : NodeDef V) :
    StartedAt loc s (s'.writeNodeDef loc node) := by
  obtain ⟨hout, hfin, hstarted⟩ := h
  refine ⟨hout, hfin, fun k => ?_⟩
  rw [Storage.isNodeStarted_writeNodeDef, hstarted, ← Bool.or_assoc, Bool.or_self]

theorem mark (h : StartedAt loc s s') (l : Loc) :
    StartedAt loc (s.markNodeFinished l) (s'.markNodeFinished l) :=
  ⟨h.outputs, congrArg (insert l) h.finished, h.started⟩

theorem elements (h : StartedAt loc s s') (parent map : Loc) (body : ValueRef) (node : NodeDef V)
    (l : List (Int × PortID)) : StartedAt loc (l.foldl (startElement parent map body node) s)
      (l.foldl (startElement parent map body node) s') := by
  induction l generalizing s s' with
  | nil => exact h
  | cons e rest ih => exact ih ((h.pipeInputs _ _).define _ _)

end StartedAt

/-! ## Inputs that are linked -/

theorem Storage.get?_found_toList (s : Storage V) (d : HashMap PortID (Loc × PortID)) (p : PortID) :
    (s.found d.toList).get? p = (d.get? p).bind s.outputs.get? := by
  have hlist : d.toList.filterMap (fun e => (s.outputs.get? e.2).map fun bs => (e.1, bs)) =
      (d.filterMap fun _ src => s.outputs.get? src).toList := by
    unfold HashMap.filterMap HashMap.toList
    rw [List.filterMap_map, List.map_filterMap]
    refine List.filterMap_congr fun e _ => ?_
    show (s.outputs.get? e.2).map _ = ((s.outputs.get? e.2).map _).map _
    rw [Option.map_map]
    rfl
  unfold Storage.found
  rw [hlist, get?_ofList_toList, HashMap.get?_filterMap]

theorem get?_inputLocs (parent : Loc) (inputs : HashMap PortID ValueRef) (p : PortID) :
    (inputLocs parent inputs).get? p = (inputs.get? p).map fun ref => (parent.N ref.1, ref.2) := by
  rw [inputLocs, HashMap.get?_filterMap]
  cases inputs.get? p <;> rfl

section

variable {W : Interpretation V} {g₀ : GraphData V} {env₀ : PortValues} {s s' : Storage V} {loc c : Loc}
  {F : Frame V} {i : Nat} {node : NodeDef V} {outs : PortValues}

/-- A location gets its values by links to its inputs. -/
theorem Sound.pipe (hs : Sound W g₀ env₀ s) (hh : Holds W g₀ env₀ loc outs)
    (hf : ∀ node outs, ¬ FunctionAt W g₀ env₀ loc node outs) {d : HashMap PortID (Loc × PortID)}
    (hsource : ∀ p src, d.get? p = some src → src.1 ≠ loc)
    (hfound : ∀ p, (d.get? p).bind s.outputs.get? = outs.get? p) :
    Sound W g₀ env₀ (s.pipeInputs loc d) ∧ Complete (s.pipeInputs loc d) loc outs := by
  have hsource' : ∀ e ∈ d.toList, e.2.1 ≠ loc := fun e he =>
    hsource e.1 e.2 (HashMap.get?_eq_some_iff.2 he)
  obtain ⟨hother, hin⟩ := Storage.get?_pipe (s := s) hsource'
  have hm : ∀ p, (s.found d.toList).get? p = outs.get? p := fun p =>
    (s.get?_found_toList d p).trans (hfound p)
  refine ⟨hs.put (s.nodeDefs_pipe _ _) (s.finished_pipe _ _) hother hin hh
    (fun p bs hp => (hm p).symm.trans hp) fun node outs h => absurd h (hf node outs), fun p bs hp => ?_⟩
  exact (hin p).trans (by rw [hm, hp, Option.some_or])

/-- Each input of a node is read as the value that it means. -/
theorem Sound.readInput (hw : AllWalkable W g₀ env₀) (hs : Sound W g₀ env₀ s)
    (h : NodeAt W g₀ env₀ c F i node) (hstart : s.isNodeStarted c = true)
    (hin : ∀ r ∈ node.waitsFor, 0 ≤ r.1 → c.N r.1 ∈ s.finished)
    (hk : ∀ pred ifTrue ifFalse, node.kind ≠ .ifelse pred ifTrue ifFalse) {vals : PortValues}
    (hv : Values (Means W F.graph F.env) node.inputs vals) {p : PortID}
    (hp : p ∉ node.kind.fieldEdges.map Prod.fst) :
    ((inputLocs c node.inputs).get? p).bind s.outputs.get? = vals.get? p := by
  rw [get?_inputLocs]
  cases hr : node.inputs.get? p with
  | none =>
    cases hval : vals.get? p with
    | none => rfl
    | some bs =>
      obtain ⟨r, hr', -⟩ := hv.of_get? hval
      cases hr.symm.trans hr'
  | some r =>
    obtain ⟨bs, hval, hmeans⟩ := hv.get? hr
    have hwaits : r ∈ node.waitsFor := by
      rw [waitsFor_of_not_ifelse hk]
      exact mem_edges_input hp hr
    rw [hval]
    exact hs.readValue hw h hstart (.waits hwaits) hmeans (hin r hwaits)

/-- With its graph under `body`, that is what the graph is given. -/
theorem Sound.readBody (hw : AllWalkable W g₀ env₀) (hs : Sound W g₀ env₀ s)
    (h : NodeAt W g₀ env₀ c F i node) (hstart : s.isNodeStarted c = true)
    (hin : ∀ r ∈ node.waitsFor, 0 ≤ r.1 → c.N r.1 ∈ s.finished) {ref : ValueRef}
    (hk : node.kind.fieldEdges = [("body", ref)]) {vals : PortValues} {bs : Bytes}
    (hv : Values (Means W F.graph F.env) node.inputs vals) (hb : Means W F.graph F.env ref (.value bs))
    (p : PortID) : (((inputLocs c node.inputs).insert "body" (c.N ref.1, ref.2)).get? p).bind
      s.outputs.get? = (vals.insert "body" bs).get? p := by
  have hkind : ∀ pred ifTrue ifFalse, node.kind ≠ .ifelse pred ifTrue ifFalse := by
    intro pred ifTrue ifFalse hk'
    have hlen := congrArg List.length hk
    simp [hk', NodeKind.fieldEdges] at hlen
  rw [HashMap.get?_insert, HashMap.get?_insert]
  by_cases hp : p = "body"
  · have hwaits : ref ∈ node.waitsFor := by
      rw [waitsFor_of_not_ifelse hkind]
      exact mem_edges_field "body" (by simp [hk])
    rw [if_pos hp, if_pos hp, Option.bind_some]
    exact hs.readValue hw h hstart (.waits hwaits) hb (hin ref hwaits)
  · rw [if_neg hp, if_neg hp]
    exact hs.readInput hw h hstart hin hkind hv (by simpa [hk] using hp)

/-! ## What a location is not -/

theorem NodeAt.not_scope (h : NodeAt W g₀ env₀ c F i node) (hk : ∀ ref, node.kind ≠ .eval ref)
    {F' : Frame V} : ¬ Scope W g₀ env₀ (c.N i) F' := by
  intro hF
  obtain ⟨⟨ref, hkind⟩, -⟩ := h.scope_eval hF
  exact hk ref hkind

theorem NodeAt.not_functionAt (h : NodeAt W g₀ env₀ c F i node)
    (hk : ∀ name, node.kind ≠ .function name) {node' : NodeDef V} {outs : PortValues} :
    ¬ FunctionAt W g₀ env₀ (c.N i) node' outs := by
  rintro ⟨c', F', j, name, hloc, h', hkind, -⟩
  obtain ⟨-, -, -, rfl⟩ := h.unique h' hloc
  exact hk name hkind

theorem NodeAt.not_loopAt (h : NodeAt W g₀ env₀ c F i node)
    (hk : ∀ ref port name, node.kind ≠ .loop ref port name) {bs : Bytes} {body : GraphData V}
    {start : PortValues} : ¬ LoopAt W g₀ env₀ (c.N i) bs body start := by
  rintro ⟨c', F', j, node', port, hloc, h', hl⟩
  obtain ⟨-, -, -, rfl⟩ := h.unique h' hloc
  obtain ⟨ref, name, vals, hkind, -⟩ := hl.means
  exact hk ref port name hkind

theorem NodeAt.not_mapAt (h : NodeAt W g₀ env₀ c F i node) (hk : ∀ ref, node.kind ≠ .map ref)
    {family : List (PortID × Bytes)} : ¬ MapAt W g₀ env₀ (c.N i) family := by
  rintro ⟨c', F', j, node', bs, body, hloc, h', hm⟩
  obtain ⟨-, -, -, rfl⟩ := h.unique h' hloc
  obtain ⟨ref, first, hkind, -⟩ := hm.means
  exact hk ref hkind

/-- Where a graph is evaluated is no function. -/
theorem Scope.not_functionAt (h : Scope W g₀ env₀ c F) {node' : NodeDef V} {outs : PortValues} :
    ¬ FunctionAt W g₀ env₀ c node' outs := by
  rintro ⟨c', F', j, name, rfl, h', hkind, -⟩
  exact h'.not_scope (by simp [hkind]) h

theorem not_functionAt_input {node' : NodeDef V} {outs : PortValues} :
    ¬ FunctionAt W g₀ env₀ (loc.N (-1)) node' outs := by
  rintro ⟨c', F', j, name, hloc, -⟩
  exact Loc.N_natCast_ne hloc.symm

/-- A node of a graph is marked as started, when it looks into no graph itself. -/
theorem Sound.defineNode (hs : Sound W g₀ env₀ s) (h : NodeAt W g₀ env₀ c F i node)
    (hk : node.kind.fieldEdges.length ≠ 1) (hd : StartedAt (c.N i) s s') : Sound W g₀ env₀ s' := by
  refine hs.define hd (.node h) (fun F' hF => ?_) (fun bs body start hl => ?_) fun family hm => ?_
  · refine absurd hF (h.not_scope fun ref hkind => hk ?_)
    rw [hkind]
    rfl
  · refine absurd hl (h.not_loopAt fun ref port name hkind => hk ?_)
    rw [hkind]
    rfl
  · refine absurd hm (h.not_mapAt fun ref hkind => hk ?_)
    rw [hkind]
    rfl

/-- What is no node of a graph is marked as started, once its inputs are there. -/
theorem Sound.defineScope (hs : Sound W g₀ env₀ s) (h : Scope W g₀ env₀ loc F) (hnode : ¬ loc.IsNode)
    (hc : Complete s (loc.N (-1)) F.env) (hd : StartedAt loc s s') : Sound W g₀ env₀ s' := by
  refine hs.define hd (.scope h) (fun F' hF => ?_) (fun bs body start hl => ?_) fun family hm => ?_
  · rw [← h.unique hF]
    exact hc
  · obtain ⟨c', F', j, node', port, hloc, -⟩ := hl
    exact absurd ⟨c', j, hloc⟩ hnode
  · obtain ⟨c', F', j, node', bs, body, hloc, -⟩ := hm
    exact absurd ⟨c', j, hloc⟩ hnode

/-! ## Nodes that only move values -/

section Simple

variable (hw : AllWalkable W g₀ env₀) (hs : Sound W g₀ env₀ s) (h : NodeAt W g₀ env₀ c F i node)
  (hstart : s.isNodeStarted c = true)

include hw hs h

include hstart in
theorem startInput_sound {name : String} (hk : node.kind = .input name) :
    Sound W g₀ env₀ (((s.writeNodeDef (c.N i) node).linkOutputs (c.N i) name
      (c.N (-1)) name).markNodeFinished (c.N i)) := by
  have hdef := hs.defineNode h (by simp [hk, NodeKind.fieldEdges]) (.writeNodeDef s (c.N i) node)
  obtain ⟨outs, hm⟩ := h.means hw
  have hnode := nodeAt?_of_getElem? h.get
  rw [hk] at hnode
  cases hm with
  | node hn hg =>
    cases hnode.symm.trans hn
    exact hg.elim
  | input hn hval =>
    cases hnode.symm.trans hn
    refine hdef.settleLink h (by rw [hk]; rfl) (.input hn hval) ?_
    exact hs.entered c F h.scope hstart _ _ hval

theorem startConst_sound {value : V} (hk : node.kind = .const value) {bs : Bytes}
    (hbs : W.toBytes value = some bs) : Sound W g₀ env₀
      (((s.writeNodeDef (c.N i) node).writeOutput (c.N i) "value" bs).markNodeFinished (c.N i)) := by
  have hdef := hs.defineNode h (by simp [hk, NodeKind.fieldEdges]) (.writeNodeDef s (c.N i) node)
  obtain ⟨outs, hm, hg⟩ := h.gives hw (by simp [hk])
  rw [hk] at hg
  obtain ⟨bs', hbs', rfl⟩ := hg
  cases hbs.symm.trans hbs'
  refine hdef.settle (m := .ofList [("value", bs)]) h (by rw [hk]; rfl) hm rfl rfl (fun k hne => ?_)
    (fun p => ?_) fun _ => rfl
  · exact HashMap.get?_insert_ne _ _ fun heq => hne (congrArg Prod.fst heq)
  · show (s.outputs.insert (c.N i, "value") bs).get? (c.N i, p) = _
    rw [HashMap.get?_insert, get?_single]
    by_cases hp : p = "value"
    · rw [if_pos hp, if_pos (by rw [hp]), Option.some_or]
    · rw [if_neg hp, if_neg fun heq => hp (congrArg Prod.snd heq), Option.none_or]
      rfl

omit hs in
/-- Of the needed nodes, the output of the graph is the only output node. -/
theorem NodeAt.isOutput (hk : node.kind = .output) : F.graph.graphOutputIdx = some (i : Int) ∧
    Values (Means W F.graph F.env) node.inputs F.outs := by
  have hidx : F.graph.graphOutputIdx = some (i : Int) := by
    cases h.demanded with
    | output ho => exact ho
    | input hd hn hr =>
      obtain ⟨source, hget, hout, -⟩ := (h.scope.walkable hw).recorded _ _ hn _ _ hr.edge
      cases h.get.symm.trans hget
      rw [hk] at hout
      cases hout
  obtain ⟨o, node', ho, hnode, -, hv⟩ := h.scope.output
  obtain rfl := Int.ofNat.inj (Option.some.inj (hidx.symm.trans ho))
  cases h.get.symm.trans hnode.get
  exact ⟨hidx, hv⟩

include hstart in
/-- The output node gives its graph what the graph denotes. -/
theorem startOutput_sound (hk : node.kind = .output)
    (hin : ∀ r ∈ node.waitsFor, 0 ≤ r.1 → c.N r.1 ∈ s.finished) :
    Sound W g₀ env₀ ((((s.writeNodeDef (c.N i) node).markNodeFinished (c.N i)).pipeInputs c
      (inputLocs c node.inputs)).markNodeFinished c) := by
  obtain ⟨hidx, hv⟩ := h.isOutput hw hk
  have hdef := hs.defineNode h (by simp [hk, NodeKind.fieldEdges]) (.writeNodeDef s (c.N i) node)
  have hmark : Sound W g₀ env₀ ((s.writeNodeDef (c.N i) node).markNodeFinished (c.N i)) := by
    refine hdef.mark (fun outs ho => ?_) (fun node' outs hfun => ?_) fun F' hF => ?_
    · generalize hloc : c.N i = loc at ho
      cases ho with
      | scope hF => exact absurd (hloc ▸ hF) (h.not_scope (by simp [hk]))
      | node h' _ ho _ =>
        obtain ⟨-, -, -, rfl⟩ := h.unique h' hloc
        rw [hk] at ho
        cases ho
    · exact absurd hfun (h.not_functionAt (by simp [hk]))
    · exact absurd hF (h.not_scope (by simp [hk]))
  have hstart' : ((s.writeNodeDef (c.N i) node).markNodeFinished (c.N i)).isNodeStarted c = true := by
    show (s.writeNodeDef (c.N i) node).isNodeStarted c = true
    rw [Storage.isNodeStarted_writeNodeDef, hstart, Bool.or_true]
  have hin' : ∀ r ∈ node.waitsFor, 0 ≤ r.1 →
      c.N r.1 ∈ ((s.writeNodeDef (c.N i) node).markNodeFinished (c.N i)).finished :=
    fun r hr hi => Finset.mem_insert_of_mem (hin r hr hi)
  have hsource : ∀ p src, (inputLocs c node.inputs).get? p = some src → src.1 ≠ c := by
    intro p src hp heq
    rw [get?_inputLocs] at hp
    obtain ⟨ref, -, rfl⟩ := Option.map_eq_some_iff.1 hp
    have hlen := congrArg (fun l : Loc => l.tail.length) heq
    simp [Loc.N, Loc.length_append] at hlen
  obtain ⟨hpipe, hcomplete⟩ := hmark.pipe (.scope h.scope) (fun _ _ => h.scope.not_functionAt) hsource
    fun p => hmark.readInput hw h hstart' hin' (by simp [hk]) hv (by simp [hk, NodeKind.fieldEdges])
  refine hpipe.mark (fun outs ho => ?_) (fun _ _ hfun => absurd hfun h.scope.not_functionAt)
    fun F' hF r hr => ?_
  · rw [ho.holds.unique (.scope h.scope)]
    exact hcomplete
  · cases h.scope.unique hF
    obtain ⟨o, node', ho, hget, hedge, hi⟩ := hr
    obtain rfl := Int.ofNat.inj (Option.some.inj (hidx.symm.trans ho))
    cases h.get.symm.trans hget
    rw [Storage.finished_pipeInputs]
    refine hin' r ?_ hi
    rw [waitsFor_of_not_ifelse (by simp [hk])]
    exact hedge

end Simple

/-! ## Graphs that get their inputs -/

theorem source_of_body (ref : ValueRef) {parent : Loc} {inputs : HashMap PortID ValueRef} {p : PortID}
    {src : Loc × PortID} (h : ((inputLocs parent inputs).insert "body"
      (parent.N ref.1, ref.2)).get? p = some src) : ∃ k, src.1 = parent.N k := by
  rw [HashMap.get?_insert] at h
  split at h
  · cases h
    exact ⟨_, rfl⟩
  · rw [get?_inputLocs] at h
    obtain ⟨r, -, rfl⟩ := Option.map_eq_some_iff.1 h
    exact ⟨_, rfl⟩

/-- A graph that is no node of another gets its inputs, and is marked as started. -/
theorem Sound.enterScope (hs : Sound W g₀ env₀ s) (h : Scope W g₀ env₀ loc F) (hnode : ¬ loc.IsNode)
    {d : HashMap PortID (Loc × PortID)} (hsource : ∀ p src, d.get? p = some src → src.1 ≠ loc.N (-1))
    (hfound : ∀ p, (d.get? p).bind s.outputs.get? = F.env.get? p)
    (hd : StartedAt loc (s.pipeInputs (loc.N (-1)) d) s') : Sound W g₀ env₀ s' := by
  obtain ⟨hpipe, hcomplete⟩ := hs.pipe (.inputs h) (fun _ _ => not_functionAt_input) hsource hfound
  exact hpipe.defineScope h hnode hcomplete hd

section Graphs

variable (hw : AllWalkable W g₀ env₀) (hs : Sound W g₀ env₀ s) (h : NodeAt W g₀ env₀ c F i node)
  (hstart : s.isNodeStarted c = true) (hin : ∀ r ∈ node.waitsFor, 0 ≤ r.1 → c.N r.1 ∈ s.finished)

include hw hs h hstart hin

theorem startEval_sound {ref : ValueRef} (hk : node.kind = .eval ref) :
    Sound W g₀ env₀ ((s.writeNodeDef (c.N i) node).pipeInputs ((c.N i).N (-1))
      ((inputLocs c node.inputs).insert "body" (c.N ref.1, ref.2))) := by
  obtain ⟨vals, bs, body, outs, hv, hb, -, hF⟩ := h.evalScope hw hk
  have hsource : ∀ p src,
      ((inputLocs c node.inputs).insert "body" (c.N ref.1, ref.2)).get? p = some src →
      src.1 ≠ (c.N i).N (-1) := by
    intro p src hp heq
    obtain ⟨k, hk⟩ := source_of_body ref hp
    have hlen := congrArg (fun l : Loc => l.tail.length) (hk.symm.trans heq)
    simp [Loc.N, Loc.length_append] at hlen
  obtain ⟨hpipe, hcomplete⟩ := hs.pipe (.inputs hF) (fun _ _ => not_functionAt_input) hsource
    (hs.readBody hw h hstart hin (by rw [hk]; rfl) hv hb)
  refine hpipe.define ((StartedAt.writeNodeDef s (c.N i) node).pipeInputs _ _) (.node h)
    (fun F' hF' => ?_) (fun bs body start hl => ?_) fun family hm => ?_
  · rw [← hF.unique hF']
    exact hcomplete
  · exact absurd hl (h.not_loopAt (by simp [hk]))
  · exact absurd hm (h.not_mapAt (by simp [hk]))

/-- A loop keeps its inputs, and its first round gets them. -/
theorem startLoop_sound {ref : ValueRef} {port : PortID} {name : Option String}
    (hk : node.kind = .loop ref port name) {first : NodeDef V} :
    let ins := (inputLocs c node.inputs).insert "body" (c.N ref.1, ref.2)
    Sound W g₀ env₀ ((((s.writeNodeDef (c.N i) node).pipeInputs ((c.N i).N (-1)) ins).writeNodeDef
      ((c.N i).L 0) first).pipeInputs (((c.N i).L 0).N (-1))
        ((inputLocs (c.N i) (ins.filterMap fun k _ => some (-1, k))).insert "body"
          ((c.N i).N (-1), "body"))) := by
  intro ins
  obtain ⟨bs, body, start, outs, hl, hm, hrounds⟩ := h.loopData hw hk
  obtain ⟨ref', name', vals, hk', hv, hb, rfl⟩ := hl.means
  cases hk.symm.trans hk'
  -- the inputs of the loop
  have hsource : ∀ p src, ins.get? p = some src → src.1 ≠ (c.N i).N (-1) := by
    intro p src hp heq
    obtain ⟨k, hk⟩ := source_of_body ref hp
    have hlen := congrArg (fun l : Loc => l.tail.length) (hk.symm.trans heq)
    simp [Loc.N, Loc.length_append] at hlen
  have hfound := hs.readBody hw h hstart hin (by rw [hk]; rfl) hv hb
  obtain ⟨hpipe, hcomplete⟩ := hs.pipe (.loop h hl) (fun _ _ => not_functionAt_input) hsource hfound
  have hvalues := hpipe.values (.loop h hl) hcomplete
  -- the inputs of its first round
  obtain ⟨outs₀, ho⟩ : ∃ outs₀, GraphDenotes W body (vals.insert "body" bs) outs₀ := by
    cases hrounds with
    | last ho _ => exact ⟨_, ho⟩
    | next ho _ _ => exact ⟨_, ho⟩
  have hF : Scope W g₀ env₀ ((c.N i).L 0) ⟨body, vals.insert "body" bs, outs₀⟩ :=
    Scope.round (n := 0) h.scope h.demanded h.get hl .first ho
  let copy := (inputLocs (c.N i) (ins.filterMap fun k _ => some (-1, k))).insert "body"
    ((c.N i).N (-1), "body")
  have hcopy : ∀ p src, copy.get? p = some src → src.1 ≠ ((c.N i).L 0).N (-1) := by
    intro p src hp heq
    obtain ⟨k, hk⟩ := source_of_body (-1, "body") hp
    have hlen := congrArg (fun l : Loc => l.tail.length) (hk.symm.trans heq)
    simp [Loc.N, Loc.L, Loc.length_append] at hlen
  have hfound' : ∀ p, (copy.get? p).bind (s.pipeInputs ((c.N i).N (-1)) ins).outputs.get? =
      (vals.insert "body" bs).get? p := by
    intro p
    rw [HashMap.get?_insert]
    by_cases hp : p = "body"
    · rw [if_pos hp, Option.bind_some, ← hvalues, Storage.get?_valuesAt, hp]
    · rw [if_neg hp, get?_inputLocs, HashMap.get?_filterMap]
      cases hin : ins.get? p with
      | none =>
        have hnone := hfound p
        rw [hin] at hnone
        exact hnone
      | some src =>
        rw [← hvalues, Storage.get?_valuesAt]
        rfl
  have hround := hpipe.enterScope hF (Loc.not_isNode_L _ _) hcopy hfound'
    ((StartedAt.writeNodeDef _ ((c.N i).L 0) first).pipeInputs _ copy)
  refine hround.define ((((StartedAt.writeNodeDef s (c.N i) node).pipeInputs _ _).define _ _).pipeInputs
    _ _) (.node h) (fun F' hF' => ?_) (fun bs' body' start' hl' => ?_) fun family hm => ?_
  · exact absurd hF' (h.not_scope (by simp [hk]))
  · obtain ⟨c', F', j, node', port', hloc, h', hl'⟩ := hl'
    obtain ⟨rfl, rfl, rfl, rfl⟩ := h.unique h' hloc
    obtain ⟨rfl, rfl, rfl, rfl⟩ := hl.unique hl'
    refine ⟨fun p bs' hp => ?_, ?_⟩
    · have hsource' : ∀ e ∈ copy.toList, e.2.1 ≠ ((c.N i).L 0).N (-1) := fun e he =>
        hcopy e.1 e.2 (HashMap.get?_eq_some_iff.2 he)
      obtain ⟨-, hother, -⟩ := Storage.get?_pipeInputs ((s.pipeInputs ((c.N i).N (-1)) ins).writeNodeDef
        ((c.N i).L 0) first) hsource'
      refine (hother _ fun heq => ?_).trans (hcomplete p bs' hp)
      have hlen := congrArg (fun l : Loc => l.tail.length) heq
      simp [Loc.N, Loc.L, Loc.length_append] at hlen
    · rw [Storage.isNodeStarted_pipeInputs, Storage.isNodeStarted_writeNodeDef, decide_eq_true rfl,
        Bool.true_or]
  · exact absurd hm (h.not_mapAt (by simp [hk]))

end Graphs

theorem mem_portsOf {α : Type} {d : HashMap PortID α} {p : PortID} :
    p ∈ portsOf d ↔ ∃ a, d.get? p = some a := by
  unfold portsOf
  rw [List.mem_map]
  constructor
  · rintro ⟨e, he, rfl⟩
    exact ⟨e.2, HashMap.get?_eq_some_iff.2 he⟩
  · rintro ⟨a, ha⟩
    exact ⟨(p, a), HashMap.get?_eq_some_iff.1 ha, rfl⟩

/-- The next round of a loop gets its inputs from the round before. -/
theorem startRound_sound (hw : AllWalkable W g₀ env₀) (hs : Sound W g₀ env₀ s)
    (h : NodeAt W g₀ env₀ c F i node) {n out : Nat} {port : PortID} {bs : Bytes} {body : GraphData V}
    {start ins outs : PortValues} (hl : LoopData W F node port bs body start)
    (hr : Reached W body bs port (portsOf node.inputs) start n ins) (ho : GraphDenotes W body ins outs)
    (hc : (outs.get? port).bind W.shouldContinue = some true) {outputNode : NodeDef V}
    (hstart : s.isNodeStarted ((c.N i).L n) = true) (hfin : (c.N i).L n ∈ s.finished)
    (hout : body.graphOutputIdx = some (out : Int)) (hn : body.nodes[out]? = some outputNode) :
    let d := (inputLocs ((c.N i).L n) (iterationDef node outputNode.inputs).inputs).insert "body"
      (((c.N i).L n).N (-1), "body")
    Sound W g₀ env₀ ((s.writeNodeDef ((c.N i).L (n + 1 : Nat)) (iterationDef node
      outputNode.inputs)).pipeInputs (((c.N i).L (n + 1 : Nat)).N (-1)) d) := by
  intro d
  have hF : Scope W g₀ env₀ ((c.N i).L n) ⟨body, ins, outs⟩ := .round h.scope h.demanded h.get hl hr ho
  have hnext : Reached W body bs port (portsOf node.inputs) start (n + 1)
    (nextInputs (portsOf node.inputs) bs ins outs) := .next hr ho hc
  -- the next round gives something, as the loop does
  obtain ⟨outs', ho'⟩ :
      ∃ outs', GraphDenotes W body (nextInputs (portsOf node.inputs) bs ins outs) outs' := by
    obtain ⟨ref, name, vals, hk, -, -, -⟩ := hl.means
    obtain ⟨bs', body', start', final, hl', -, hrounds⟩ := h.loopData hw hk
    obtain ⟨-, rfl, rfl, rfl⟩ := hl.unique hl'
    cases hrounds.of_reached hnext with
    | last ho _ => exact ⟨_, ho⟩
    | next ho _ _ => exact ⟨_, ho⟩
  have hF' : Scope W g₀ env₀ ((c.N i).L (n + 1 : Nat))
    ⟨body, nextInputs (portsOf node.inputs) bs ins outs, outs'⟩ :=
      .round h.scope h.demanded h.get hl hnext ho'
  have hins := hs.values (.inputs hF) (hs.entered _ _ hF hstart)
  simp only [Storage.get?_valuesAt] at hins
  have hbody : ins.get? "body" = some bs := by
    cases hr with
    | first =>
      obtain ⟨_, _, vals, -, -, -, rfl⟩ := hl.means
      exact HashMap.get?_insert_self _ _ _
    | next => exact HashMap.get?_insert_self _ _ _
  -- the outputs of the round are read from its nodes, which are finished
  obtain ⟨o, node', ho'', hnode, hk, hv⟩ := hF.output
  obtain rfl := Int.ofNat.inj (Option.some.inj (hout.symm.trans ho''))
  cases hn.symm.trans hnode.get
  have hread := fun p => hs.readInput hw hnode hstart (p := p) (fun r hr hi => hs.outputs _ _ hF hfin r
    ⟨out, outputNode, hout, hn, by rwa [waitsFor_of_not_ifelse (by simp [hk])] at hr, hi⟩)
    (by simp [hk]) hv
    (by simp [hk, NodeKind.fieldEdges])
  refine hs.enterScope hF' (Loc.not_isNode_L _ _) (d := d) (fun p src hp heq => ?_) (fun p => ?_)
    ((StartedAt.writeNodeDef s _ _).pipeInputs _ d)
  · obtain ⟨k, hk⟩ := source_of_body (-1, "body") hp
    have heq' : ((c.N i).L n).N k = ((c.N i).L (n + 1 : Nat)).N (-1) := hk.symm.trans heq
    have hlast : (n : Int) = (n + 1 : Nat) := (Loc.L_eq_L (Loc.N_eq_N heq').1).2
    omega
  · show (((inputLocs ((c.N i).L n) (iterationDef node outputNode.inputs).inputs).insert "body"
      (((c.N i).L n).N (-1), "body")).get? p).bind s.outputs.get? =
        (nextInputs (portsOf node.inputs) bs ins outs).get? p
    unfold nextInputs
    rw [HashMap.get?_insert, HashMap.get?_insert]
    by_cases hp : p = "body"
    · rw [if_pos hp, if_pos hp, Option.bind_some, hins, hbody]
    · rw [if_neg hp, if_neg hp, get?_inputLocs, HashMap.get?_extend, HashMap.get?_ofList_filterMap]
      show ((((node.inputs.filterMap fun k _ => some (-1, k)).extend outputNode.inputs).get? p).map
        _).bind _ = _
      rw [HashMap.get?_extend, HashMap.get?_filterMap]
      have hp' := hread p
      rw [get?_inputLocs] at hp'
      cases hr' : outputNode.inputs.get? p with
      | some r =>
        obtain ⟨bs', hval, -⟩ := hv.get? hr'
        rw [hr', hval] at hp'
        rw [hval]
        exact hp'
      | none =>
        rw [hr'] at hp'
        rw [← hp']
        cases hport : node.inputs.get? p with
        | some r =>
          rw [if_pos (mem_portsOf.2 ⟨r, hport⟩)]
          exact hins p
        | none =>
          have hnot : p ∉ portsOf node.inputs := fun hmem => by
            obtain ⟨r, hr⟩ := mem_portsOf.1 hmem
            cases hport.symm.trans hr
          rw [if_neg hnot]
          rfl

/-! ## Elements that get their inputs -/

/-- The value of an element is at its port. -/
theorem Storage.outputs_of_star {loc : Loc} {family : List (PortID × Bytes)}
    (h : readPort (s.valuesAt loc) "*" = some (.family family)) {p : PortID} {v : Bytes}
    (hv : family.lookup p = some v) : s.outputs.get? (loc, p) = some v := by
  obtain ⟨rfl, -⟩ := Storage.family_of_star h
  obtain ⟨l₁, l₂, hl, -⟩ := List.lookup_eq_some_iff.1 hv
  rw [← Storage.get?_valuesAt, HashMap.get?_eq_some_iff, hl]
  exact List.mem_append_right _ (.head _)

/-- What an element is linked to is what it means. -/
theorem Sound.readElement (hw : AllWalkable W g₀ env₀) (hs : Sound W g₀ env₀ s)
    (h : NodeAt W g₀ env₀ c F i node) (hstart : s.isNodeStarted c = true)
    (hin : ∀ r ∈ node.waitsFor, 0 ≤ r.1 → c.N r.1 ∈ s.finished) {ref : ValueRef}
    (hk : node.kind = .map ref) {bs : Bytes} (hb : Means W F.graph F.env ref (.value bs))
    {port : PortID} {vals : PortValues}
    (hv : ElementValues (Means W F.graph F.env) node.inputs port vals) (p : PortID) :
    ((evalInputs c ref node.inputs port).get? p).bind s.outputs.get? =
      ((HashMap.ofList [("body", bs)]).extend vals).get? p := by
  have hbody := (h.scope.walkable hw).bodies i node h.get ref hk
  have hedges : node.waitsFor = node.edges := waitsFor_of_not_ifelse (by simp [hk])
  rw [get?_evalInputs, HashMap.get?_extend, get?_single]
  cases hr : node.inputs.get? p with
  | none =>
    rw [hv.get?_eq_none hr, Option.none_or]
    dsimp only
    by_cases hp : p = "body"
    · have hwaits : ref ∈ node.waitsFor := by
        rw [hedges]
        exact mem_edges_field "body" (by simp [hk, NodeKind.fieldEdges])
      rw [if_pos hp, if_pos hp]
      exact hs.readValue hw h hstart (.waits hwaits) hb (hin _ hwaits)
    · rw [if_neg hp, if_neg hp]
      rfl
  | some r =>
    obtain ⟨v, hval, hlook⟩ := hv.get? hr
    have hwaits : r ∈ node.waitsFor := by
      rw [hedges]
      refine mem_edges_input ?_ hr
      intro hp
      rw [hk] at hp
      rw [List.mem_singleton.1 hp, hbody] at hr
      cases hr
    rw [hval, Option.some_or]
    show s.outputs.get? (c.N r.1, elementPort r.2 port) = some v
    unfold elementPort
    by_cases hstar : r.2 = "*"
    · obtain ⟨family, hf, hlookup⟩ := (if_pos hstar).mp hlook
      have hread := hs.read hw h hstart (.waits hwaits) hf (hin _ hwaits)
      rw [hstar] at hread
      rw [if_pos hstar]
      exact Storage.outputs_of_star hread hlookup
    · rw [if_neg hstar]
      exact hs.readValue hw h hstart (.waits hwaits) ((if_neg hstar).mp hlook) (hin _ hwaits)

theorem startElements_sound (hw : AllWalkable W g₀ env₀) (h : NodeAt W g₀ env₀ c F i node)
    {ref : ValueRef}
    (hk : node.kind = .map ref) {bs : Bytes} {body : GraphData V} {family : List (PortID × Bytes)}
    (hm : MapData W F node bs body family) (hb : Means W F.graph F.env ref (.value bs))
    {results : List PortValues} (hresults : List.Forall₂ (fun e outs => ∃ vals,
      ElementValues (Means W F.graph F.env) node.inputs e.1 vals ∧
        GraphDenotes W body ((HashMap.ofList [("body", bs)]).extend vals) outs) family results) :
    ∀ {l : List (Int × PortID)} {s : Storage V},
      (∀ x ∈ l, ∃ e ∈ family, pyInt (lastPart e.1) = .ok x.1 ∧ x.2 = e.1) → Sound W g₀ env₀ s →
      s.isNodeStarted c = true → (∀ r ∈ node.waitsFor, 0 ≤ r.1 → c.N r.1 ∈ s.finished) →
      Sound W g₀ env₀ (l.foldl (startElement c (c.N i) ref node) s) ∧
        (∀ k, s.isNodeStarted k = true →
          (l.foldl (startElement c (c.N i) ref node) s).isNodeStarted k = true) ∧
        (l.foldl (startElement c (c.N i) ref node) s).finished = s.finished ∧
        ∀ x ∈ l, (l.foldl (startElement c (c.N i) ref node) s).isNodeStarted ((c.N i).M x.1) = true
  | [], s, _, hs, _, _ => ⟨hs, fun _ h => h, rfl, fun x hx => absurd hx List.not_mem_nil⟩
  | x :: l, s, hl, hs, hstart, hin => by
    obtain ⟨e, he, hkx, hx⟩ := hl x (.head _)
    obtain ⟨vals, outs, hv, hF⟩ := h.elementScope hm hresults he hkx
    let t := startElement c (c.N i) ref node s x
    have hsource : ∀ p src, (evalInputs c ref node.inputs x.2).get? p = some src →
        src.1 ≠ ((c.N i).M x.1).N (-1) := by
      intro p src hp heq
      obtain ⟨k, hk⟩ := evalInputs_source (HashMap.get?_eq_some_iff.1 hp)
      exact Loc.N_ne_input c k i x.1 (hk.symm.trans heq)
    have ht : Sound W g₀ env₀ t := by
      refine hs.enterScope hF (Loc.not_isNode_M _ _) hsource (fun p => ?_) (.writeNodeDef _ _ _)
      rw [hx]
      exact hs.readElement hw h hstart hin hk hb hv p
    have hstarted : ∀ k, t.isNodeStarted k = (decide (k = (c.N i).M x.1) || s.isNodeStarted k) := by
      intro k
      show ((s.pipeInputs _ _).writeNodeDef _ _).isNodeStarted k = _
      rw [Storage.isNodeStarted_writeNodeDef, Storage.isNodeStarted_pipeInputs]
    have hfin : t.finished = s.finished := Storage.finished_pipeInputs _ _ _
    obtain ⟨hsound, hkept, hfin', hall⟩ := startElements_sound hw h hk hm hb hresults (s := t)
      (fun y hy => hl y (.tail _ hy)) ht (by rw [hstarted, hstart, Bool.or_true])
      fun r hr hi => hfin ▸ hin r hr hi
    refine ⟨hsound, fun k hk => hkept k (by rw [hstarted, hk, Bool.or_true]), hfin'.trans hfin,
      fun y hy => ?_⟩
    rcases List.mem_cons.1 hy with rfl | hy
    · exact hkept _ (by rw [hstarted, decide_eq_true rfl, Bool.true_or])
    · exact hall y hy

theorem startMap_ok {parent : Loc} (hp : loc.parent = .ok (some parent)) {ref : ValueRef}
    (h : startMap loc ref node s = .ok ((), s')) : ∃ first elements, firstRef node.inputs = .ok first ∧
      outputsIter s (parent.N first.1) = .ok elements ∧
      ((elements ≠ [] ∧ s' = elements.foldl (startElement parent loc ref node)
          (s.writeNodeDef loc node)) ∨
        (elements = [] ∧ s' = (s.writeNodeDef loc node).markNodeFinished loc)) := by
  unfold startMap at h
  rw [modify_bind, hp] at h
  obtain ⟨first, hfirst, h⟩ := lift_bind_eq_ok.1 h
  rw [get_bind] at h
  obtain ⟨elements, helements, h⟩ := lift_bind_eq_ok.1 h
  refine ⟨first, elements, hfirst, helements, ?_⟩
  cases elements with
  | nil =>
    rw [List.isEmpty_nil, if_pos rfl, modify_bind] at h
    obtain ⟨-, rfl⟩ := Prod.mk.inj (Except.ok.inj h)
    exact .inr ⟨rfl, rfl⟩
  | cons x l =>
    rw [List.isEmpty_cons, if_neg (by decide)] at h
    obtain ⟨-, rfl⟩ := Prod.mk.inj (Except.ok.inj h)
    exact .inl ⟨List.cons_ne_nil _ _, rfl⟩

/-- The elements of a map get their inputs; without elements, it is finished. -/
theorem startMap_sound (hw : AllWalkable W g₀ env₀) (hs : Sound W g₀ env₀ s)
    (h : NodeAt W g₀ env₀ c F i node) (hstart : s.isNodeStarted c = true)
    (hin : ∀ r ∈ node.waitsFor, 0 ≤ r.1 → c.N r.1 ∈ s.finished) {ref : ValueRef}
    (hk : node.kind = .map ref)
    (hmap : startMap (c.N i) ref node (s.writeNodeDef (c.N i) node) = .ok ((), s')) :
    Sound W g₀ env₀ s' := by
  obtain ⟨first, family, bs, body, results, hfirst, hf, hb, hmd, hm, hresults⟩ := h.mapData hw hk
  obtain ⟨first', elements, hfirst', helements, hcases⟩ :=
    startMap_ok (Loc.parent_N h.scope.dash i) hmap
  cases hfirst.symm.trans hfirst'
  -- the elements are those of the family
  have hwaits : first ∈ node.waitsFor := by
    obtain ⟨-, port, hport⟩ := of_firstRef_eq_ok hfirst
    rw [waitsFor_of_not_ifelse (by simp [hk])]
    refine mem_edges_input (fun hp => ?_) hport
    rw [hk] at hp
    rw [List.mem_singleton.1 hp, (h.scope.walkable hw).bodies i node h.get ref hk] at hport
    cases hport
  have hfamily := hs.read hw h hstart (.waits hwaits) hf (hin _ hwaits)
  rw [(of_firstRef_eq_ok hfirst).1] at hfamily
  have helems := Storage.outputsIter_family (Storage.family_of_star hfamily).2 helements
  have hdef : StartedAt (c.N i) s ((s.writeNodeDef (c.N i) node).writeNodeDef (c.N i) node) :=
    (StartedAt.writeNodeDef s (c.N i) node).again node
  have hplace : ∀ {t : Storage V}, StartedAt (c.N i) t s' → Sound W g₀ env₀ t →
      ((∀ e ∈ family, ∀ k, pyInt (lastPart e.1) = .ok k → t.isNodeStarted ((c.N i).M k) = true) ∧
        (family = [] → c.N i ∈ t.finished)) → Sound W g₀ env₀ s' := by
    intro t hd ht hall
    refine ht.define hd (.node h) (fun F' hF => ?_) (fun bs body start hl => ?_) fun family' hm' => ?_
    · exact absurd hF (h.not_scope (by simp [hk]))
    · exact absurd hl (h.not_loopAt (by simp [hk]))
    · obtain ⟨c', F', j, node', bs', body', hloc, h', hm'⟩ := hm'
      obtain ⟨rfl, rfl, rfl, rfl⟩ := h.unique h' hloc
      obtain ⟨rfl, rfl, rfl⟩ := hmd.unique hm'
      exact hall
  rcases hcases with ⟨hne, rfl⟩ | ⟨rfl, rfl⟩
  · obtain ⟨hsound, -, -, hall⟩ := startElements_sound hw h hk hmd hb hresults
      (fun x hx => forall₂_mem_left helems hx) hs hstart hin
    refine hplace (hdef.elements c (c.N i) ref node elements) hsound
      ⟨fun e he k hke => ?_, fun hnil => ?_⟩
    · obtain ⟨x, hx, hkx, -⟩ := forall₂_mem_right helems he
      rw [Except.ok.inj (hke.symm.trans hkx)]
      exact hall x hx
    · subst hnil
      cases helems
      exact absurd rfl hne
  · cases helems
    cases hresults
    have hmark : Sound W g₀ env₀ (s.markNodeFinished (c.N i)) := by
      refine hs.mark (fun outs ho p bs hp => ?_) (fun _ _ hfun => ?_) fun F' hF => ?_
      · rw [ho.holds.unique (.node h hm)] at hp
        cases hp
      · exact absurd hfun (h.not_functionAt (by simp [hk]))
      · exact absurd hF (h.not_scope (by simp [hk]))
    refine hplace (hdef.mark (c.N i)) hmark ⟨fun e he => absurd he List.not_mem_nil, fun _ => ?_⟩
    exact Finset.mem_insert_self _ _

/-! ## What can be started -/

/-- A function that is needed, handed to an executor when its inputs were there. -/
inductive CallAt (W : Interpretation V) (g₀ : GraphData V) (env₀ : PortValues) (s : Storage V) :
    Call → Prop
  | intro {c : Loc} {F : Frame V} {i : Nat} {node : NodeDef V} {name : String}
      (h : NodeAt W g₀ env₀ c F i node) (hk : node.kind = .function name)
      (hstart : s.isNodeStarted c = true)
      (hin : ∀ r ∈ node.waitsFor, 0 ≤ r.1 → c.N r.1 ∈ s.finished) : CallAt W g₀ env₀ s {
        loc := c.N i
        launcher := launcherName name
        function := taskName name
        inputs := inputLocs c node.inputs
        outputList := portsOf node.outputs }

theorem CallAt.mono {call : Call} (h : CallAt W g₀ env₀ s call)
    (hkept : ∀ l, s.isNodeStarted l = true → s'.isNodeStarted l = true)
    (hfin : s.finished ⊆ s'.finished) : CallAt W g₀ env₀ s' call := by
  obtain ⟨h, hk, hstart, hin⟩ := h
  exact .intro h hk (hkept _ hstart) fun r hr hi => hfin (hin r hr hi)

theorem Startable.mono {data : NodeRunData V} (h : Startable W g₀ env₀ s data)
    (hkept : ∀ l, s.isNodeStarted l = true → s'.isNodeStarted l = true)
    (hfin : s.finished ⊆ s'.finished) : Startable W g₀ env₀ s' data := by
  cases h with
  | node h hstart hin => exact .node h (hkept _ hstart) fun r hr hi => hfin (hin r hr hi)
  | round h hl hr ho hc hstart hfin' hout hn =>
    exact .round h hl hr ho hc (hkept _ hstart) (hfin hfin') hout hn

theorem Loc.dash_N {parent : Loc} (h : parent.dash = true) (i : Int) : (parent.N i).dash = true := h

theorem Loc.parent_L_zero {parent : Loc} (h : parent.dash = true) :
    (parent.L 0).parent = .ok (some parent) := by
  obtain ⟨dash, tail⟩ := parent
  cases h
  simp [Loc.parent, L, append, steps, bind, Except.bind, pure, Except.pure]

theorem Loc.parent_L_succ {parent : Loc} (h : parent.dash = true) (n : Nat) :
    (parent.L (n + 1 : Nat)).parent = .ok (some (parent.L n)) := by
  obtain ⟨dash, tail⟩ := parent
  cases h
  simp [Loc.parent, L, append, steps, bind, Except.bind, pure, Except.pure]
  intro hzero
  have hint : (n : Int) + 1 = 0 := hzero
  omega

/-- What can be started keeps the storage sound, and hands over nothing but needed functions. -/
theorem start_sound (hw : AllWalkable W g₀ env₀) (hs : Sound W g₀ env₀ s) {data : NodeRunData V}
    (hd : Startable W g₀ env₀ s data) {calls : List Call} (h : start W data s = .ok (calls, s')) :
    Sound W g₀ env₀ s' ∧ ∀ call ∈ calls, CallAt W g₀ env₀ s' call := by
  obtain ⟨parent, hparent, hout⟩ := startWith_ok.1 h
  have hnone : ∀ call ∈ ([] : List Call), CallAt W g₀ env₀ s' call :=
    fun _ hcall => absurd hcall List.not_mem_nil
  cases hd with
  | round hn hl hr ho hc hstart hfin hidx hnode =>
    dsimp only at hparent
    rw [Loc.parent_L_succ (Loc.dash_N hn.scope.dash _)] at hparent
    cases hparent
    obtain ⟨bs, body, -, -, rfl, rfl⟩ := hout
    exact ⟨startRound_sound hw hs hn hl hr ho hc hstart hfin hidx hnode, hnone⟩
  | @node c F i node hn hstart hin =>
    rw [show (runData (c.N i) node).nodeLocation = c.N i from rfl, Loc.parent_N hn.scope.dash] at hparent
    obtain rfl : c = parent := Option.some.inj (Except.ok.inj hparent)
    unfold StartOutcome runData at hout
    dsimp only at hout
    cases hk : node.kind with
    | function name =>
      rw [hk] at hout
      obtain ⟨rfl, rfl⟩ := hout
      have hdef := StartedAt.writeNodeDef s (c.N i) node
      refine ⟨hs.defineNode hn (by simp [hk, NodeKind.fieldEdges]) hdef, fun call hcall => ?_⟩
      cases List.mem_singleton.1 hcall
      exact .intro hn hk (by rw [hdef.started, hstart, Bool.or_true]) hin
    | input name =>
      rw [hk] at hout
      obtain ⟨rfl, rfl⟩ := hout
      exact ⟨startInput_sound hw hs hn hstart hk, hnone⟩
    | output =>
      rw [hk] at hout
      obtain ⟨rfl, rfl⟩ := hout
      exact ⟨startOutput_sound hw hs hn hstart hk hin, hnone⟩
    | const value =>
      rw [hk] at hout
      obtain ⟨bs, hbs, rfl, rfl⟩ := hout
      exact ⟨startConst_sound hw hs hn hk hbs, hnone⟩
    | eval graph =>
      rw [hk] at hout
      obtain ⟨bs, body, -, -, rfl, rfl⟩ := hout
      exact ⟨startEval_sound hw hs hn hstart hin hk, hnone⟩
    | loop body port name =>
      rw [hk] at hout
      obtain ⟨parent', hparent', hout'⟩ := startWith_ok.1 hout
      unfold firstIteration at hparent'
      dsimp only at hparent'
      rw [Loc.parent_L_zero (Loc.dash_N hn.scope.dash i)] at hparent'
      cases hparent'
      obtain ⟨bs, g, -, -, rfl, rfl⟩ := hout'
      exact ⟨startLoop_sound hw hs hn hstart hin hk, hnone⟩
    | map body =>
      rw [hk] at hout
      obtain ⟨hmap, rfl⟩ := hout
      exact ⟨startMap_sound hw hs hn hstart hin hk hmap, hnone⟩
    | ifelse pred ifTrue ifFalse | eifelse pred ifTrue ifFalse =>
      rw [hk] at hout
      obtain ⟨rfl, rfl⟩ := hout
      exact ⟨hs.defineNode hn (by simp [hk, NodeKind.fieldEdges]) (.writeNodeDef s (c.N i) node), hnone⟩

end

end Tierkreis.Controller
