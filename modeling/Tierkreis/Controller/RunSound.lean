import Tierkreis.Controller.StartSound

/-!
# What a run computes

However walks, starts and workers interleave, and however often the controller
is stopped and resumed: only functions that the output of the graph needs are
handed over, each worker gives what the graph means at its node, and once the
root is finished its outputs are those that the graph denotes.
-/

namespace Tierkreis.Controller

open Lib Lib.StateExcept Lib.Run

variable {V : Type}

/-! ## Workers -/

theorem toList_inputLocs (parent : Loc) (inputs : HashMap PortID ValueRef) :
    (inputLocs parent inputs).toList =
      inputs.toList.map fun e => (e.1, parent.N e.2.1, e.2.2) := by
  unfold inputLocs HashMap.filterMap HashMap.toList
  dsimp only
  induction inputs.entries with
  | nil => rfl
  | cons e l ih => exact congrArg (_ :: ·) ih

/-- The arguments that are read are those that are meant. -/
theorem filterMap_args {look : ValueRef → Arg → Prop} (read : ValueRef → Option Arg)
    {l : List (PortID × ValueRef)} {args : List (PortID × Arg)}
    (h : List.Forall₂ (fun e a => e.1 = a.1 ∧ look e.2 a.2) l args)
    (hread : ∀ e ∈ l, ∀ a, look e.2 a → read e.2 = some a) :
    l.filterMap (fun e => (read e.2).map fun a => (e.1, a)) = args := by
  induction h with
  | nil => rfl
  | cons he _ ih =>
    rw [List.filterMap_cons_some (by rw [hread _ (.head _) _ he.2, Option.map_some]), he.1,
      ih fun e' he' => hread e' (.tail _ he')]

section

variable {W : Interpretation V} {g₀ : GraphData V} {env₀ : PortValues}

/-- A call of a function node that the output of its graph needs, with the arguments that its
references mean and with what it gives for them. -/
structure CallMeans (W : Interpretation V) (g₀ : GraphData V) (env₀ : PortValues) (call : Call)
    (args : List (PortID × Arg)) (outs : PortValues) : Prop where
  node : ∃ (c : Loc) (F : Frame V) (i : Nat) (node : NodeDef V) (name : String),
    NodeAt W g₀ env₀ c F i node ∧ node.kind = .function name ∧
      call = {
        loc := c.N i
        launcher := launcherName name
        function := taskName name
        inputs := inputLocs c node.inputs
        outputList := portsOf node.outputs } ∧
      Args (Means W F.graph F.env) node.inputs args ∧ NodeMeans W F.graph F.env i outs
  run : W.run call.launcher call.function args = some outs

/-- A worker finds the arguments that its function is meant to have. -/
theorem CallAt.means (hw : AllWalkable W g₀ env₀) {s : Storage V} (hs : Sound W g₀ env₀ s)
    {call : Call} (h : CallAt W g₀ env₀ s call) :
    ∃ outs, CallMeans W g₀ env₀ call (s.arguments call) outs := by
  obtain ⟨h, hk, hstart, hin⟩ := h
  rename_i c F i node name
  obtain ⟨outs, hm, hg⟩ := h.gives hw (by simp [hk])
  rw [hk] at hg
  obtain ⟨args, hargs, hrun⟩ := hg
  have hread : s.arguments {
      loc := c.N i, launcher := launcherName name, function := taskName name,
      inputs := inputLocs c node.inputs, outputList := portsOf node.outputs } = args := by
    unfold Storage.arguments
    rw [toList_inputLocs, List.filterMap_map]
    refine filterMap_args (fun r => readPort (s.valuesAt (c.N r.1)) r.2) hargs ?_
    rintro ⟨port, r⟩ he a ha
    have hwaits : r ∈ node.waitsFor := by
      rw [waitsFor_of_not_ifelse (by simp [hk])]
      exact mem_edges_input (by simp [hk, NodeKind.fieldEdges]) (HashMap.get?_eq_some_iff.2 he)
    exact hs.read hw h hstart (.waits hwaits) ha (hin r hwaits)
  rw [hread]
  exact ⟨outs, ⟨c, F, i, node, name, h, hk, rfl, hargs, hm⟩, hrun⟩

/-- What a worker answers is what is meant. -/
theorem CallAt.answer (hw : AllWalkable W g₀ env₀) {s : Storage V} (hs : Sound W g₀ env₀ s)
    {call : Call} (h : CallAt W g₀ env₀ s call) {outs : PortValues}
    (ha : W.answer s call = some outs) : CallMeans W g₀ env₀ call (s.arguments call) outs := by
  obtain ⟨outs', hmeans⟩ := h.means hw hs
  cases hmeans.run.symm.trans ha
  exact hmeans

/-! ## Turns -/

/-- What holds along a run. -/
structure SystemSound (W : Interpretation V) (g₀ : GraphData V) (env₀ : PortValues) (s : System V) :
    Prop where
  storage : Sound W g₀ env₀ s.storage
  root : s.storage.isNodeStarted Loc.root = true
  pending : ∀ data ∈ s.pending, Startable W g₀ env₀ s.storage data
  files : ∀ e ∈ s.breakpoints.toList, ∀ data ∈ e.2.inputsReady, Startable W g₀ env₀ s.storage data
  calls : ∀ call ∈ s.calls, CallAt W g₀ env₀ s.storage call

/-- A worker writes what its function gives. -/
theorem CallMeans.write {s : Storage V} (hs : Sound W g₀ env₀ s) {call : Call}
    {args : List (PortID × Arg)} {outs : PortValues} (h : CallMeans W g₀ env₀ call args outs)
    (hf : s.isNodeFinished call.loc = false) {port : PortID} {bs : Bytes}
    (hb : outs.get? port = some bs) :
    Sound W g₀ env₀ (s.writeOutput call.loc port bs) := by
  obtain ⟨⟨c, F, i, node, name, hnode, -, hcall, -, hm⟩, -⟩ := h
  have hloc : call.loc = c.N i := congrArg Call.loc hcall
  have hholds : Holds W g₀ env₀ call.loc outs := by
    rw [hloc]
    exact .node hnode hm
  refine hs.put (m := .ofList [(port, bs)]) rfl rfl (fun k hne => ?_) (fun p => ?_) hholds
    (fun p bs' hp => ?_) fun _ _ _ hfin => ?_
  · exact HashMap.get?_insert_ne _ _ fun heq => hne (congrArg Prod.fst heq)
  · show (s.outputs.insert (call.loc, port) bs).get? (call.loc, p) = _
    rw [HashMap.get?_insert, get?_single]
    by_cases hp : p = port
    · rw [if_pos hp, if_pos (by rw [hp]), Option.some_or]
    · rw [if_neg hp, if_neg fun heq => hp (congrArg Prod.snd heq), Option.none_or]
  · rw [get?_single] at hp
    split at hp
    · rename_i heq
      cases hp
      rw [heq]
      exact hb
    · cases hp
  · have htrue : s.isNodeFinished call.loc = true := decide_eq_true hfin
    exact Bool.false_ne_true (hf.symm.trans htrue)

/-- A worker ends when all outputs that it was asked for are there. -/
theorem CallMeans.finish {s : Storage V} (hs : Sound W g₀ env₀ s) {call : Call}
    {args : List (PortID × Arg)} {outs : PortValues} (h : CallMeans W g₀ env₀ call args outs)
    (hall : ∀ p ∈ call.outputList, readPort (s.valuesAt call.loc) p = readPort outs p) :
    Sound W g₀ env₀ (s.markNodeFinished call.loc) := by
  obtain ⟨⟨c, F, i, node, name, hnode, hk, hcall, -, hm⟩, -⟩ := h
  have hloc : call.loc = c.N i := congrArg Call.loc hcall
  have hports : call.outputList = portsOf node.outputs := congrArg Call.outputList hcall
  rw [hloc, hports] at hall
  rw [hloc]
  refine hs.mark (fun outs' ho => ?_) (fun node' outs' hfun => ?_) fun F' hF => ?_
  · generalize heq : c.N i = loc at ho
    cases ho with
    | scope hF => exact absurd (heq ▸ hF) (hnode.not_scope (by simp [hk]))
    | node h' hf _ _ =>
      obtain ⟨-, -, -, rfl⟩ := hnode.unique h' heq
      exact absurd hk (hf name)
  · obtain ⟨c', F', j, name', heq, h', -, hm'⟩ := hfun
    obtain ⟨rfl, rfl, rfl, rfl⟩ := hnode.unique h' heq
    rw [hm'.unique hm]
    exact hall
  · exact absurd hF (hnode.not_scope (by simp [hk]))

variable {bs : Bytes} {outs₀ : PortValues}

/-- The graph that a resumed run walks is that of the root. -/
theorem SystemSound.rootGraph {s : System V} (hs : SystemSound W g₀ env₀ s)
    (ho : GraphDenotes W g₀ env₀ outs₀) (hbody : env₀.get? "body" = some bs)
    (hg : W.graphOf bs = some g₀) : rootGraph W s.storage = .ok g₀ := by
  have hread := hs.storage.entered _ _ (.root ho) hs.root "body" bs hbody
  unfold Controller.rootGraph
  rw [Storage.readOutput_eq_ok.2 hread]
  exact decodeGraph_eq_ok.2 hg

theorem NodeRunData.reload_eq (hreload : ∀ v, W.reload v = v) (data : NodeRunData V) :
    data.reload W = data := by
  obtain ⟨loc, ⟨kind, inputs, outputs⟩, outputList⟩ := data
  unfold NodeRunData.reload
  cases kind with
  | const value => simp [hreload]
  | _ => rfl

/-- What breakpoint files hold, if any, is read back as it was. -/
def Reloads (W : Interpretation V) (s : System V) : Prop :=
  s.breakpoints = ∅ ∨ ∀ v, W.reload v = v

/-- What a round finds can be started. -/
theorem SystemSound.sound_round (hw : AllWalkable W g₀ env₀)
    (ho : GraphDenotes W g₀ env₀ outs₀) (hbody : env₀.get? "body" = some bs)
    (hg : W.graphOf bs = some g₀) {s : System V} (hs : SystemSound W g₀ env₀ s)
    (hreload : Reloads W s) {depth : Nat} {enable : Bool} {r : WalkResult V} {storage : Storage V}
    (h : round W s depth enable = .ok (r, storage)) :
    Sound W g₀ env₀ storage ∧ Walked (Startable W g₀ env₀) s.storage r storage := by
  have hroot := hs.rootGraph ho hbody hg
  obtain ⟨g, hg', h⟩ := except_bind_eq_ok.1 h
  cases hroot.symm.trans hg'
  split at h
  · rename_i r' hr
    cases h
    split at hr
    · rcases hreload with hnone | hreload
      · rw [hnone] at hr
        cases hr
      · refine ⟨hs.storage, .refl _ (readBreakpoints_ready (fun data hdata => ?_) hr hs.files)⟩
        rw [NodeRunData.reload_eq hreload]
        exact hdata
    · cases hr
  · obtain ⟨idx, hidx, h⟩ := except_bind_eq_ok.1 h
    exact (walkNode_sound hw _ depth).scope (.root ho) hs.storage hs.root hidx h

/-- What one turn keeps. -/
theorem SystemSound.turn (hw : AllWalkable W g₀ env₀)
    (ho : GraphDenotes W g₀ env₀ outs₀) (hbody : env₀.get? "body" = some bs)
    (hg : W.graphOf bs = some g₀) {s s' : System V} {e : Event} (hs : SystemSound W g₀ env₀ s)
    (hreload : Reloads W s) (h : Turn W s e s') (hwhole : e.whole = true) :
    SystemSound W g₀ env₀ s' := by
  have hround : ∀ {depth enable r storage}, round W s depth enable = .ok (r, storage) →
      Sound W g₀ env₀ storage ∧ Walked (Startable W g₀ env₀) s.storage r storage :=
    fun h => hs.sound_round hw ho hbody hg hreload h
  obtain ⟨hstorage, hstart, hpending, hfiles, hcalls⟩ := hs
  have hsame : ∀ {storage : Storage V}, storage.nodeDefs = s.storage.nodeDefs → ∀ l,
      s.storage.isNodeStarted l = true → storage.isNodeStarted l = true := by
    intro storage hdefs l hl
    rw [Storage.isNodeStarted, hdefs]
    exact hl
  -- What is in breakpoint files can still be started when more is started and finished.
  have hstill : ∀ {storage : Storage V}, (∀ l, s.storage.isNodeStarted l = true →
      storage.isNodeStarted l = true) → s.storage.finished ⊆ storage.finished →
        ∀ e ∈ s.breakpoints.toList, ∀ data ∈ e.2.inputsReady, Startable W g₀ env₀ storage data :=
    fun hkept hfin e he data hdata => (hfiles e he data hdata).mono hkept hfin
  have hread : ∀ {storage : Storage V} {enable : Bool}, (∀ l, s.storage.isNodeStarted l = true →
      storage.isNodeStarted l = true) → s.storage.finished ⊆ storage.finished →
        ∀ e ∈ (if enable then ∅ else s.breakpoints : HashMap Loc (WalkResult V)).toList,
          ∀ data ∈ e.2.inputsReady, Startable W g₀ env₀ storage data := by
    intro storage enable hkept hfin
    cases enable with
    | true => exact fun e he => absurd he List.not_mem_nil
    | false => exact hstill hkept hfin
  have hrefl : ∀ l, s.storage.isNodeStarted l = true → s.storage.isNodeStarted l = true :=
    fun _ h => h
  cases h with
  | walk hp h he hb =>
    obtain ⟨hsound, hdefs, hfin, hready⟩ := hround h
    refine ⟨hsound, hsame hdefs _ hstart, fun data hdata => ?_, hread (hsame hdefs) hfin,
      fun call hc => (hcalls call hc).mono (hsame hdefs) hfin⟩
    exact hready data (mem_of_mem_distinctLocs hdata).1
  | errored hp h he =>
    obtain ⟨hsound, hdefs, hfin, -⟩ := hround h
    exact ⟨hsound, hsame hdefs _ hstart,
      fun data hdata => (hpending data hdata).mono (hsame hdefs) hfin, hread (hsame hdefs) hfin,
      fun call hc => (hcalls call hc).mono (hsame hdefs) hfin⟩
  | breakpoint hp h he hb hl =>
    obtain ⟨hsound, hdefs, hfin, hready⟩ := hround h
    refine ⟨hsound, hsame hdefs _ hstart,
      fun data hdata => (hpending data hdata).mono (hsame hdefs) hfin, fun e he data hdata => ?_,
      fun call hc => (hcalls call hc).mono (hsame hdefs) hfin⟩
    rcases mem_writeBreakpoint he with he | he
    · exact absurd he List.not_mem_nil
    · rw [he] at hdata
      exact hready data hdata
  | start hp hst =>
    rw [hp] at hpending
    obtain ⟨hleaves, -⟩ := start_leaves hst
    obtain ⟨hsound, hnew⟩ := start_sound hw hstorage (hpending _ (.head _)) hst
    refine ⟨hsound, hleaves.kept _ hstart, fun data hdata => ?_,
      hstill hleaves.kept hleaves.finished, fun call hc => ?_⟩
    · exact (hpending data (.tail _ hdata)).mono hleaves.kept hleaves.finished
    · rcases List.mem_append.1 hc with hc | hc
      · exact (hcalls call hc).mono hleaves.kept hleaves.finished
      · exact hnew call hc
  | cut hp => cases hwhole
  | stop =>
    exact ⟨hstorage, hstart, fun _ hdata => absurd hdata List.not_mem_nil, hfiles, hcalls⟩
  | @drop loc hp =>
    refine ⟨hstorage, hstart, hpending, fun e he => hfiles e ?_, hcalls⟩
    have hget := HashMap.get?_eq_some_iff.2 (show (e.1, e.2) ∈ _ from he)
    rw [HashMap.get?_erase] at hget
    split at hget
    · cases hget
    · exact HashMap.get?_eq_some_iff.1 hget
  | write hc hf hanswer hb =>
    have hmeans := (hcalls _ hc).answer hw hstorage hanswer
    exact ⟨hmeans.write hstorage hf hb, hstart,
      fun data hdata => (hpending data hdata).mono hrefl (Finset.Subset.refl _),
      hstill hrefl (Finset.Subset.refl _),
      fun call hc => (hcalls call hc).mono hrefl (Finset.Subset.refl _)⟩
  | finish hc hanswer hall =>
    have hmeans := (hcalls _ hc).answer hw hstorage hanswer
    exact ⟨hmeans.finish hstorage hall, hstart,
      fun data hdata => (hpending data hdata).mono hrefl (Finset.subset_insert _ _),
      hstill hrefl (Finset.subset_insert _ _),
      fun call hc => (hcalls call hc).mono hrefl (Finset.subset_insert _ _)⟩
  | fail => exact ⟨hstorage, hstart, hpending, hfiles, hcalls⟩

theorem SystemSound.run (hw : AllWalkable W g₀ env₀)
    (ho : GraphDenotes W g₀ env₀ outs₀) (hbody : env₀.get? "body" = some bs)
    (hg : W.graphOf bs = some g₀) {s s' : System V} {l : List Event}
    (h : Steps (fun s e s' => Turn W s e s' ∧ e.whole = true ∧ Reloads W s) s l s')
    (hs : SystemSound W g₀ env₀ s) : SystemSound W g₀ env₀ s' := by
  induction h with
  | nil => exact hs
  | cons ht _ ih => exact ih (hs.turn hw ho hbody hg ht.2.2 ht.1 ht.2.1)

/-- A finished root has the outputs that its graph denotes, and no others. -/
theorem SystemSound.outputs (ho : GraphDenotes W g₀ env₀ outs₀) {s : System V}
    (hs : SystemSound W g₀ env₀ s) (hfin : s.storage.isNodeFinished Loc.root = true) (port : PortID) :
    s.storage.outputs.get? (Loc.root, port) = outs₀.get? port := by
  have hroot : Scope W g₀ env₀ Loc.root ⟨g₀, env₀, outs₀⟩ := .root ho
  have hcomplete := hs.storage.finished _ _ (.scope hroot) (of_decide_eq_true hfin)
  rw [← Storage.get?_valuesAt]
  exact hs.storage.values (.scope hroot) hcomplete port

/-! ## The first state -/

theorem Sound.empty : Sound W g₀ env₀ ({} : Storage V) where
  recorded _ _ _ h := by cases h
  placed _ h := by cases h
  entered _ _ _ h := by cases h
  loops _ _ _ _ _ h := by cases h
  maps _ _ _ h := by cases h
  finished _ _ _ h := absurd h (Finset.notMem_empty _)
  functions _ _ _ _ h := absurd h (Finset.notMem_empty _)
  outputs _ _ _ h := absurd h (Finset.notMem_empty _)

/-- Values that are written one after the other, each in the place of the one before it. -/
theorem Storage.writeOutputs_spec (loc : Loc) (l : List (PortID × Bytes)) : ∀ s : Storage V,
    let s' := l.foldl (fun s e => s.writeOutput loc e.1 e.2) s
    s'.nodeDefs = s.nodeDefs ∧ s'.finished = s.finished ∧
      (∀ k : Loc × PortID, k.1 ≠ loc → s'.outputs.get? k = s.outputs.get? k) ∧
      ∀ p, s'.outputs.get? (loc, p) = ((HashMap.ofList l).get? p).or (s.outputs.get? (loc, p)) := by
  induction l with
  | nil => exact fun s => ⟨rfl, rfl, fun _ _ => rfl, fun _ => rfl⟩
  | cons e l ih =>
    intro s s'
    obtain ⟨hdefs, hfin, hother, hin⟩ := ih (s.writeOutput loc e.1 e.2)
    refine ⟨hdefs, hfin, fun k hk => (hother k hk).trans ?_, fun p => (hin p).trans ?_⟩
    · exact HashMap.get?_insert_ne _ _ fun heq => hk (congrArg Prod.fst heq)
    · rw [HashMap.get?_ofList_cons, Option.or_assoc]
      refine congrArg _ ?_
      show (s.outputs.insert (loc, e.1) e.2).get? (loc, p) = _
      rw [HashMap.get?_insert]
      by_cases hp : p = e.1
      · rw [if_pos hp, if_pos (by rw [hp]), Option.some_or]
      · rw [if_neg hp, if_neg fun heq => hp (congrArg Prod.snd heq), Option.none_or]

/-- A run begins with its inputs, and its graph as an eval node. -/
theorem runGraph_sound {inputs : PortValues} (hbs : W.toBytes (W.ofGraph g₀) = some bs)
    (ho : GraphDenotes W g₀ (inputs.insert "body" bs) outs₀) {calls : List Call} {storage : Storage V}
    (h : runGraph W g₀ inputs {} = .ok (calls, storage)) :
    SystemSound W g₀ (inputs.insert "body" bs) { storage, calls } := by
  unfold runGraph at h
  rw [modify_bind] at h
  obtain ⟨bs', hbs', h⟩ := lift_bind_eq_ok.1 h
  cases hbs.symm.trans (encode_eq_ok.1 hbs')
  rw [modify_bind] at h
  obtain ⟨parent, hparent, _, _, -, -, rfl, rfl⟩ := startWith_ok.1 h
  cases hparent
  obtain ⟨hdefs, hfin, hother, hin⟩ :=
    Storage.writeOutputs_spec (Loc.empty.N (-1)) inputs.toList ({} : Storage V)
  dsimp only at hdefs hfin hother hin
  generalize inputs.toList.foldl _ _ = s₁ at hdefs hfin hother hin
  -- what is given
  let s₂ := s₁.writeOutput (Loc.empty.N (-1)) "body" bs
  have hgiven : ∀ p, s₂.outputs.get? (Loc.empty.N (-1), p) = (inputs.insert "body" bs).get? p := by
    intro p
    show (s₁.outputs.insert (Loc.empty.N (-1), "body") bs).get? (Loc.empty.N (-1), p) = _
    rw [HashMap.get?_insert, HashMap.get?_insert]
    by_cases hp : p = "body"
    · rw [if_pos hp, if_pos (by rw [hp])]
    · rw [if_neg hp, if_neg fun heq => hp (congrArg Prod.snd heq), hin, get?_ofList_toList]
      exact Option.or_none
  have hs₂ : Sound W g₀ (inputs.insert "body" bs) s₂ := by
    refine Sound.empty.put (m := inputs.insert "body" bs) hdefs hfin (fun k hk => ?_) (fun p => ?_)
      .given
      (fun _ _ h => h) fun _ _ hfun => absurd hfun not_functionAt_input
    · refine Eq.trans ?_ (hother k hk)
      exact HashMap.get?_insert_ne _ _ fun heq => hk (congrArg Prod.fst heq)
    · rw [hgiven]
      exact Option.or_none.symm
  -- what the root gets
  have hroot : Scope W g₀ (inputs.insert "body" bs) Loc.root ⟨g₀, inputs.insert "body" bs, outs₀⟩ :=
    .root ho
  refine ⟨hs₂.enterScope hroot (d := ((inputLocs Loc.empty ((inputs.filterMap fun k _ =>
    some (-1, k)).erase "body")).insert "body" (Loc.empty.N (-1), "body"))) ?_ (fun p src hp heq => ?_)
      (fun p => ?_) ((StartedAt.writeNodeDef s₂ _ _).pipeInputs _ _), ?_,
      fun _ hdata => absurd hdata List.not_mem_nil, fun _ he => absurd he List.not_mem_nil,
      fun _ hcall => absurd hcall List.not_mem_nil⟩
  · rintro ⟨parent, idx, heq⟩
    exact Loc.append_ne_root heq.symm
  · obtain ⟨k, hk⟩ := source_of_body (-1, "body") hp
    have hdash : Loc.empty.dash = Loc.root.dash :=
      congrArg Loc.dash (Loc.N_eq_N (hk.symm.trans heq)).1
    cases hdash
  · rw [HashMap.get?_insert]
    by_cases hp : p = "body"
    · rw [if_pos hp, Option.bind_some, hgiven, hp]
    · rw [if_neg hp, get?_inputLocs, HashMap.get?_erase, if_neg hp, HashMap.get?_filterMap]
      have hp' := hgiven p
      rw [HashMap.get?_insert_ne _ _ hp] at hp' ⊢
      cases hv : inputs.get? p with
      | none => rfl
      | some v =>
        rw [hv] at hp'
        exact hp'
  · rw [Storage.isNodeStarted_pipeInputs, Storage.isNodeStarted_writeNodeDef, decide_eq_true rfl,
      Bool.true_or]

/-! ## A run with a breakpoint -/

theorem allWalkable_double (env : PortValues) : AllWalkable doubleWorker doubleGraph env := by
  have houter : Walkable doubleGraph := walkable_of_check (by decide +kernel)
  have hinner : Walkable incGraph := walkable_of_check (by decide +kernel)
  refine allWalkable_of_codec houter fun bs g hg => ?_
  change (if bs = [123] then some doubleGraph else if bs = [91] then some incGraph else none) =
    some g at hg
  split at hg
  · cases hg
    exact houter
  · split at hg
    · cases hg
      exact hinner
    · cases hg

theorem denotes_double :
    GraphDenotes doubleWorker doubleGraph (doubleInputs.insert "body" [123]) doubleOutputs :=
  ⟨2, gives_double⟩

/-- The run of the whole starts: up to the breakpoint, and from it on. -/
def wholeEvents : List Event :=
  [.walk 9 true, .start, .start, .start, .walk 9 true, .start, .walk 9 true] ++ fromBreakpoint

/-! ## Runs -/

section

variable {g : GraphData V} {inputs outs : PortValues} {calls : List Call} {storage : Storage V}
  {l : List Event} {s : System V}

theorem runGraph_steps (hw : AllWalkable W g (inputs.insert "body" bs))
    (hreload : ∀ v, W.reload v = v) (hbs : W.toBytes (W.ofGraph g) = some bs)
    (hg : W.graphOf bs = some g) (ho : GraphDenotes W g (inputs.insert "body" bs) outs)
    (hrun : runGraph W g inputs {} = .ok (calls, storage))
    (h : Steps (fun s e s' => Turn W s e s' ∧ e.whole = true) { storage, calls } l s) :
    SystemSound W g (inputs.insert "body" bs) s :=
  (runGraph_sound hbs ho hrun).run hw ho (HashMap.get?_insert_self _ _ _) hg
    (h.mono fun h => ⟨h.1, h.2, .inr hreload⟩)

/-- However a run goes in which no start breaks off, once its root is finished it has the outputs that
the graph denotes for the inputs, and no others. -/
theorem run_outputs (hw : AllWalkable W g (inputs.insert "body" bs))
    (hreload : ∀ v, W.reload v = v) (hbs : W.toBytes (W.ofGraph g) = some bs)
    (hg : W.graphOf bs = some g) (ho : GraphDenotes W g (inputs.insert "body" bs) outs)
    (hrun : runGraph W g inputs {} = .ok (calls, storage))
    (h : Steps (fun s e s' => Turn W s e s' ∧ e.whole = true) { storage, calls } l s)
    (hfin : s.storage.isNodeFinished Loc.root = true) (port : PortID) :
    s.storage.outputs.get? (Loc.root, port) = outs.get? port := by
  exact (runGraph_steps hw hreload hbs hg ho hrun h).outputs ho hfin port

theorem run_outputs_double : ∃ s, Steps (fun s e s' => Turn doubleWorker s e s' ∧
      e.whole = true) { storage := doubleStorage } wholeEvents s ∧
    s.storage.isNodeFinished Loc.root = true ∧
    ∀ port, s.storage.outputs.get? (Loc.root, port) = doubleOutputs.get? port := by
  have hrun : (run? doubleWorker (fun _ e => e.whole) { storage := doubleStorage } wholeEvents).map
      (fun s => s.storage.isNodeFinished Loc.root) = some true := by
    decide +kernel
  obtain ⟨s, hs, hfin⟩ := Option.map_eq_some_iff.1 hrun
  have hsteps := steps_of_run? hs
  exact ⟨s, hsteps, hfin, run_outputs (allWalkable_double _) (fun _ => rfl) rfl rfl denotes_double
    runGraph_double hsteps hfin⟩

/-- However such a run goes, what is handed to executors are functions that the output of their graph
needs, of a lazy conditional those of the branch that is selected, under their launcher and name;
and what each finds at the places of its inputs are the arguments that the graph means it to have,
for which it gives what the graph means at its node. -/
theorem run_calls (hw : AllWalkable W g (inputs.insert "body" bs))
    (hreload : ∀ v, W.reload v = v) (hbs : W.toBytes (W.ofGraph g) = some bs)
    (hg : W.graphOf bs = some g) (ho : GraphDenotes W g (inputs.insert "body" bs) outs)
    (hrun : runGraph W g inputs {} = .ok (calls, storage))
    (h : Steps (fun s e s' => Turn W s e s' ∧ e.whole = true) { storage, calls } l s)
    (call : Call) (hcall : call ∈ s.calls) :
    ∃ given, CallMeans W g (inputs.insert "body" bs) call (s.storage.arguments call) given :=
  have hs := runGraph_steps hw hreload hbs hg ho hrun h
  (hs.calls call hcall).means hw hs.storage

theorem run_calls_double : ∃ s, Steps (fun s e s' => Turn doubleWorker s e s' ∧
      e.whole = true) { storage := doubleStorage } wholeEvents s ∧
    s.calls.map Call.loc = [Loc.root.N 2, (Loc.root.N 6).N 1] ∧
    ∀ call ∈ s.calls, ∃ given, CallMeans doubleWorker doubleGraph
      (doubleInputs.insert "body" [123]) call (s.storage.arguments call) given := by
  have hrun : (run? doubleWorker (fun _ e => e.whole) { storage := doubleStorage } wholeEvents).map
      (fun s => s.calls.map Call.loc) = some [Loc.root.N 2, (Loc.root.N 6).N 1] := by
    decide +kernel
  obtain ⟨s, hs, hcalls⟩ := Option.map_eq_some_iff.1 hrun
  have hsteps := steps_of_run? hs
  exact ⟨s, hsteps, hcalls, run_calls (allWalkable_double _) (fun _ => rfl) rfl rfl denotes_double
    runGraph_double hsteps⟩

end

end

end Tierkreis.Controller
