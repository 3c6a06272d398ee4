import Tierkreis.Restart.CopyEquivalence
import Tierkreis.Restart.Restarted
import Tierkreis.Runtime.RestartTask
import Tierkreis.Runtime.Stores
import Tierkreis.Runtime.Turns

/-!
# Map bits after a restart

A copy turns the bits of the elements that a restart reaches into, whatever they
were. SQLite keeps the bits of a map only when the restart reaches into one of
its elements.
-/

namespace Tierkreis

open Lib Lib.Run Sql

/-- The output node of an element. `outputIdx` has the output node of the element graph of
each map. -/
def elementOutput (outputIdx : Location → NodeIndex) (loc : Location) (i : Nat) : Location :=
  (loc.withMapIndex i).withNode (outputIdx loc)

/-- The bits of a map with `n` elements tell the elements with outputs, and without outputs
of its own the map has its bits. -/
def TruthfulBits (n : Nat) (element : Nat → Prop) (outputs : Prop) (bits : Option (List Bool)) :
    Prop :=
  (∀ i < n, (bits.bind fun bits => bits[i]?) = some true ↔ element i) ∧ (¬ outputs → bits ≠ none)

def RunAttemptState.HasOutputs (run : RunAttemptState) (loc : Location) : Prop :=
  (run.read loc).outputs ≠ none

/-- The maps of a source `a` in the attempt that was copied from it. -/
def RunAttemptState.TruthfulMaps (outputIdx : Location → NodeIndex) (a t : RunAttemptState) :
    Prop :=
  ∀ loc s m s', a.nodes.get? loc = some s → s.mapCompleted = some m →
    t.nodes.get? loc = some s' →
    TruthfulBits m.length (fun i => t.HasOutputs (elementOutput outputIdx loc i))
      (s'.outputs ≠ none) s'.mapCompleted

namespace Sql

def HasOutputs (db : Db) (run : Uuid) (attempt : Int) (loc : Location) : Prop :=
  ∃ row, db.nodeStates.get? (run, attempt, loc) = some row ∧ row.completeTime.isSome = true

def TruthfulMaps (outputIdx : Location → NodeIndex) (a : RunAttemptState) (db : Db) (run : Uuid)
    (attempt : Int) : Prop :=
  ∀ loc s m row, a.nodes.get? loc = some s → s.mapCompleted = some m →
    db.nodeStates.get? (run, attempt, loc) = some row →
    ∃ bits, readMapCompleted row = .ok bits ∧
      TruthfulBits m.length (fun i => HasOutputs db run attempt (elementOutput outputIdx loc i))
        (row.completeTime.isSome = true) bits

end Sql

/-! ## When the bits stay truthful -/

section InStep

variable (outputIdx : Location → NodeIndex) (a : RunAttemptState) (f : NodeCopyFilter)
  (locs : List Location)

/-- A restarted location is the element or lies in it. -/
def Reaches (loc : Location) (i : Nat) : Prop := ∃ l ∈ locs, loc.withMapIndex i <+: l

/-- The node is cleared, or brought back to where it has not run. -/
def NodeCopyFilter.Drops (loc : Location) : Prop := f.clears loc = true ∨ loc ∈ f.truncateExact

/-- Elements out of reach have their bit when their output node has outputs. Elements within
reach have it when their output node is dropped or has none. -/
def InStep (loc : Location) (m : List Bool) : Prop :=
  ∀ i < m.length,
    (¬ Reaches locs loc i →
      (m[i]? = some true ↔ a.HasOutputs (elementOutput outputIdx loc i))) ∧
    (Reaches locs loc i →
      (m[i]? = some true ↔ f.Drops (elementOutput outputIdx loc i) ∨
        ¬ a.HasOutputs (elementOutput outputIdx loc i)))

/-- A map that the restart does not reach into has outputs of its own, and its elements have
none. -/
def Passed (loc : Location) (s : NodeState) (m : List Bool) : Prop :=
  (s.outputs ≠ none ∧ loc ∉ f.truncateExact) ∧
    ∀ i < m.length, ¬ a.HasOutputs (elementOutput outputIdx loc i)

variable {outputIdx a f locs}

/-- A restart drops output nodes of kept maps only in the elements that it reaches into. -/
theorem not_drops_elementOutput (h : f.RestartsAt fun l => l ∈ locs) {loc : Location} {i : Nat}
    (hcl : f.clears loc = false) (hr : ¬ Reaches locs loc i) :
    ¬ f.Drops (elementOutput outputIdx loc i) := by
  have hkept : ∀ x ∈ f.clearRoots, ¬ x <+: loc := fun x hx hp => by
    rw [NodeCopyFilter.clears_iff.2 ⟨x, hx, hp⟩] at hcl
    cases hcl
  have helem : loc.withMapIndex i <+: elementOutput outputIdx loc i := List.prefix_append _ _
  rintro (hd | hd)
  · obtain ⟨x, hx, hp⟩ := NodeCopyFilter.clears_iff.1 hd
    -- `x` lies in the element, so what it is cleared for does too
    have hin : loc.withMapIndex i <+: x := by
      rcases Location.prefix_withNode_iff.1 hp with rfl | hp
      · exact helem
      · rcases Location.prefix_withMapIndex_iff.1 hp with rfl | hp
        · exact List.prefix_refl _
        · exact absurd hp (hkept x hx)
    obtain ⟨l, hl, rfl | ⟨w, n, d, rfl, hw⟩⟩ := h.clears x hx
    · exact hr ⟨_, hl, hin⟩
    · rcases Location.prefix_withNode_iff.1 hin with he | hin
      · exact Location.withNode_ne_withMapIndex _ _ _ _ he.symm
      · exact hr ⟨l, hl, hin.trans ((List.prefix_append _ _).trans hw)⟩
  · obtain ⟨l, hl, hp, -⟩ := h.truncates _ hd
    exact hr ⟨l, hl, helem.trans hp⟩

/-- A bit is turned over exactly when the restart reaches into its element. -/
theorem getElem?_copiedBits {loc : Location} {m : List Bool} {i : Nat} (hi : i < m.length) :
    ((copiedBits f loc (some m)).bind fun bits => bits[i]?) = some true ↔
      ¬ (m[i]? = some true ↔ f.ResetsElem loc i) := by
  unfold copiedBits NodeCopyFilter.ResetsElem
  cases hg : f.resetMapElems.get? loc with
  | none => simp
  | some bits =>
    dsimp only
    rw [Option.map_some, Option.bind_some, getElem?_bitxorAssign, Option.getD_some,
      List.getElem?_eq_getElem hi]
    cases m[i] <;> rcases bits[i]? with _ | _ | _ <;> simp

theorem copiedBits_ne_none (loc : Location) (m : List Bool) : copiedBits f loc (some m) ≠ none := by
  unfold copiedBits
  cases f.resetMapElems.get? loc <;> exact Option.some_ne_none _

theorem inStep_iff (h : f.RestartsAt fun l => l ∈ locs) {loc : Location} (hcl : f.clears loc = false)
    {m : List Bool} :
    (∀ i < m.length, ((copiedBits f loc (some m)).bind fun bits => bits[i]?) = some true ↔
        ¬ f.Drops (elementOutput outputIdx loc i) ∧
          a.HasOutputs (elementOutput outputIdx loc i)) ↔
      InStep outputIdx a f locs loc m := by
  refine forall₂_congr fun i hi => ?_
  rw [getElem?_copiedBits hi, h.resetsElem]
  change (¬ (_ ↔ Reaches locs loc i) ↔ _) ↔ _
  by_cases hr : Reaches locs loc i
  · simp only [hr, iff_true, not_true_eq_false, false_imp_iff, true_imp_iff, true_and]
    tauto
  · have hd : ¬ f.Drops (elementOutput outputIdx loc i) := not_drops_elementOutput h hcl hr
    simp only [hr, hd, iff_false, not_not, not_false_eq_true, true_imp_iff, false_imp_iff,
      true_and, and_true]

/-! ## In memory -/

theorem hasOutputs_copiedRun {t : RunAttemptState} (ht : ∀ loc, t.nodes.get? loc = none)
    (loc : Location) : (copiedRun t a f).HasOutputs loc ↔ ¬ f.Drops loc ∧ a.HasOutputs loc := by
  unfold RunAttemptState.HasOutputs RunAttemptState.read NodeCopyFilter.Drops
  rw [nodes_copiedRun ht]
  by_cases hcl : f.clears loc = true
  · simp [hcl]
  · cases hs : a.nodes.get? loc with
    | none => simp [hcl]
    | some s =>
      by_cases htr : loc ∈ f.truncateExact <;> simp [hcl, htr, NodeCopyFilter.outputs_copyState]

/-- In memory a map without outputs always has its bits, and they are truthful when the source
is in step. -/
theorem truthfulMaps_copiedRun_iff (h : f.RestartsAt fun l => l ∈ locs) {t : RunAttemptState}
    (ht : ∀ loc, t.nodes.get? loc = none) :
    RunAttemptState.TruthfulMaps outputIdx a (copiedRun t a f) ↔
      ∀ loc s m, a.nodes.get? loc = some s → s.mapCompleted = some m → f.clears loc = false →
        InStep outputIdx a f locs loc m := by
  have hbits : ∀ loc s m, s.mapCompleted = some m →
      (f.copyState loc s).mapCompleted = copiedBits f loc (some m) := fun loc s m hm => by
    rw [copyState_eq, hm]
  constructor
  · intro hall loc s m hs hm hcl
    obtain ⟨hb, -⟩ := hall loc s m (f.copyState loc s) hs hm (by
      rw [nodes_copiedRun ht, hcl, hs]
      rfl)
    rw [hbits loc s m hm] at hb
    exact (inStep_iff h hcl).1 fun i hi => (hb i hi).trans (hasOutputs_copiedRun ht _)
  · intro hall loc s m s' hs hm hs'
    rw [nodes_copiedRun ht, hs] at hs'
    split_ifs at hs' with hcl
    cases hs'
    have hcl : f.clears loc = false := by simpa using hcl
    have hstep := (inStep_iff h hcl).2 (hall loc s m hs hm hcl)
    rw [hbits loc s m hm]
    exact ⟨fun i hi => (hstep i hi).trans (hasOutputs_copiedRun ht _).symm,
      fun _ => copiedBits_ne_none loc m⟩

/-! ## In SQLite -/

section Rows

variable {K : Crates} {db : Db} {target : RunAttempt} {source : Nat}
  (hm : AttemptMatches K db target.1 source a) (hf : Fresh db target.1 target.2)

include hm in
theorem hasOutputs_source (loc : Location) :
    HasOutputs db target.1 source loc ↔ a.HasOutputs loc := by
  have hk := hm.known loc
  unfold HasOutputs RunAttemptState.HasOutputs RunAttemptState.read
  cases hs : a.nodes.get? loc with
  | none =>
    rw [hs, Option.isSome_none, Option.isSome_eq_false_iff, Option.isNone_iff_eq_none] at hk
    simp [hk]
  | some s =>
    rw [hs, Option.isSome_some, Option.isSome_iff_exists] at hk
    obtain ⟨row, hrow⟩ := hk
    have ho := (hm.row loc s row hs hrow).outputs
    rw [← (hm.row loc s row hs hrow).completeTime] at ho
    unfold OutputsAgree at ho
    split_ifs at ho with hc
    · obtain ⟨o, ho, -⟩ := ho
      simp [hrow, hc, ho]
    · simp [hrow, hc, ho.1]

include hm hf in
theorem hasOutputs_copied (loc : Location) :
    HasOutputs (SqliteRuntimeState.copied K f db target source) target.1 target.2 loc ↔
      ¬ f.Drops loc ∧ a.HasOutputs loc := by
  rw [← hasOutputs_source hm]
  unfold HasOutputs SqliteRuntimeState.copied NodeCopyFilter.Drops
  rw [foldl_withCopy]
  simp only [get?_copied_nodes K db target.1 source f hf loc]
  by_cases hcl : f.clears loc = true
  · simp [hcl]
  · by_cases htr : loc ∈ f.truncateExact <;> simp [hcl, htr, completeTime_copiedRow]

/-- The bits of a copied row. -/
theorem readMapCompleted_copiedRow {loc : Location} {row : NodeRow} {m : List Bool}
    (h : MapAgrees (some m) row.mapSize row.mapCompleted) :
    readMapCompleted (copiedRow K f loc row) =
      .ok (if (f.resetMapElems.get? loc).isSome = true then copiedBits f loc (some m) else none) := by
  have hsize : (copiedRow K f loc row).mapSize = row.mapSize := by
    unfold copiedRow
    dsimp only
    split_ifs <;> rfl
  have hbytes : (copiedRow K f loc row).mapCompleted = (f.resetMapElems.get? loc).bind fun bits =>
      row.mapCompleted.map fun existing => K.intoVec (bitxorAssign (fromSlice existing) bits) := by
    unfold copiedRow
    dsimp only
    split_ifs <;> rfl
  split_ifs with hr
  · refine MapAgrees.read ?_
    rw [hsize, hbytes]
    exact h.copied fun _ => Option.isSome_iff_ne_none.1 hr
  · rw [Bool.not_eq_true, Option.isSome_eq_false_iff, Option.isNone_iff_eq_none] at hr
    rw [readMapCompleted, hbytes, hr]
    rfl

include hm hf in
theorem truthfulMaps_copied_iff (h : f.RestartsAt fun l => l ∈ locs) :
    Sql.TruthfulMaps outputIdx a (SqliteRuntimeState.copied K f db target source) target.1 target.2 ↔
      ∀ loc s m, a.nodes.get? loc = some s → s.mapCompleted = some m → f.clears loc = false →
        (∃ i, Reaches locs loc i) ∧ InStep outputIdx a f locs loc m ∨
          (¬ ∃ i, Reaches locs loc i) ∧ Passed outputIdx a f loc s m := by
  have hnodes := fun loc => get?_copied_nodes K db target.1 source f hf loc
  have hreach : ∀ loc, (f.resetMapElems.get? loc).isSome = true ↔ ∃ i, Reaches locs loc i := by
    intro loc
    rw [h.resets, exists_comm]
    simp only [Reaches]
  -- what is left to see of one map
  have hmap : ∀ loc s m row, a.nodes.get? loc = some s → s.mapCompleted = some m →
      f.clears loc = false → db.nodeStates.get? (target.1, (source : Int), loc) = some row →
      ((∃ bits, readMapCompleted (copiedRow K f loc row) = .ok bits ∧
          TruthfulBits m.length (fun i => HasOutputs (SqliteRuntimeState.copied K f db target source)
            target.1 target.2 (elementOutput outputIdx loc i))
            ((copiedRow K f loc row).completeTime.isSome = true) bits) ↔
        (∃ i, Reaches locs loc i) ∧ InStep outputIdx a f locs loc m ∨
          (¬ ∃ i, Reaches locs loc i) ∧ Passed outputIdx a f loc s m) := by
    intro loc s m row hs hmc hcl hrow
    have hagrees := (hm.row loc s row hs hrow).mapCompleted
    rw [hmc] at hagrees
    have houtputs : row.completeTime.isSome = true ↔ s.outputs ≠ none := by
      have := hasOutputs_source hm loc
      simpa [HasOutputs, RunAttemptState.HasOutputs, RunAttemptState.read, hrow, hs] using this
    rw [readMapCompleted_copiedRow hagrees, ← hreach]
    simp only [Except.ok.injEq, exists_eq_left', TruthfulBits, hasOutputs_copied hm hf]
    by_cases hr : (f.resetMapElems.get? loc).isSome = true
    · rw [if_pos hr, inStep_iff h hcl]
      simp only [hr, true_and, not_true_eq_false, false_and, or_false, and_iff_left_iff_imp]
      exact fun _ _ => copiedBits_ne_none loc m
    · have hnot : ∀ i, ¬ f.Drops (elementOutput outputIdx loc i) := fun i =>
        not_drops_elementOutput h hcl fun hi => hr ((hreach loc).2 ⟨i, hi⟩)
      have hown : (copiedRow K f loc row).completeTime.isSome = true ↔
          s.outputs ≠ none ∧ loc ∉ f.truncateExact := by
        rw [completeTime_copiedRow, ← houtputs]
        split_ifs with ht <;> simp [ht]
      rw [if_neg hr, hown]
      simp only [hr, hnot, Option.bind_none, reduceCtorEq, false_iff, not_false_eq_true, true_and,
        false_and, false_or, ne_eq, not_true_eq_false, imp_false, not_not]
      exact and_comm
  constructor
  · intro hall loc s m hs hmc hcl
    obtain ⟨row, hrow⟩ := Option.isSome_iff_exists.1 ((hm.known loc).trans (by rw [hs]; rfl))
    refine (hmap loc s m row hs hmc hcl hrow).1 (hall loc s m _ hs hmc ?_)
    unfold SqliteRuntimeState.copied
    rw [foldl_withCopy, hnodes, hcl, hrow]
    rfl
  · intro hall loc s m row' hs hmc hrow'
    unfold SqliteRuntimeState.copied at hrow'
    rw [foldl_withCopy, hnodes] at hrow'
    split_ifs at hrow' with hcl
    obtain ⟨row, hrow, rfl⟩ := Option.map_eq_some_iff.1 hrow'
    have hcl : f.clears loc = false := by simpa using hcl
    exact (hmap loc s m row hs hmc hcl hrow).2 (hall loc s m hs hmc hcl)

end Rows

end InStep

/-- In memory the map bits of the new attempt are truthful exactly when those of the source are
in step with the restart. In SQLite the maps that the restart does not reach into lose their
bits, which leaves them truthful only when no element has outputs and the map itself does. -/
theorem map_bits_truthful_iff {σ : Type} [WorkflowRunState σ] (C : Codec) (W : Portgraph) (st : σ)
    (r : RunAttempt) (A : Assets) (workflow : WorkflowGraph) (locs : List Location)
    (f : NodeCopyFilter) (hf : mergeFilters C W st r A workflow locs {} = .ok f)
    (outputIdx : Location → NodeIndex) (a : RunAttemptState) :
    (∀ (m m' : InMemoryRuntimeState) (target source : RunAttempt),
      m.runs.get? source = some a → (∀ loc, (m.run target).nodes.get? loc = none) →
      m.copyNodeStatesFrom target source f = .ok m' →
      (RunAttemptState.TruthfulMaps outputIdx a (m'.run target) ↔
        ∀ loc s bits, a.nodes.get? loc = some s → s.mapCompleted = some bits →
          f.clears loc = false → InStep outputIdx a f locs loc bits)) ∧
    ∀ (K : Crates) (s s' : SqliteRuntimeState) (target : RunAttempt) (source : Nat),
      AttemptMatches K s.db target.1 source a → Fresh s.db target.1 target.2 →
      s.copyNodeStatesFrom K SqliteRuntimeState.noFaults target source f = (.ok (), s') →
      (Sql.TruthfulMaps outputIdx a s'.db target.1 target.2 ↔
        ∀ loc s bits, a.nodes.get? loc = some s → s.mapCompleted = some bits →
          f.clears loc = false →
            (∃ i, Reaches locs loc i) ∧ InStep outputIdx a f locs loc bits ∨
              (¬ ∃ i, Reaches locs loc i) ∧ Passed outputIdx a f loc s bits) := by
  have hr := restartsAt_restart hf
  constructor
  · intro m m' target source ha ht hm
    obtain ⟨sourceRun, hs, rfl⟩ := InMemoryRuntimeState.copyNodeStatesFrom_eq_ok m |>.1 hm
    rw [ha] at hs
    cases hs
    rw [InMemoryRuntimeState.run, HashMap.get?_insert_self]
    exact truthfulMaps_copiedRun_iff hr ht
  · intro K s s' target source hm hfresh hs
    rw [SqliteRuntimeState.copyNodeStatesFrom_eq_ok K s f hs]
    exact truthfulMaps_copied_iff hm hfresh hr

/-- A task beside the map of `begunMap`. -/
def taskBesideMap : WorkflowGraph where
  nodes := .ofList [
    (0, { definition := .map ["x"] none none, name := none, hasBreakpoint := false
          inputs := [⟨"graph", [⟨3, "graph"⟩]⟩, ⟨"x", [⟨4, "x"⟩]⟩], outputs := ["b"] }),
    (1, { definition := .task "w" "t" none none, name := none, hasBreakpoint := false, inputs := []
          outputs := ["y"] }),
    (2, { definition := .output, name := none, hasBreakpoint := false
          inputs := [⟨"a", [⟨1, "y"⟩]⟩, ⟨"b", [⟨0, "b"⟩]⟩], outputs := [] }),
    (3, { definition := .input "graph", name := none, hasBreakpoint := false, inputs := []
          outputs := ["graph"] }),
    (4, { definition := .input "x", name := none, hasBreakpoint := false, inputs := []
          outputs := ["x"] })]
  outputIdx := 2
  output_mem := rfl
  link_mem := by decide

/-- The filter of a restart of that task. -/
def taskBesideMapFilter : NodeCopyFilter :=
  ({} : NodeCopyFilter).merge
    (visitNode .byClosure [.node 1] taskBesideMap Location.root 1 { clearRoots := {[.node 1]} })

theorem mergeFilters_taskBesideMap :
    mergeFilters (.ofTable []) .byClosure begunMapInMemory (0, 0) .plain taskBesideMap [[.node 1]]
      {} = .ok taskBesideMapFilter := rfl

/-- The restart of the task leaves the map its bits in memory only. -/
theorem map_bits_truthful_iff_begunMap :
    (∀ m', begunMapInMemory.copyNodeStatesFrom (0, 1) (0, 0) taskBesideMapFilter = .ok m' →
      RunAttemptState.TruthfulMaps (fun _ => 0) begunMap (m'.run (0, 1))) ∧
    ∀ s', begunMapSqlite.copyNodeStatesFrom .zeroFill SqliteRuntimeState.noFaults (0, 1) 0
        taskBesideMapFilter = (.ok (), s') →
      ¬ Sql.TruthfulMaps (fun _ => 0) begunMap s'.db 0 1 := by
  have h := map_bits_truthful_iff (.ofTable []) .byClosure begunMapInMemory (0, 0) .plain
    taskBesideMap [[.node 1]] taskBesideMapFilter mergeFilters_taskBesideMap (fun _ => 0) begunMap
  have hset := begunMap_setting
  have hnode : begunMap.nodes.get? [.node 0] = some
      { runningTime := some 1, mapCompleted := some [false] } := HashMap.get?_insert_self _ _ _
  have hreach : ∀ i, ¬ Reaches [[.node 1]] [.node 0] i := by
    rintro i ⟨l, hl, hp⟩
    rw [List.mem_singleton.1 hl] at hp
    have := hp.length_le
    simp at this
  constructor
  · intro m' hm
    refine (h.1 _ m' (0, 1) (0, 0) hset.entry hset.freshNodes hm).2 fun loc s bits hs hb _ => ?_
    have hl : loc = [.node 0] := by
      rw [begunMap, HashMap.get?_insert] at hs
      by_contra hl
      rw [if_neg hl] at hs
      cases hs
    subst hl
    rw [hnode] at hs
    cases hs
    cases hb
    intro i hi
    obtain rfl : i = 0 := Nat.lt_one_iff.1 hi
    exact ⟨fun _ => ⟨fun h => (by cases h), fun h => absurd rfl h⟩, fun hr => absurd hr (hreach 0)⟩
  · intro s' hs ht
    rcases (h.2 _ _ s' (0, 1) 0 hset.sourceMatches hset.fresh hs).1 ht [.node 0] _ _ hnode rfl
      (by decide +kernel) with ⟨⟨i, hi⟩, -⟩ | ⟨-, ⟨ho, -⟩, -⟩
    · exact hreach i hi
    · exact ho rfl

/-! ## A restarted element that is skipped -/

def itemGraph : WorkflowGraph where
  nodes := .ofList [
    (0, { definition := .task "w" "t" none none, name := none, hasBreakpoint := false, inputs := []
          outputs := ["y"] }),
    (1, { definition := .output, name := none, hasBreakpoint := false
          inputs := [⟨"a", [⟨0, "y"⟩]⟩], outputs := [] })]
  outputIdx := 1
  output_mem := rfl
  link_mem := by decide

/-- A map of `itemGraph` over two values. -/
def mapOfTasks : WorkflowGraph where
  nodes := .ofList [
    (0, { definition := .const .null, name := none, hasBreakpoint := false, inputs := []
          outputs := ["value"] }),
    (1, { definition := .const (.arr [.null, .null]), name := none, hasBreakpoint := false
          inputs := [], outputs := ["value"] }),
    (2, { definition := .map ["x"] none none, name := none, hasBreakpoint := false
          inputs := [⟨"graph", [⟨0, "value"⟩]⟩, ⟨"x", [⟨1, "value"⟩]⟩], outputs := ["a"] }),
    (3, { definition := .output, name := none, hasBreakpoint := false
          inputs := [⟨"a", [⟨2, "a"⟩]⟩], outputs := [] })]
  outputIdx := 3
  output_mem := rfl
  link_mem := by decide

/-- A plain runtime that reads the one list of `mapOfTasks`, and `itemGraph` in place of
`null`. -/
def listRuntime : Runtime :=
  let plain := Runtime.plain [([110, 117, 108, 108], itemGraph)]
  { plain with
    orchestrator := { plain.orchestrator with
      codec := { plain.orchestrator.codec with
        fromSlice := fun bytes =>
          if bytes = plain.orchestrator.codec.toVec (.arr [.null, .null]) then
            .ok (.arr [.null, .null])
          else plain.orchestrator.codec.fromSlice bytes } } }

def startedMapOfTasks : System InMemoryRuntimeState where
  store := { InMemoryRuntimeState.startedRun with
    workflows := .ofList [(0, (none, mapOfTasks))] }
  assets := .plain

/-- The task of one element fails, the other element completes, and the run ends. -/
def failedElement : List Turn :=
  [.wake [(0, 0)], .plan, .process 1, .wake [(0, 0)], .plan, .process 1, .wake [(0, 0)], .plan,
    .process 1, .process 1, .report 1 (.error "e" none), .processReport 0 1,
    .report 0 (.complete (.ofList [("y", ⟨.memory, "memory", 2⟩)])), .processReport 0 1,
    .wake [(0, 0)], .plan, .process 1, .wake [(0, 0)], .plan, .process 1, .process 1, .process 1]

/-- The bits of the map in an attempt, and whether its second element has outputs. -/
def mapOf (run : RunAttemptState) : Option (List Bool) × Bool :=
  ((run.nodes.get? [.node 2]).bind NodeState.mapCompleted,
    (run.read (elementOutput (fun _ => itemGraph.outputIdx) [.node 2] 1)).outputs.isSome)

/-- A restart of all that has failed in the first attempt. -/
def restartFailed (s : System InMemoryRuntimeState) :
    Result (Nat × List Location) × InMemoryRuntimeState :=
  restartTask listRuntime.orchestrator.codec listRuntime.orchestrator.portgraph s.assets s.store 2
    (0, 0) []

/-- The failed element is restarted, and has its bit. -/
theorem map_bits_not_truthful :
    ∃ labels s, Steps (Step listRuntime) startedMapOfTasks labels s ∧
      ∃ attempt locs st', restartFailed s = (.ok (attempt, locs), st') ∧
        ¬ RunAttemptState.TruthfulMaps (fun _ => itemGraph.outputIdx) (s.store.run (0, 0))
          (st'.run (0, attempt)) := by
  have hrun : ((System.turns listRuntime 3 failedElement startedMapOfTasks).bind fun x =>
      (restartFailed x.2).1.toOption.map fun y =>
        (mapOf (x.2.store.run (0, 0)), mapOf ((restartFailed x.2).2.run (0, y.1)))) =
      some ((some [true, false], false), (some [true, true], false)) := by decide +kernel
  obtain ⟨⟨labels, s⟩, hs, hrun⟩ := Option.bind_eq_some_iff.1 hrun
  obtain ⟨⟨attempt, locs⟩, hr, hmaps⟩ := Option.map_eq_some_iff.1 hrun
  obtain ⟨hbefore, hafter⟩ := Prod.mk.inj hmaps
  obtain ⟨m, hm, hbits⟩ := Option.bind_eq_some_iff.1 (Prod.mk.inj hbefore).1
  obtain ⟨m', hm', hbits'⟩ := Option.bind_eq_some_iff.1 (Prod.mk.inj hafter).1
  have hsteps := (System.steps_of_turns (fun _ _ _ => rfl) hs).1
  have hok : (restartFailed s).1 = .ok (attempt, locs) := by
    cases hx : (restartFailed s).1 with
    | error g =>
      rw [hx] at hr
      cases hr
    | ok y =>
      rw [hx] at hr
      cases hr
      rfl
  refine ⟨labels, s, hsteps, attempt, locs, (restartFailed s).2, Prod.ext hok rfl, fun h => ?_⟩
  have htruth := (h [.node 2] m _ m' hm hbits hm').1 1 (by decide)
  rw [hbits'] at htruth
  have hno := (Prod.mk.inj hafter).2
  exact htruth.1 rfl (by simpa using hno)

end Tierkreis
