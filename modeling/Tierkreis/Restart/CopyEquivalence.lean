import Tierkreis.Restart.Copy
import Tierkreis.State.Agree

/-!
# Copies in both stores

The filter is applied twice: to the nodes and inputs of the source in memory, and
to the node rows of the source in the database, whose outputs and inputs go along
with the rows.
-/

namespace Tierkreis

open Lib Lib.Txn Lib.Run Sql

/-- A node in memory, and its row and outputs in the database, whatever its history. -/
structure RowMatches (K : Crates) (s : NodeState) (row : NodeRow)
    (rows : HashMap String AssetRow) : Prop where
  name : row.name = s.name
  scheduledTime : row.scheduledTime.isSome = s.scheduledTime.isSome
  queuedTime : row.queuedTime.isSome = s.queuedTime.isSome
  pausedTime : row.pausedTime.isSome = s.pausedTime.isSome
  unpausedTime : row.unpausedTime.isSome = s.unpausedTime.isSome
  runningTime : row.runningTime.isSome = s.runningTime.isSome
  completeTime : row.completeTime.isSome = s.completeTime.isSome
  cancelledTime : row.cancelledTime.isSome = s.cancelledTime.isSome
  errorTime : row.errorTime.isSome = s.errorTime.isSome
  outputs : OutputsAgree K s.completeTime.isSome s.outputs rows
  cond : row.cond = s.cond
  loopIndex : row.loopIndex = s.loopIndex.map Int.ofNat
  mapCompleted : MapAgrees s.mapCompleted row.mapSize row.mapCompleted
  error : row.error = s.error
  errorDetail : row.errorDetail = s.errorDetail
  handle : row.handle = s.handle
  executionContext : row.executionContext = s.executionContext

/-- An attempt in memory and the same attempt in the database. -/
structure AttemptMatches (K : Crates) (db : Db) (run : Uuid) (i : Int) (a : RunAttemptState) :
    Prop where
  known : ∀ loc, (db.nodeStates.get? (run, i, loc)).isSome = (a.nodes.get? loc).isSome
  row : ∀ loc s row, a.nodes.get? loc = some s → db.nodeStates.get? (run, i, loc) = some row →
    RowMatches K s row (Db.rowsAt db.nodeOutputs (run, i, loc))
  inputs : ∀ loc name, (Db.rowsAt db.inputs (run, i, loc)).get? name =
    ((a.inputs.get? loc).bind fun inputs => inputs.get? name).map AssetRow.ofSpec

/-- What keeps the two copies of a source alike. -/
structure CopiesAlike (a : RunAttemptState) (f : NodeCopyFilter) : Prop where
  /-- The loop indices of the filter fit their column. -/
  loopIndex : ∀ loc s, a.nodes.get? loc = some s → f.clears loc = false →
    (f.resetLoopIndex.get? loc).getD 0 < 2 ^ 31
  /-- Every map that is kept has elements reset. -/
  mapCompleted : ∀ loc s, a.nodes.get? loc = some s → f.clears loc = false →
    s.mapCompleted ≠ none → f.resetMapElems.get? loc ≠ none
  /-- No truncated node was paused. -/
  pauses : ∀ loc s, a.nodes.get? loc = some s → f.clears loc = false → loc ∈ f.truncateExact →
    s.pausedTime = none ∧ s.unpausedTime = none
  /-- Inputs below the root are stored at nodes. -/
  inputs : ∀ loc inputs name spec, a.inputs.get? loc = some inputs → inputs.get? name = some spec →
    f.clears loc = false → loc ≠ Location.root → (a.nodes.get? loc).isSome = true
  /-- No node is at the root, where the new attempt has its inputs. -/
  root : f.clears Location.root = false → (a.nodes.get? Location.root).isSome = true →
    ∀ inputs name, a.inputs.get? Location.root = some inputs → inputs.get? name = none

/-! ## One row -/

theorem take_bitxorAssign (n : Nat) (xs ys : List Bool) :
    (bitxorAssign xs ys).take n = bitxorAssign (xs.take n) ys := by
  refine List.ext_getElem? fun i => ?_
  rw [getElem?_bitxorAssign, List.getElem?_take, List.getElem?_take, getElem?_bitxorAssign]
  split_ifs <;> rfl

/-- Resetting elements in the stored bytes is resetting them in the bits. -/
theorem take_resetBytes (K : Crates) {m : List Bool} {b : List Byte}
    (h : (fromSlice b).take m.length = m) (bits : List Bool) :
    (fromSlice (K.intoVec (bitxorAssign (fromSlice b) bits))).take m.length =
      bitxorAssign m bits := by
  have hlen : m.length ≤ (fromSlice b).length := by
    have := congrArg List.length h
    rw [List.length_take] at this
    omega
  have hvec := K.take_fromSlice (bitxorAssign (fromSlice b) bits)
  rw [length_bitxorAssign] at hvec
  calc (fromSlice (K.intoVec (bitxorAssign (fromSlice b) bits))).take m.length
      = ((fromSlice (K.intoVec (bitxorAssign (fromSlice b) bits))).take
          (fromSlice b).length).take m.length := by rw [List.take_take, Nat.min_eq_left hlen]
    _ = bitxorAssign ((fromSlice b).take m.length) bits := by rw [hvec, take_bitxorAssign]
    _ = bitxorAssign m bits := by rw [h]

section Row

variable {K : Crates} {f : NodeCopyFilter} {loc : Location} {s : NodeState} {row : NodeRow}
  {rows : HashMap String AssetRow}

/-- The bits of a copied map, before and after. -/
def copiedBits (f : NodeCopyFilter) (loc : Location) (m : Option (List Bool)) : Option (List Bool) :=
  match f.resetMapElems.get? loc with
  | some bits => m.map (bitxorAssign · bits)
  | none => m

theorem copyState_eq (f : NodeCopyFilter) (loc : Location) (s : NodeState) :
    f.copyState loc s = { (if loc ∈ f.truncateExact then NodeCopyFilter.truncate s else s) with
      loopIndex := (f.resetLoopIndex.get? loc).or s.loopIndex
      mapCompleted := copiedBits f loc s.mapCompleted } := by
  unfold NodeCopyFilter.copyState copiedBits
  by_cases ht : loc ∈ f.truncateExact <;> cases f.resetLoopIndex.get? loc <;>
    cases f.resetMapElems.get? loc <;> simp [ht, NodeCopyFilter.truncate]

theorem MapAgrees.copied {m : Option (List Bool)} {size : Option Int} {bytes : Option (List Byte)}
    (h : MapAgrees m size bytes) (hr : m ≠ none → f.resetMapElems.get? loc ≠ none) :
    MapAgrees (copiedBits f loc m) size
      ((f.resetMapElems.get? loc).bind fun bits => bytes.map fun existing =>
        K.intoVec (bitxorAssign (fromSlice existing) bits)) := by
  unfold copiedBits
  cases m with
  | none =>
    obtain ⟨rfl, rfl⟩ := h
    cases f.resetMapElems.get? loc <;> exact ⟨rfl, rfl⟩
  | some m =>
    obtain ⟨rfl, b, rfl, ht⟩ := h
    obtain ⟨bits, hb⟩ := Option.ne_none_iff_exists'.1 (hr (Option.some_ne_none m))
    rw [hb]
    refine ⟨by rw [length_bitxorAssign], _, rfl, ?_⟩
    rw [length_bitxorAssign]
    exact take_resetBytes K ht bits

theorem loopIndex_copied (h : row.loopIndex = s.loopIndex.map Int.ofNat) :
    ((f.resetLoopIndex.get? loc).map fun index => (index : Int)).or row.loopIndex =
      ((f.resetLoopIndex.get? loc).or s.loopIndex).map Int.ofNat := by
  rw [h]
  cases f.resetLoopIndex.get? loc <;> rfl

/-- Matching nodes are copied to matching nodes, unless map bits or pauses are lost. -/
theorem RowMatches.copy (h : RowMatches K s row rows)
    (hmap : s.mapCompleted ≠ none → f.resetMapElems.get? loc ≠ none)
    (hpauses : loc ∈ f.truncateExact → s.pausedTime = none ∧ s.unpausedTime = none)
    {rows' : HashMap String AssetRow}
    (hrows : ∀ name, rows'.get? name = if loc ∈ f.truncateExact then none else rows.get? name) :
    RowMatches K (f.copyState loc s) (copiedRow K f loc row) rows' := by
  rw [copyState_eq]
  unfold copiedRow
  dsimp only
  by_cases ht : loc ∈ f.truncateExact
  · obtain ⟨hp, hu⟩ := hpauses ht
    simp only [if_pos ht] at hrows ⊢
    exact
      { name := h.name, scheduledTime := rfl, queuedTime := rfl
        pausedTime := by simp [NodeCopyFilter.truncate, hp]
        unpausedTime := by simp [NodeCopyFilter.truncate, hu]
        runningTime := rfl, completeTime := rfl, cancelledTime := rfl, errorTime := rfl
        outputs := ⟨rfl, hrows⟩, cond := h.cond, loopIndex := loopIndex_copied h.loopIndex
        mapCompleted := h.mapCompleted.copied hmap, error := rfl, errorDetail := rfl
        handle := rfl, executionContext := h.executionContext }
  · simp only [if_neg ht] at hrows ⊢
    have houtputs : OutputsAgree K s.completeTime.isSome s.outputs rows' := by
      have ho := h.outputs
      unfold OutputsAgree at ho ⊢
      simpa only [hrows] using ho
    exact
      { name := h.name, scheduledTime := h.scheduledTime, queuedTime := h.queuedTime
        pausedTime := h.pausedTime, unpausedTime := h.unpausedTime, runningTime := h.runningTime
        completeTime := h.completeTime, cancelledTime := h.cancelledTime
        errorTime := h.errorTime, outputs := houtputs, cond := h.cond
        loopIndex := loopIndex_copied h.loopIndex, mapCompleted := h.mapCompleted.copied hmap
        error := h.error, errorDetail := h.errorDetail, handle := h.handle
        executionContext := h.executionContext }

/-- Map bits and pauses that are lost show. -/
theorem RowMatches.of_copy {rows' : HashMap String AssetRow}
    (hc : RowMatches K (f.copyState loc s) (copiedRow K f loc row) rows') :
    (s.mapCompleted ≠ none → f.resetMapElems.get? loc ≠ none) ∧
      (loc ∈ f.truncateExact → s.pausedTime = none ∧ s.unpausedTime = none) := by
  have hm := hc.mapCompleted
  have hp := hc.pausedTime
  have hu := hc.unpausedTime
  rw [copyState_eq] at hm hp hu
  constructor
  · intro hs hnone
    obtain ⟨m, hs⟩ := Option.ne_none_iff_exists'.1 hs
    have hbytes : (copiedRow K f loc row).mapCompleted = none := by
      unfold copiedRow
      dsimp only
      rw [hnone]
      split_ifs <;> rfl
    rw [hbytes, copiedBits, hnone, hs] at hm
    obtain ⟨-, b, hb, -⟩ := hm
    cases hb
  · intro ht
    have hrow : (copiedRow K f loc row).pausedTime = none ∧
        (copiedRow K f loc row).unpausedTime = none := by
      unfold copiedRow
      dsimp only
      rw [if_pos ht]
      exact ⟨rfl, rfl⟩
    rw [hrow.1, if_pos ht] at hp
    rw [hrow.2, if_pos ht] at hu
    exact ⟨Option.isSome_eq_false_iff.1 hp.symm |> Option.isNone_iff_eq_none.1,
      Option.isSome_eq_false_iff.1 hu.symm |> Option.isNone_iff_eq_none.1⟩

end Row

/-! ## All of an attempt -/

/-- Both stores hold the same source, and the same new attempt of its run. -/
structure CopySetting (K : Crates) (st : SqliteRuntimeState) (m : InMemoryRuntimeState)
    (target : RunAttempt) (source : Nat) (a : RunAttemptState) : Prop where
  ne : source ≠ target.2
  small : source < 2 ^ 31 ∧ target.2 < 2 ^ 31
  entry : m.runs.get? (target.1, source) = some a
  sourceMatches : AttemptMatches K st.db target.1 source a
  fresh : Fresh st.db target.1 target.2
  freshNodes : ∀ loc, (m.run target).nodes.get? loc = none
  targetMatches : AttemptMatches K st.db target.1 target.2 (m.run target)
  roots : ∀ name, ((m.run target).inputs.get? Location.root).bind (fun inputs => inputs.get? name) =
    (a.inputs.get? Location.root).bind fun inputs => inputs.get? name

section Setting

variable {K : Crates} {st : SqliteRuntimeState} {m : InMemoryRuntimeState} {target : RunAttempt}
  {source : Nat} {a : RunAttemptState} {f : NodeCopyFilter}

/-- The new attempt in memory after the copy. -/
def copiedRun (t a : RunAttemptState) (f : NodeCopyFilter) : RunAttemptState :=
  { t with
    nodes := t.nodes.extend (InMemoryRuntimeState.copiedNodes a f)
    inputs := t.inputs.extend (InMemoryRuntimeState.copiedInputs a f) }

theorem CopySetting.inMemory (h : CopySetting K st m target source a) :
    ∃ m', m.copyNodeStatesFrom target (target.1, source) f = .ok m' ∧
      m'.run target = copiedRun (m.run target) a f :=
  ⟨_, InMemoryRuntimeState.copyNodeStatesFrom_eq_ok _ |>.2 ⟨a, h.entry, rfl⟩, by
    rw [InMemoryRuntimeState.run, HashMap.get?_insert_self]
    rfl⟩

theorem nodes_copiedRun {t a : RunAttemptState} {f : NodeCopyFilter}
    (ht : ∀ loc, t.nodes.get? loc = none) (loc : Location) :
    (copiedRun t a f).nodes.get? loc =
      if f.clears loc = true then none else (a.nodes.get? loc).map (f.copyState loc) := by
  rw [copiedRun, HashMap.get?_extend, ht, Option.or_none,
    InMemoryRuntimeState.copiedNodes, HashMap.get?_filterMap]
  cases a.nodes.get? loc <;> cases f.clears loc <;> rfl

theorem inputs_copiedRun (t : RunAttemptState) (loc : Location) (name : String) :
    ((copiedRun t a f).inputs.get? loc).bind (fun inputs => inputs.get? name) =
      if f.clears loc = true ∨ a.inputs.get? loc = none then
        (t.inputs.get? loc).bind fun inputs => inputs.get? name
      else (a.inputs.get? loc).bind fun inputs => inputs.get? name := by
  rw [copiedRun, HashMap.get?_extend, InMemoryRuntimeState.copiedInputs, HashMap.get?_filterMap]
  cases a.inputs.get? loc <;> cases f.clears loc <;> simp

/-- A node in memory has its row. -/
theorem CopySetting.exists_row (h : CopySetting K st m target source a) {loc : Location}
    {s : NodeState} (hs : a.nodes.get? loc = some s) :
    ∃ row, st.db.nodeStates.get? (target.1, (source : Int), loc) = some row := by
  refine Option.isSome_iff_exists.1 ?_
  rw [h.sourceMatches.known, hs]
  rfl

theorem CopySetting.exists_state (h : CopySetting K st m target source a) {loc : Location}
    {row : NodeRow} (hr : st.db.nodeStates.get? (target.1, (source : Int), loc) = some row) :
    ∃ s, a.nodes.get? loc = some s := by
  refine Option.isSome_iff_exists.1 ?_
  rw [← h.sourceMatches.known, hr]
  rfl

theorem CopySetting.along_iff (h : CopySetting K st m target source a) :
    Along (withCopy K target.1 source target.2 f) (Copies target.1 source target.2 f) st.db
        (rowsOf st.db target.1 source) ↔
      ∀ loc s, a.nodes.get? loc = some s → f.clears loc = false →
        (f.resetLoopIndex.get? loc).getD 0 < 2 ^ 31 ∧
          (loc = Location.root → ∀ inputs name, a.inputs.get? Location.root = some inputs →
            inputs.get? name = none) := by
  rw [along_copies_iff h.fresh (by exact_mod_cast h.ne)]
  have hsource := h.sourceMatches.inputs Location.root
  have htarget := h.targetMatches.inputs Location.root
  constructor
  · intro hall loc s hs hcl
    obtain ⟨row, hrow⟩ := h.exists_row hs
    obtain ⟨hloop, hinputs⟩ := hall loc row hrow hcl
    refine ⟨hloop, ?_⟩
    rintro rfl inputs name hi
    cases hn : inputs.get? name with
    | none => rfl
    | some spec =>
      -- the new attempt has the input already
      have hs := hsource name
      have ht := htarget name
      rw [h.roots] at ht
      rw [hi, Option.bind_some, hn] at hs ht
      have hfree := hinputs (name, .ofSpec spec) (HashMap.get?_eq_some_iff.1 hs)
      rw [HashMap.contains, ht] at hfree
      cases hfree
  · intro hall loc row hrow hcl
    obtain ⟨s, hs⟩ := h.exists_state hrow
    obtain ⟨hloop, hroot⟩ := hall loc s hs hcl
    refine ⟨hloop, fun r hr => ?_⟩
    by_cases hl : loc = Location.root
    · subst hl
      have hs := hsource r.1
      rw [HashMap.get?_eq_some_iff.2 hr] at hs
      cases hi : a.inputs.get? Location.root with
      | none =>
        rw [hi] at hs
        cases hs
      | some inputs =>
        rw [hi, Option.bind_some, hroot rfl inputs r.1 hi] at hs
        cases hs
    · rw [HashMap.contains, h.fresh.inputs loc hl]
      rfl

/-- The new attempt in the database after the copy. -/
theorem CopySetting.matches_iff (h : CopySetting K st m target source a) :
    AttemptMatches K (SqliteRuntimeState.copied K f st.db target source) target.1 target.2
        (copiedRun (m.run target) a f) ↔
      (∀ loc s, a.nodes.get? loc = some s → f.clears loc = false →
        (s.mapCompleted ≠ none → f.resetMapElems.get? loc ≠ none) ∧
          (loc ∈ f.truncateExact → s.pausedTime = none ∧ s.unpausedTime = none)) ∧
      ∀ loc inputs name spec, a.inputs.get? loc = some inputs → inputs.get? name = some spec →
        f.clears loc = false → loc ≠ Location.root → (a.nodes.get? loc).isSome = true := by
  have hne : (source : Int) ≠ target.2 := by exact_mod_cast h.ne
  have hnodes := fun loc => get?_copied_nodes K st.db target.1 source f h.fresh loc
  have houtputs := fun loc => get?_copied_outputs st.db target.1 source f h.fresh hne loc
  have hinputs := fun loc => get?_copied_inputs st.db target.1 source f hne loc
  have hfresh : ∀ loc, loc ≠ Location.root → ∀ name,
      ((m.run target).inputs.get? loc).bind (fun inputs => inputs.get? name) = none := by
    intro loc hl name
    have ht := h.targetMatches.inputs loc name
    rw [h.fresh.inputs loc hl, eq_comm, Option.map_eq_none_iff] at ht
    exact ht
  unfold SqliteRuntimeState.copied
  rw [foldl_withCopy]
  constructor
  · intro hm
    refine ⟨fun loc s hs hcl => ?_, fun loc inputs name spec hi hn hcl hl => ?_⟩
    · obtain ⟨row, hrow⟩ := h.exists_row hs
      refine RowMatches.of_copy (hm.row loc (f.copyState loc s) (copiedRow K f loc row) ?_ ?_)
      · rw [nodes_copiedRun h.freshNodes, hcl, hs]
        rfl
      · rw [hnodes, hcl, hrow]
        rfl
    · have hin := hm.inputs loc name
      rw [hinputs, inputs_copiedRun, hcl, hi, Option.bind_some, hn] at hin
      rw [← h.sourceMatches.known]
      cases hrow : st.db.nodeStates.get? (target.1, (source : Int), loc) with
      | some row => rfl
      | none =>
        rw [hrow, if_pos (Or.inr rfl), h.fresh.inputs loc hl] at hin
        cases hin
  · rintro ⟨hrows, hstored⟩
    refine ⟨fun loc => ?_, fun loc s' row' hs' hrow' => ?_, fun loc name => ?_⟩
    · rw [hnodes, nodes_copiedRun h.freshNodes]
      have hk := h.sourceMatches.known loc
      cases f.clears loc
      · simpa using hk
      · rfl
    · rw [nodes_copiedRun h.freshNodes] at hs'
      rw [hnodes] at hrow'
      split_ifs at hs' hrow' with hcl
      obtain ⟨s, hs, rfl⟩ := Option.map_eq_some_iff.1 hs'
      obtain ⟨row, hrow, rfl⟩ := Option.map_eq_some_iff.1 hrow'
      obtain ⟨hmap, hpauses⟩ := hrows loc s hs (by simpa using hcl)
      refine (h.sourceMatches.row loc s row hs hrow).copy hmap hpauses fun name => ?_
      rw [houtputs, hrow]
      simp [hcl]
    · rw [hinputs, inputs_copiedRun]
      have hsource := h.sourceMatches.inputs loc name
      have htarget := h.targetMatches.inputs loc name
      have hk := h.sourceMatches.known loc
      -- what the new attempt has itself is at the root, where the source has the same
      have htarget_eq : ((m.run target).inputs.get? loc).bind (fun inputs => inputs.get? name) =
          if loc = Location.root then
            (a.inputs.get? loc).bind fun inputs => inputs.get? name
          else none := by
        split_ifs with hl
        · rw [hl, h.roots]
        · exact hfresh loc hl name
      by_cases hcl : f.clears loc = true
      · rw [if_pos (Or.inl hcl), if_pos (Or.inl hcl)]
        exact htarget
      · simp only [hcl, Bool.false_eq_true, false_or] at hsource htarget ⊢
        rw [hsource, htarget, htarget_eq]
        cases hi : a.inputs.get? loc with
        | none => cases st.db.nodeStates.get? (target.1, (source : Int), loc) <;> simp
        | some inputs =>
          rw [if_neg (Option.some_ne_none inputs), Option.bind_some]
          cases hrow : st.db.nodeStates.get? (target.1, (source : Int), loc) with
          | some row =>
            rw [if_neg (Option.some_ne_none row)]
            cases inputs.get? name <;> simp
          | none =>
            rw [if_pos rfl]
            split_ifs with hl
            · rfl
            · cases hn : inputs.get? name with
              | none => rfl
              | some spec =>
                have := hstored loc inputs name spec hi hn (by simpa using hcl) hl
                rw [← hk, hrow] at this
                cases this

theorem copies_alike_iff (h : CopySetting K st m target source a) :
    (∃ st' m', st.copyNodeStatesFrom K SqliteRuntimeState.noFaults target source f = (.ok (), st') ∧
      m.copyNodeStatesFrom target (target.1, source) f = .ok m' ∧
      AttemptMatches K st'.db target.1 target.2 (m'.run target)) ↔ CopiesAlike a f := by
  obtain ⟨m', hm', hrun⟩ := h.inMemory (f := f)
  obtain ⟨hok, herror⟩ := SqliteRuntimeState.copyNodeStatesFrom_cases K st f h.small.1 h.small.2
  constructor
  · rintro ⟨st', m'', hst, hm'', hmatches⟩
    rw [hm'] at hm''
    cases hm''
    by_cases ha : Along (withCopy K target.1 source target.2 f) (Copies target.1 source target.2 f)
        st.db (rowsOf st.db target.1 source)
    · rw [hok ha] at hst
      cases hst
      rw [hrun] at hmatches
      obtain ⟨hrows, hstored⟩ := h.matches_iff.1 hmatches
      have hall := h.along_iff.1 ha
      exact
        { loopIndex := fun loc s hs hcl => (hall loc s hs hcl).1
          mapCompleted := fun loc s hs hcl => (hrows loc s hs hcl).1
          pauses := fun loc s hs hcl => (hrows loc s hs hcl).2
          inputs := hstored
          root := fun hcl hs => by
            obtain ⟨s, hs⟩ := Option.isSome_iff_exists.1 hs
            exact (hall _ s hs hcl).2 rfl }
    · obtain ⟨g, hg⟩ := herror ha
      rw [hg] at hst
      cases hst
  · intro hc
    have ha := h.along_iff.2 fun loc s hs hcl => ⟨hc.loopIndex loc s hs hcl, fun hl => by
      subst hl
      exact hc.root hcl (by rw [hs]; rfl)⟩
    refine ⟨_, m', hok ha, hm', ?_⟩
    rw [hrun]
    exact h.matches_iff.2 ⟨fun loc s hs hcl => ⟨hc.mapCompleted loc s hs hcl,
      hc.pauses loc s hs hcl⟩, hc.inputs⟩

end Setting

/-- A map that has begun its only element, whose inputs are stored at the element. -/
def begunMap : RunAttemptState where
  inputs := (∅ : HashMap Location Specs).insert [.node 0, .mapIndex 0]
    ((∅ : Specs).insert "x" ⟨.memory, "s", 1⟩)
  nodes := (∅ : HashMap Location NodeState).insert [.node 0]
    { runningTime := some 1, mapCompleted := some [false] }

/-- The same map in the database, where a second attempt of its run has been made. -/
def begunMapTables : Db where
  workflowNames := (∅ : HashMap Uuid (Option String)).insert 0 none
  workflowRuns := (∅ : HashMap Uuid Uuid).insert 0 0
  attempts := ((∅ : HashMap (Uuid × Int) AttemptRow).insert (0, 0) {}).insert (0, 1) {}
  nodeStates := (∅ : HashMap NodeKey NodeRow).insert (0, 0, [.node 0])
    { runningTime := some 1, mapSize := some 1, mapCompleted := some [0] }
  nodeOutputs := ∅
  inputs := (∅ : HashMap NodeKey (HashMap String AssetRow)).insert
    (0, 0, [.node 0, .mapIndex 0])
    ((∅ : HashMap String AssetRow).insert "x" (.ofSpec ⟨.memory, "s", 1⟩))

def begunMapSqlite : SqliteRuntimeState := ⟨begunMapTables, ⟨∅⟩⟩

def begunMapInMemory : InMemoryRuntimeState where
  workflows := ∅
  runs := ((∅ : HashMap RunAttempt RunAttemptState).insert (0, 0) begunMap).insert (0, 1) {}
  watch := ⟨∅⟩

theorem run_begunMapInMemory : begunMapInMemory.run (0, 1) = {} := by
  rw [InMemoryRuntimeState.run, begunMapInMemory, HashMap.get?_insert, if_pos rfl]
  rfl

theorem begunMap_setting :
    CopySetting .zeroFill begunMapSqlite begunMapInMemory (0, 1) 0 begunMap where
  ne := by decide
  small := by decide
  entry := by
    rw [begunMapInMemory, HashMap.get?_insert, if_neg (by decide), HashMap.get?_insert, if_pos rfl]
  sourceMatches :=
    { known := fun loc => by
        simp only [begunMapSqlite, begunMapTables, begunMap, HashMap.get?_insert]
        by_cases h : loc = [.node 0] <;> simp [h]
      row := fun loc s row hs hrow => by
        simp only [begunMap, HashMap.get?_insert] at hs
        simp only [begunMapSqlite, begunMapTables, HashMap.get?_insert] at hrow
        by_cases h : loc = [.node 0]
        · subst h
          cases hs
          cases hrow
          exact
            { name := rfl, scheduledTime := rfl, queuedTime := rfl, pausedTime := rfl
              unpausedTime := rfl, runningTime := rfl, completeTime := rfl, cancelledTime := rfl
              errorTime := rfl, outputs := ⟨rfl, fun _ => rfl⟩, cond := rfl, loopIndex := rfl
              mapCompleted := ⟨rfl, [0], rfl, rfl⟩, error := rfl, errorDetail := rfl, handle := rfl
              executionContext := rfl }
        · rw [if_neg h] at hs
          cases hs
      inputs := fun loc name => by
        simp only [begunMapSqlite, begunMapTables, begunMap, Db.rowsAt, HashMap.get?_insert]
        by_cases h : loc = [.node 0, .mapIndex 0]
        · subst h
          by_cases hn : name = "x" <;> simp [HashMap.get?_insert, hn]
        · simp [h] }
  fresh :=
    { attempt := by decide +kernel
      nodes := fun loc => by simp [begunMapSqlite, begunMapTables, HashMap.get?_insert]
      outputs := fun _ => rfl
      inputs := fun loc _ name => by
        simp [begunMapSqlite, begunMapTables, Db.rowsAt, HashMap.get?_insert] }
  freshNodes := fun _ => by
    rw [run_begunMapInMemory]
    rfl
  targetMatches := by
    rw [run_begunMapInMemory]
    exact
      { known := fun loc => by simp [begunMapSqlite, begunMapTables, HashMap.get?_insert]
        row := fun loc s row hs _ => by cases hs
        inputs := fun loc name => by
          simp [begunMapSqlite, begunMapTables, Db.rowsAt, HashMap.get?_insert] }
  roots := fun name => by
    rw [run_begunMapInMemory]
    simp [begunMap, HashMap.get?_insert, Location.root]

def begunMapFilter : NodeCopyFilter where
  clearRoots := {[.node 0, .mapIndex 0]}
  resetMapElems := (∅ : HashMap Location (List Bool)).insert [.node 0] [true]

/-- The filter resets the element and clears its inputs. -/
theorem copies_alike_iff_begunMap :
    ∃ st' m', begunMapSqlite.copyNodeStatesFrom .zeroFill SqliteRuntimeState.noFaults (0, 1) 0
        begunMapFilter = (.ok (), st') ∧
      begunMapInMemory.copyNodeStatesFrom (0, 1) (0, 0)
        begunMapFilter = .ok m' ∧
      AttemptMatches .zeroFill st'.db 0 1 (m'.run (0, 1)) :=
  (copies_alike_iff begunMap_setting).2
    { loopIndex := fun _ _ _ _ => (by decide : 0 < 2 ^ 31)
      mapCompleted := fun loc s hs _ hm => by
        simp only [begunMap, HashMap.get?_insert] at hs
        split_ifs at hs with hl
        · rw [begunMapFilter, HashMap.get?_insert, if_pos hl]
          exact Option.some_ne_none _
        · cases hs
      pauses := fun loc s hs _ ht => by cases ht
      inputs := fun loc inputs name spec hi _ hcl _ => by
        simp only [begunMap, HashMap.get?_insert] at hi
        split_ifs at hi with hl
        · subst hl
          exact absurd hcl (by decide)
        · cases hi
      root := fun _ hs => absurd hs (by decide +kernel) }

/-- Nothing is cleared, and the copy in the database loses the inputs of the element. -/
theorem not_copies_alike :
    CopySetting .zeroFill begunMapSqlite begunMapInMemory (0, 1) 0 begunMap ∧
      ¬ ∃ st' m', begunMapSqlite.copyNodeStatesFrom .zeroFill SqliteRuntimeState.noFaults (0, 1) 0 {} =
          (.ok (), st') ∧
        begunMapInMemory.copyNodeStatesFrom (0, 1) (0, 0) {} = .ok m' ∧
        AttemptMatches .zeroFill st'.db 0 1 (m'.run (0, 1)) := by
  refine ⟨begunMap_setting, ?_⟩
  rintro ⟨st', m', hst, hm, hmatches⟩
  have hdb : (begunMapSqlite.copyNodeStatesFrom .zeroFill SqliteRuntimeState.noFaults (0, 1) 0
      {}).2.db.inputs.get? (0, 1, [.node 0, .mapIndex 0]) = none := by decide +kernel
  have hmem : (begunMapInMemory.copyNodeStatesFrom (0, 1) (0, 0) {}).map
      (fun m => ((m.run (0, 1)).inputs.get? [.node 0, .mapIndex 0]).bind
        fun inputs => inputs.get? "x") = .ok (some ⟨.memory, "s", 1⟩) := by decide +kernel
  rw [hst] at hdb
  rw [hm] at hmem
  have hkept : ((m'.run (0, 1)).inputs.get? [.node 0, .mapIndex 0]).bind
      (fun inputs => inputs.get? "x") = some ⟨.memory, "s", 1⟩ := Except.ok.inj hmem
  have hlost : (Db.rowsAt st'.db.inputs (0, 1, [.node 0, .mapIndex 0])).get? "x" = none := by
    rw [Db.rowsAt, hdb]
    rfl
  have hx := (hmatches.inputs [.node 0, .mapIndex 0] "x").symm.trans hlost
  rw [hkept] at hx
  cases hx

end Tierkreis
