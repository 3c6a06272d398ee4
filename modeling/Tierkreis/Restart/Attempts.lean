import Tierkreis.Restart.Sqlite
import Tierkreis.Lib.Run

/-!
# The attempts of a run

A ledger lists the attempts of each run in the order in which they were made, so
that the number of an attempt is its place. Histories of calls from an empty
store are followed next to the ledger of what they have made.

The metadata of the attempts are kept beside the rest of their state.
-/

namespace Tierkreis

open Lib Lib.Run

abbrev Metadata := HashMap String String

/-- What an attempt was made with. The metadata may grow later. -/
structure AttemptRecord where
  workflowId : Uuid
  inputs : Specs
  metadata : Metadata

abbrev Ledger := Uuid → List AttemptRecord

namespace Ledger

def newRun (L : Ledger) (runId : Uuid) (first : AttemptRecord) : Ledger :=
  Function.update L runId [first]

/-- A new attempt is made with what the last one has. -/
def newAttempt (L : Ledger) (runId : Uuid) : Ledger :=
  Function.update L runId (L runId ++ (L runId).getLast?.toList)

def addMetadata (L : Ledger) (r : RunAttempt) (metadata : Metadata) : Ledger :=
  Function.update L r.1 ((L r.1).modify r.2 fun record =>
    { record with metadata := record.metadata.extend metadata })

def record? (L : Ledger) (r : RunAttempt) : Option AttemptRecord := (L r.1)[r.2]?

/-- The attempt has been made. -/
def has (L : Ledger) (r : RunAttempt) : Prop := r.2 < (L r.1).length

/-- The attempts of one run have the same inputs. -/
def Uniform (L : Ledger) : Prop :=
  ∀ run i j a b, L.record? (run, i) = some a → L.record? (run, j) = some b → a.inputs = b.inputs

variable {L : Ledger}

theorem has_iff {r : RunAttempt} : L.has r ↔ ∃ record, L.record? r = some record := by
  rw [has, record?, ← Option.isSome_iff_exists, isSome_getElem?]

theorem exists_last {runId : Uuid} {n : Nat} (h : (L runId).length = n + 1) :
    ∃ records last, L runId = records ++ [last] ∧ L.record? (runId, n) = some last := by
  obtain ⟨records, last, hl⟩ : ∃ records last, L runId = records ++ [last] :=
    ⟨_, _, (List.dropLast_append_getLast (List.ne_nil_of_length_pos (by omega))).symm⟩
  obtain rfl : records.length = n := by
    rw [hl, List.length_append, List.length_singleton] at h
    omega
  exact ⟨records, last, hl, by rw [record?, hl, List.getElem?_concat_length]⟩

theorem record?_newRun (runId : Uuid) (first : AttemptRecord) (r : RunAttempt) :
    (L.newRun runId first).record? r =
      if r.1 = runId then (if r.2 = 0 then some first else none) else L.record? r := by
  unfold record? newRun
  by_cases e : r.1 = runId
  · rw [e, Function.update_self, if_pos rfl]
    cases r.2 <;> simp
  · rw [Function.update_of_ne e, if_neg e]

theorem record?_newAttempt {runId : Uuid} {records : List AttemptRecord} {last : AttemptRecord}
    (h : L runId = records ++ [last]) (r : RunAttempt) :
    (L.newAttempt runId).record? r =
      if r = (runId, (L runId).length) then some last else L.record? r := by
  have hlast : (L runId).getLast? = some last := by rw [h, List.getLast?_concat]
  unfold record? newAttempt
  rw [hlast]
  by_cases e : r.1 = runId
  · rw [e, Function.update_self, Option.toList_some]
    by_cases e2 : r.2 = (L runId).length
    · rw [if_pos (Prod.ext e e2), e2, List.getElem?_concat_length]
    · rw [if_neg fun he => e2 (congrArg Prod.snd he), List.getElem?_append]
      split_ifs with hlt
      · rfl
      · rw [List.getElem?_eq_none (by rw [List.length_singleton]; omega),
          List.getElem?_eq_none (by omega)]
  · rw [Function.update_of_ne e, if_neg fun he => e (congrArg Prod.fst he)]

theorem record?_addMetadata (r r' : RunAttempt) (metadata : Metadata) :
    (L.addMetadata r metadata).record? r' = (L.record? r').map fun record =>
      if r' = r then { record with metadata := record.metadata.extend metadata } else record := by
  unfold record? addMetadata
  by_cases e : r'.1 = r.1
  · rw [e, Function.update_self, List.getElem?_modify]
    by_cases e2 : r.2 = r'.2
    · simp [show r' = r from Prod.ext e e2.symm]
    · have hr : r' ≠ r := fun h => e2 (congrArg Prod.snd h).symm
      simp [e2, hr]
  · have hr : r' ≠ r := fun h => e (congrArg Prod.fst h)
    rw [Function.update_of_ne e]
    simp [hr]

theorem length_addMetadata (r : RunAttempt) (metadata : Metadata) (runId : Uuid) :
    ((L.addMetadata r metadata) runId).length = (L runId).length := by
  unfold addMetadata
  by_cases e : runId = r.1
  · rw [e, Function.update_self, List.length_modify]
  · rw [Function.update_of_ne e]

theorem Uniform.newRun (h : L.Uniform) (runId : Uuid) (first : AttemptRecord) :
    (L.newRun runId first).Uniform := by
  intro run i j a b ha hb
  rw [record?_newRun] at ha hb
  split_ifs at ha hb
  · cases ha
    cases hb
    rfl
  · exact h run i j a b ha hb

theorem Uniform.newAttempt (h : L.Uniform) {runId : Uuid} {records : List AttemptRecord}
    {last : AttemptRecord} (hl : L runId = records ++ [last]) : (L.newAttempt runId).Uniform := by
  have hlast : L.record? (runId, records.length) = some last := by
    rw [record?, hl, List.getElem?_concat_length]
  -- The new record is one that the run has.
  have hold : ∀ run i a, (L.newAttempt runId).record? (run, i) = some a →
      ∃ i', L.record? (run, i') = some a := by
    intro run i a ha
    rw [record?_newAttempt hl] at ha
    split_ifs at ha with e
    · cases ha
      cases e
      exact ⟨_, hlast⟩
    · exact ⟨i, ha⟩
  intro run i j a b ha hb
  obtain ⟨i', ha⟩ := hold run i a ha
  obtain ⟨j', hb⟩ := hold run j b hb
  exact h run i' j' a b ha hb

theorem Uniform.addMetadata (h : L.Uniform) (r : RunAttempt) (metadata : Metadata) :
    (L.addMetadata r metadata).Uniform := by
  have hinputs : ∀ r' a, (L.addMetadata r metadata).record? r' = some a →
      ∃ a', L.record? r' = some a' ∧ a.inputs = a'.inputs := by
    intro r' a ha
    rw [record?_addMetadata] at ha
    obtain ⟨a', ha', rfl⟩ := Option.map_eq_some_iff.1 ha
    exact ⟨a', ha', by split_ifs <;> rfl⟩
  intro run i j a b ha hb
  obtain ⟨a', ha', hea⟩ := hinputs _ a ha
  obtain ⟨b', hb', heb⟩ := hinputs _ b hb
  rw [hea, heb]
  exact h run i j a' b' ha' hb'

end Ledger

/-- A call on a store, or on an attempt that it holds. -/
inductive HistoryCall where
  | newRun (now : Time) (runId workflowId : Uuid) (inputs : Specs) (metadata : Metadata)
  | load (r : RunAttempt)
  | newAttempt (now : Time) (runId : Uuid)
  | addMetadata (r : RunAttempt) (metadata : Metadata)
  | write (r : RunAttempt) (now : Time) (event : WorkflowRunEvent)
  | unpause (r : RunAttempt) (now : Time) (locations : List Location)
  | copyNodeStates (target : RunAttempt) (source : Nat) (f : NodeCopyFilter)

namespace HistoryCall

def isLoad : HistoryCall → Bool
  | load _ => true
  | _ => false

/-- Node events and pauses are of nodes, and no node is at the root. -/
def Nested : HistoryCall → Prop
  | write _ _ (.nodeEvents events) => ∀ e ∈ events, e.loc ≠ Location.root
  | unpause _ _ locations => Location.root ∉ locations
  | _ => True

end HistoryCall

/-! ## In memory -/

namespace InMemoryRuntimeState

/-- The attempt has the time of a terminal event. -/
def ended (st : InMemoryRuntimeState) (r : RunAttempt) : Prop :=
  (st.run r).cancelledTime.isSome ∨ (st.run r).errorTime.isSome ∨ (st.run r).completeTime.isSome

theorem run_eq_of_get? {st : InMemoryRuntimeState} {r : RunAttempt} {run : RunAttemptState}
    (h : st.runs.get? r = some run) : st.run r = run := by
  rw [InMemoryRuntimeState.run, h]
  rfl

/-- When a new attempt is made, and from what: the attempts up to the last one have entries
with root inputs, the next one has no entry, and the last one is over. -/
theorem newAttempt_iff {st st' : InMemoryRuntimeState} {now : Time} {runId : Uuid}
    {r : RunAttempt} :
    st.newAttempt now runId = .ok (r, st') ↔
      ∃ last inputs, r = (runId, last + 1) ∧ st.runs.contains (runId, last + 1) = false ∧
        (∀ k ≤ last, st.runs.contains (runId, k) = true ∧ st.hasRootInputs (runId, k) = true) ∧
        (st.run (runId, last)).inputs.get? Location.root = some inputs ∧
        st.ended (runId, last) ∧
        st' = st.startAttempt (runId, last + 1) now (st.run (runId, last)).workflowId inputs := by
  have hfree := @nextAttempt_free st runId (st.runs.toList.length + 1) 0
    (fun k hk => absurd hk (Nat.not_lt_zero k)) (by omega)
  unfold newAttempt
  dsimp only
  generalize hn : st.nextAttempt runId (st.runs.toList.length + 1) 0 = next at hfree
  constructor
  · intro h
    split_ifs at h with hroots
    simp only [List.any_eq_true, List.mem_range, Bool.not_eq_true', not_exists, not_and,
      Bool.not_eq_false] at hroots
    cases next with
    | zero => cases h
    | succ last =>
      rw [Result.bind_eq_ok] at h
      obtain ⟨inputs, hinputs, h⟩ := h
      split_ifs at h with hover
      cases h
      refine ⟨last, inputs, rfl, hfree.1, fun k hk => ⟨hfree.2 k (by omega), hroots k (by omega)⟩,
        okOr_eq_ok.1 hinputs, ?_, rfl⟩
      simp only [Bool.and_eq_true, Option.isNone_iff_eq_none, not_and] at hover
      unfold ended
      simp only [Option.isSome_iff_ne_none]
      tauto
  · rintro ⟨last, inputs, rfl, hnone, hall, hinputs, hover, rfl⟩
    obtain rfl : next = last + 1 := by
      rcases Nat.lt_trichotomy next (last + 1) with hlt | heq | hgt
      · have := (hall next (by omega)).1
        rw [hfree.1] at this
        cases this
      · exact heq
      · have := hfree.2 (last + 1) hgt
        rw [hnone] at this
        cases this
    rw [if_neg]
    · simp only [hinputs, okOr, Result.bind_eq_ok, Except.ok.injEq, exists_eq_left']
      rw [if_neg]
      · rfl
      · simp only [Bool.and_eq_true, Option.isNone_iff_eq_none]
        unfold ended at hover
        simp only [Option.isSome_iff_ne_none] at hover
        tauto
    · simp only [List.any_eq_true, List.mem_range, Bool.not_eq_true', not_exists, not_and,
        Bool.not_eq_false]
      exact fun k hk => (hall k (by omega)).2

end InMemoryRuntimeState

/-- The in-memory store with the metadata of its entries. -/
structure InMemoryStore where
  state : InMemoryRuntimeState
  metadata : HashMap RunAttempt Metadata

namespace InMemoryStore

variable (st : InMemoryStore)

def empty : InMemoryStore := ⟨{ workflows := ∅, runs := ∅, watch := ⟨∅⟩ }, ∅⟩

def metadataOf (r : RunAttempt) : Metadata := (st.metadata.get? r).getD ∅

def newWorkflowRunState (now : Time) (runId workflowId : Uuid) (inputs : Specs)
    (metadata : Metadata) : InMemoryStore :=
  { state := st.state.newWorkflowRunState now runId workflowId inputs
    metadata := st.metadata.insert (runId, 0) metadata }

def loadWorkflowRunState (r : RunAttempt) : InMemoryStore :=
  { st with state := st.state.loadWorkflowRunState r }

def newAttempt (now : Time) (runId : Uuid) : Result (RunAttempt × InMemoryStore) :=
  (st.state.newAttempt now runId).map fun made =>
    (made.1, { state := made.2
               metadata := st.metadata.insert made.1 (st.metadataOf (runId, made.1.2 - 1)) })

def addMetadata (r : RunAttempt) (metadata : Metadata) : InMemoryStore :=
  { st with metadata := st.metadata.insert r ((st.metadataOf r).extend metadata) }

def loadInputs (r : RunAttempt) : Result Specs := do
  let run ← okOr (st.state.runs.get? r) "Workflow run not found"
  okOr (run.inputs.get? Location.root) "Workflow inputs not found"

/-- A call, and the ledger of what has been made. -/
def step (p : InMemoryStore × Ledger) : HistoryCall → InMemoryStore × Ledger
  | .newRun now runId workflowId inputs metadata =>
    (p.1.newWorkflowRunState now runId workflowId inputs metadata,
      p.2.newRun runId ⟨workflowId, inputs, metadata⟩)
  | .load r => (p.1.loadWorkflowRunState r, p.2)
  | .newAttempt now runId =>
    match p.1.newAttempt now runId with
    | .ok made => (made.2, p.2.newAttempt runId)
    | .error _ => p
  | .addMetadata r metadata => (p.1.addMetadata r metadata, p.2.addMetadata r metadata)
  | .write r now event => ({ p.1 with state := p.1.state.write r now event }, p.2)
  | .unpause r now locations => ({ p.1 with state := p.1.state.unpause r now locations }, p.2)
  | .copyNodeStates target source f =>
    match p.1.state.copyNodeStatesFrom target (target.1, source) f with
    | .ok state => ({ p.1 with state := state }, p.2)
    | .error _ => p

/-- What a caller can ask for: the ids of runs are fresh, an attempt is in hand once it has
an entry, and a restart copies into an attempt that has been made. -/
def Allowed (p : InMemoryStore × Ledger) (c : HistoryCall) : Prop :=
  c.Nested ∧
  match c with
  | .newRun _ runId _ _ _ => ∀ attempt, p.1.state.runs.get? (runId, attempt) = none
  | .addMetadata r _ | .write r _ _ | .unpause r _ _ => p.1.state.runs.contains r = true
  | .copyNodeStates target _ _ => p.2.has target
  | _ => True

/-- The entries of the attempts in the ledger have what those were made with, and no other
entry has root inputs. -/
structure Recorded (p : InMemoryStore × Ledger) : Prop where
  entry : ∀ r record, p.2.record? r = some record →
    (p.1.state.run r).inputs.get? Location.root = some record.inputs ∧
      (p.1.state.run r).workflowId = record.workflowId ∧ p.1.metadataOf r = record.metadata
  only : ∀ r, p.1.state.hasRootInputs r = true → p.2.has r
  uniform : p.2.Uniform

theorem recorded_empty : Recorded (empty, fun _ => []) where
  entry r record h := by simp [Ledger.record?] at h
  only r h := by cases h
  uniform run i j a b ha := by simp [Ledger.record?] at ha

end InMemoryStore

/-- An event stores inputs at its own location or below. -/
theorem InMemory.prefix_foldStatus (now : Time) (loc : Location) (s : NodeState)
    (status : NodeStatus) : ∀ x ∈ (foldStatus now loc s status).2, loc <+: x.1 := by
  intro x hx
  cases status with
  | running stateUpdate =>
    cases stateUpdate with
    | none => cases hx
    | some u =>
      cases u with
      | switching cond =>
        simp only [foldStatus] at hx
        split_ifs at hx <;> cases hx
      | evalling inputs =>
        simp only [foldStatus] at hx
        split_ifs at hx
        · rw [List.mem_singleton.1 hx]
        · cases hx
      | looping index inputs =>
        simp only [foldStatus] at hx
        split_ifs at hx
        · rw [List.mem_singleton.1 hx]
          exact List.prefix_append _ _
        · cases hx
      | mapStarted inputSets =>
        simp only [foldStatus] at hx
        split_ifs at hx
        · obtain ⟨i, hi, rfl⟩ := List.mem_mapIdx.1 hx
          exact List.prefix_append _ _
        · cases hx
      | mapElemComplete bits => cases hx
  | complete outputs =>
    simp only [foldStatus] at hx
    split_ifs at hx <;> cases hx
  | error error detail =>
    simp only [foldStatus] at hx
    split_ifs at hx <;> cases hx
  | _ => cases hx

namespace RunAttemptState

theorem root_insertInputs {inputs : List (Location × Specs)}
    (h : ∀ x ∈ inputs, x.1 ≠ Location.root) (run : RunAttemptState) :
    (run.insertInputs inputs).inputs.get? Location.root = run.inputs.get? Location.root := by
  refine HashMap.get?_ofList_cons_notMem fun hm => ?_
  obtain ⟨x, hx, he⟩ := List.mem_map.1 hm
  exact h x hx he

theorem root_handleNodeEvents (now : Time) {events : List NodeEvent} :
    ∀ {run : RunAttemptState}, (∀ e ∈ events, e.loc ≠ Location.root) →
      (run.handleNodeEvents now events).inputs.get? Location.root =
        run.inputs.get? Location.root := by
  induction events with
  | nil => exact fun _ => rfl
  | cons e events ih =>
    intro run h
    rw [List.forall_mem_cons] at h
    rw [handleNodeEvents, List.foldl_cons, ← handleNodeEvents, ih h.2, handleNodeEvent,
      root_insertInputs]
    intro x hx he
    have hp := InMemory.prefix_foldStatus now e.loc _ e.status x hx
    rw [he] at hp
    exact h.1 (List.prefix_nil.1 hp)

end RunAttemptState

namespace InMemoryStore

/-- A call on an attempt that keeps its root inputs and its workflow. -/
theorem Recorded.put {p : InMemoryStore × Ledger} (h : Recorded p) {r : RunAttempt}
    {run : RunAttemptState} {watch : RuntimeWatchState}
    (hroot : run.inputs.get? Location.root = (p.1.state.run r).inputs.get? Location.root)
    (hw : run.workflowId = (p.1.state.run r).workflowId) :
    Recorded ({ p.1 with state := { p.1.state with
      runs := p.1.state.runs.insert r run, watch := watch } }, p.2) := by
  have hget : ∀ r', ({ p.1.state with runs := p.1.state.runs.insert r run, watch := watch } :
      InMemoryRuntimeState).run r' = if r' = r then run else p.1.state.run r' := by
    intro r'
    rw [InMemoryRuntimeState.run, HashMap.get?_insert]
    split_ifs <;> rfl
  refine ⟨fun r' record hr' => ?_, fun r' hr' => h.only r' ?_, h.uniform⟩
  · obtain ⟨hi, hw', hm⟩ := h.entry r' record hr'
    rw [hget]
    split_ifs with e
    · subst e
      exact ⟨hroot.trans hi, hw.trans hw', hm⟩
    · exact ⟨hi, hw', hm⟩
  · rw [InMemoryRuntimeState.hasRootInputs, hget] at hr'
    split_ifs at hr' with e
    · subst e
      rwa [HashMap.contains, hroot] at hr'
    · exact hr'

@[simp] theorem run_loadWorkflowRunState (st : InMemoryStore) (r r' : RunAttempt) :
    (st.loadWorkflowRunState r).state.run r' = st.state.run r' := by
  unfold loadWorkflowRunState InMemoryRuntimeState.loadWorkflowRunState InMemoryRuntimeState.run
  dsimp only
  split_ifs with h
  · rfl
  · rw [HashMap.get?_insert]
    split_ifs with e
    · subst e
      rw [HashMap.contains, Bool.not_eq_true, Option.isSome_eq_false_iff,
        Option.isNone_iff_eq_none] at h
      rw [h]
      rfl
    · rfl

/-- The entry of an attempt that has just been made. -/
theorem run_startAttempt (st : InMemoryRuntimeState) (r r' : RunAttempt) (now : Time)
    (workflowId : Uuid) (inputs : Specs) :
    (st.startAttempt r now workflowId inputs).run r' =
      if r' = r then { st.run r with
        workflowId := workflowId
        inputs := (∅ : HashMap Location Specs).insert Location.root inputs
        startedTime := some now } else st.run r' := by
  rw [InMemoryRuntimeState.startAttempt, InMemoryRuntimeState.run, HashMap.get?_insert]
  split_ifs <;> rfl

theorem Recorded.newRun {p : InMemoryStore × Ledger} (h : Recorded p) {now : Time}
    {runId workflowId : Uuid} {inputs : Specs} {metadata : Metadata}
    (hfresh : ∀ attempt, p.1.state.runs.get? (runId, attempt) = none) :
    Recorded (step p (.newRun now runId workflowId inputs metadata)) := by
  have hrun : ∀ r, (step p (.newRun now runId workflowId inputs metadata)).1.state.run r = _ :=
    fun r => run_startAttempt p.1.state (runId, 0) r now workflowId inputs
  have hrecord := Ledger.record?_newRun (L := p.2) runId ⟨workflowId, inputs, metadata⟩
  refine ⟨fun r record hr => ?_, fun r hr => Ledger.has_iff.2 ?_, h.uniform.newRun _ _⟩
  · replace hr := (hrecord r).symm.trans hr
    change _ ∧ _ ∧ ((p.1.metadata.insert (runId, 0) metadata).get? r).getD ∅ = _
    rw [hrun, HashMap.get?_insert]
    split_ifs at hr with e h0
    · cases hr
      rw [if_pos (Prod.ext e h0), if_pos (Prod.ext e h0)]
      exact ⟨HashMap.get?_insert_self _ _ _, rfl, rfl⟩
    · have he : r ≠ (runId, 0) := fun he => e (congrArg Prod.fst he)
      rw [if_neg he, if_neg he]
      exact h.entry r record hr
  · change ∃ record, (p.2.newRun runId ⟨workflowId, inputs, metadata⟩).record? r = some record
    rw [hrecord]
    rw [InMemoryRuntimeState.hasRootInputs, hrun] at hr
    by_cases e : r.1 = runId
    · by_cases h0 : r.2 = 0
      · rw [if_pos e, if_pos h0]
        exact ⟨_, rfl⟩
      · have hnone := hfresh r.2
        rw [← e] at hnone
        rw [if_neg fun he => h0 (congrArg Prod.snd he), InMemoryRuntimeState.run, hnone] at hr
        cases hr
    · rw [if_neg fun he => e (congrArg Prod.fst he)] at hr
      rw [if_neg e]
      exact Ledger.has_iff.1 (h.only r hr)

/-- A new attempt comes after those in the ledger. -/
theorem Recorded.newAttempt_eq {p : InMemoryStore × Ledger} (h : Recorded p) {now : Time}
    {runId : Uuid} {made : RunAttempt × InMemoryStore} (hm : p.1.newAttempt now runId = .ok made) :
    ∃ last records, p.2 runId = records ++ [last] ∧ made.1 = (runId, (p.2 runId).length) ∧
      p.1.state.ended (runId, records.length) ∧
      made.2 = { state := p.1.state.startAttempt made.1 now last.workflowId last.inputs
                 metadata := p.1.metadata.insert made.1 last.metadata } := by
  unfold newAttempt at hm
  cases hn : p.1.state.newAttempt now runId with
  | error f =>
    rw [hn] at hm
    cases hm
  | ok x =>
    obtain ⟨r, st'⟩ := x
    rw [hn] at hm
    cases hm
    obtain ⟨last, inputs, rfl, hnone, hall, hinputs, hover, rfl⟩ :=
      InMemoryRuntimeState.newAttempt_iff.1 hn
    have hlt : last < (p.2 runId).length := h.only (runId, last) (hall last (Nat.le_refl _)).2
    have hlen : (p.2 runId).length = last + 1 := by
      by_contra hne
      have hlt' : last + 1 < (p.2 runId).length := by omega
      have hroot := (h.entry (runId, last + 1) _ (List.getElem?_eq_getElem hlt')).1
      rw [HashMap.contains, Option.isSome_eq_false_iff, Option.isNone_iff_eq_none] at hnone
      rw [InMemoryRuntimeState.run, hnone] at hroot
      cases hroot
    obtain ⟨records, record, hrec, hlast⟩ := Ledger.exists_last hlen
    have hl : records.length = last := by
      rw [hrec, List.length_append, List.length_singleton] at hlen
      omega
    obtain ⟨hi, hw, hmeta⟩ := h.entry (runId, last) record hlast
    rw [hi] at hinputs
    cases hinputs
    refine ⟨record, records, hrec, by rw [hlen], hl ▸ hover, ?_⟩
    change InMemoryStore.mk _ (p.1.metadata.insert _ (p.1.metadataOf (runId, last))) = _
    rw [hw, hmeta]

theorem Recorded.newAttempt {p : InMemoryStore × Ledger} (h : Recorded p) (now : Time)
    (runId : Uuid) : Recorded (step p (.newAttempt now runId)) := by
  cases hn : p.1.newAttempt now runId with
  | error f =>
    simp only [step, hn]
    exact h
  | ok made =>
    obtain ⟨last, records, hrec, hr, -, hst⟩ := h.newAttempt_eq hn
    have hrecord := Ledger.record?_newAttempt hrec
    simp only [step, hn, hst]
    refine ⟨fun r record hget => ?_, fun r hroot => Ledger.has_iff.2 ?_, h.uniform.newAttempt hrec⟩
    · replace hget := (hrecord r).symm.trans hget
      change _ ∧ _ ∧ ((p.1.metadata.insert made.1 last.metadata).get? r).getD ∅ = _
      rw [run_startAttempt, HashMap.get?_insert, hr]
      split_ifs at hget ⊢ with e
      · cases hget
        exact ⟨HashMap.get?_insert_self _ _ _, rfl, rfl⟩
      · exact h.entry r record hget
    · change ∃ record, (p.2.newAttempt runId).record? r = some record
      rw [hrecord]
      rw [InMemoryRuntimeState.hasRootInputs, run_startAttempt, hr] at hroot
      split_ifs at hroot ⊢ with e
      · exact ⟨_, rfl⟩
      · exact Ledger.has_iff.1 (h.only r hroot)

theorem Recorded.addMetadata {p : InMemoryStore × Ledger} (h : Recorded p) (r : RunAttempt)
    (metadata : Metadata) : Recorded (step p (.addMetadata r metadata)) := by
  have hrecord := fun r' => Ledger.record?_addMetadata (L := p.2) r r' metadata
  refine ⟨fun r' record hr' => ?_, fun r' hr' => Ledger.has_iff.2 ?_, h.uniform.addMetadata _ _⟩
  · obtain ⟨old, hold, rfl⟩ := Option.map_eq_some_iff.1 ((hrecord r').symm.trans hr')
    obtain ⟨hi, hw, hm⟩ := h.entry r' old hold
    change _ ∧ _ ∧ ((p.1.metadata.insert r ((p.1.metadataOf r).extend metadata)).get? r').getD ∅ = _
    rw [HashMap.get?_insert]
    split_ifs with e
    · subst e
      exact ⟨hi, hw, by rw [← hm]; rfl⟩
    · exact ⟨hi, hw, hm⟩
  · obtain ⟨record, hold⟩ := Ledger.has_iff.1 (h.only r' hr')
    exact ⟨_, (hrecord r').trans (by rw [hold]; rfl)⟩

theorem Recorded.copyNodeStates {p : InMemoryStore × Ledger} (h : Recorded p)
    {target : RunAttempt} {source : Nat} {f : NodeCopyFilter} (ht : p.2.has target) :
    Recorded (step p (.copyNodeStates target source f)) := by
  cases hc : p.1.state.copyNodeStatesFrom target (target.1, source) f with
  | error e =>
    simp only [step, hc]
    exact h
  | ok state =>
    obtain ⟨sourceRun, hs, rfl⟩ := InMemoryRuntimeState.copyNodeStatesFrom_eq_ok _ |>.1 hc
    simp only [step, hc]
    refine h.put ?_ rfl
    rw [HashMap.get?_extend, InMemoryRuntimeState.copiedInputs, HashMap.get?_filterMap]
    cases hroot : sourceRun.inputs.get? Location.root with
    | none => rfl
    | some inputs =>
      have hsource := InMemoryRuntimeState.run_eq_of_get? hs
      have hhas := h.only (target.1, source) (by
        rw [InMemoryRuntimeState.hasRootInputs, hsource, HashMap.contains, hroot]
        rfl)
      obtain ⟨old, hold⟩ := Ledger.has_iff.1 hhas
      obtain ⟨new, hnew⟩ := Ledger.has_iff.1 ht
      have hi := (h.entry (target.1, source) old hold).1
      rw [hsource, hroot, h.uniform target.1 source target.2 old new hold hnew] at hi
      rw [(h.entry target new hnew).1, ← hi]
      by_cases hcl : f.clears Location.root = true <;> simp [hcl]

/-- Every call keeps the store and the ledger together. -/
theorem Recorded.step {p : InMemoryStore × Ledger} {c : HistoryCall} (h : Recorded p)
    (ha : Allowed p c) : Recorded (step p c) := by
  obtain ⟨hn, ha⟩ := ha
  cases c with
  | newRun now runId workflowId inputs metadata => exact h.newRun ha
  | load r =>
    refine ⟨fun r' record hr' => ?_, fun r' hr' => h.only r' ?_, h.uniform⟩
    · change ((p.1.loadWorkflowRunState r).state.run r').inputs.get? Location.root = _ ∧
        ((p.1.loadWorkflowRunState r).state.run r').workflowId = _ ∧ p.1.metadataOf r' = _
      rw [run_loadWorkflowRunState]
      exact h.entry r' record hr'
    · simpa [InMemoryStore.step, InMemoryRuntimeState.hasRootInputs] using hr'
  | newAttempt now runId => exact h.newAttempt now runId
  | addMetadata r metadata => exact h.addMetadata r metadata
  | write r now event =>
    refine h.put ?_ ?_
    · cases event with
      | nodeEvents events => exact RunAttemptState.root_handleNodeEvents now hn
      | _ => rfl
    · cases event with
      | nodeEvents events =>
        change ((p.1.state.run r).handleNodeEvents now events).workflowId = _
        rw [RunAttemptState.handleNodeEvents_frame]
      | _ => rfl
  | unpause r now locations =>
    refine h.put ?_ ?_
    · rw [RunAttemptState.unpause_frame]
    · rw [RunAttemptState.unpause_frame]
  | copyNodeStates target source f => exact h.copyNodeStates ha

/-- Only attempts that are there are loaded. -/
def LoadsKnown (p : InMemoryStore × Ledger) : HistoryCall → Prop
  | .load r => p.1.state.runs.contains r = true
  | _ => True

theorem step_load {p : InMemoryStore × Ledger} {r : RunAttempt}
    (h : p.1.state.runs.contains r = true) : step p (.load r) = p := by
  change (p.1.loadWorkflowRunState r, p.2) = p
  rw [loadWorkflowRunState, InMemoryRuntimeState.loadWorkflowRunState, if_pos h]

/-- The attempts of a store are those that have been made, and a new attempt continues
their numbers with the inputs and the metadata of the last one. -/
structure Numbered (p : InMemoryStore × Ledger) : Prop where
  attempts : ∀ r, p.1.state.runs.contains r = true ↔ p.2.has r
  possible : ∀ now runId, (∃ made, p.1.newAttempt now runId = .ok made) ↔
    ∃ last, (p.2 runId).length = last + 1 ∧ p.1.state.ended (runId, last)
  next : ∀ now runId made, p.1.newAttempt now runId = .ok made → ∃ last,
    (p.2 runId).length = last + 1 ∧ made.1 = (runId, last + 1) ∧
      made.2.loadInputs made.1 = p.1.loadInputs (runId, last) ∧
      made.2.metadataOf made.1 = p.1.metadataOf (runId, last)

theorem Recorded.contains {p : InMemoryStore × Ledger} (h : Recorded p) {r : RunAttempt}
    (hr : p.2.has r) : p.1.state.runs.contains r = true := by
  obtain ⟨record, hrec⟩ := Ledger.has_iff.1 hr
  have hi := (h.entry r record hrec).1
  by_contra hc
  rw [HashMap.contains, Bool.not_eq_true, Option.isSome_eq_false_iff,
    Option.isNone_iff_eq_none] at hc
  rw [InMemoryRuntimeState.run, hc] at hi
  cases hi

theorem Recorded.loadInputs {p : InMemoryStore × Ledger} (h : Recorded p) {r : RunAttempt}
    {record : AttemptRecord} (hr : p.2.record? r = some record) :
    p.1.loadInputs r = .ok record.inputs := by
  obtain ⟨run, hrun⟩ := Option.isSome_iff_exists.1 (h.contains (Ledger.has_iff.2 ⟨record, hr⟩))
  have hi := (h.entry r record hr).1
  rw [InMemoryRuntimeState.run_eq_of_get? hrun] at hi
  simp [InMemoryStore.loadInputs, hrun, okOr, hi, bind, Except.bind]

theorem Recorded.numbered {p : InMemoryStore × Ledger} (h : Recorded p)
    (hk : ∀ r, p.1.state.runs.contains r = true → p.2.has r) : Numbered p := by
  refine ⟨fun r => ⟨hk r, h.contains⟩, fun now runId => ⟨?_, ?_⟩, fun now runId made hm => ?_⟩
  · rintro ⟨made, hm⟩
    obtain ⟨last, records, hrec, -, hover, -⟩ := h.newAttempt_eq hm
    exact ⟨records.length, by rw [hrec]; simp, hover⟩
  · rintro ⟨last, hlen, hover⟩
    have hhas : ∀ k ≤ last, p.2.has (runId, k) := fun k hle => by
      change k < (p.2 runId).length
      omega
    obtain ⟨record, hrec⟩ := Ledger.has_iff.1 (hhas last (Nat.le_refl _))
    have hroot : ∀ k ≤ last, p.1.state.hasRootInputs (runId, k) = true := fun k hle => by
      obtain ⟨rec', hrec'⟩ := Ledger.has_iff.1 (hhas k hle)
      rw [InMemoryRuntimeState.hasRootInputs, HashMap.contains, (h.entry _ _ hrec').1]
      rfl
    have hnone : p.1.state.runs.contains (runId, last + 1) = false := by
      rw [Bool.eq_false_iff]
      intro hc
      have hlt : last + 1 < (p.2 runId).length := hk _ hc
      omega
    have hn : p.1.state.newAttempt now runId = .ok ((runId, last + 1), _) :=
      InMemoryRuntimeState.newAttempt_iff.2 ⟨last, record.inputs, rfl, hnone,
        fun k hle => ⟨h.contains (hhas k hle), hroot k hle⟩, (h.entry _ _ hrec).1, hover, rfl⟩
    rw [InMemoryStore.newAttempt, hn]
    exact ⟨_, rfl⟩
  · obtain ⟨last, records, hrec, hr, -, hst⟩ := h.newAttempt_eq hm
    have hlast : p.2.record? (runId, records.length) = some last := by
      rw [Ledger.record?, hrec, List.getElem?_concat_length]
    have hlen : (p.2 runId).length = records.length + 1 := by rw [hrec]; simp
    refine ⟨records.length, hlen, by rw [hr, hlen], ?_, ?_⟩
    · rw [h.loadInputs hlast, hst, InMemoryStore.loadInputs]
      simp [InMemoryRuntimeState.startAttempt, okOr, bind, Except.bind]
    · rw [(h.entry _ _ hlast).2.2, hst, metadataOf, HashMap.get?_insert_self]
      rfl

theorem contains_put {runs : HashMap RunAttempt RunAttemptState} {L L' : Ledger}
    {r : RunAttempt} {run : RunAttemptState} (hk : ∀ r', runs.contains r' = true → L.has r')
    (hr : L'.has r) (hL : ∀ r', L.has r' → L'.has r') :
    ∀ r', (runs.insert r run).contains r' = true → L'.has r' := by
  intro r' h
  rw [HashMap.contains_insert, Bool.or_eq_true, decide_eq_true_eq] at h
  rcases h with rfl | h
  · exact hr
  · exact hL r' (hk r' h)

/-- Calls that load known attempts only make no entry but for attempts that are made. -/
theorem contains_step {p : InMemoryStore × Ledger} {c : HistoryCall} (h : Recorded p)
    (hk : ∀ r, p.1.state.runs.contains r = true → p.2.has r) (ha : Allowed p c)
    (hl : LoadsKnown p c) :
    ∀ r, (step p c).1.state.runs.contains r = true → (step p c).2.has r := by
  cases c with
  | newRun now runId workflowId inputs metadata =>
    have hrecord := Ledger.record?_newRun (L := p.2) runId ⟨workflowId, inputs, metadata⟩
    refine contains_put hk ?_ fun r' hr' => ?_
    · exact Ledger.has_iff.2 ⟨⟨workflowId, inputs, metadata⟩, (hrecord _).trans (by simp)⟩
    · have he : r'.1 ≠ runId := by
        rintro rfl
        have := h.contains hr'
        rw [HashMap.contains, ha.2 r'.2] at this
        cases this
      obtain ⟨record, hr⟩ := Ledger.has_iff.1 hr'
      exact Ledger.has_iff.2 ⟨record, (hrecord r').trans (by rw [if_neg he, hr])⟩
  | load r =>
    rw [step_load hl]
    exact hk
  | newAttempt now runId =>
    cases hn : p.1.newAttempt now runId with
    | error f =>
      simp only [step, hn]
      exact hk
    | ok made =>
      obtain ⟨last, records, hrec, hr, -, hst⟩ := h.newAttempt_eq hn
      have hrecord := Ledger.record?_newAttempt hrec
      simp only [step, hn, hst]
      refine contains_put hk ?_ fun r' hr' => ?_
      · exact Ledger.has_iff.2 ⟨last, (hrecord _).trans (if_pos hr)⟩
      · obtain ⟨record, hr'⟩ := Ledger.has_iff.1 hr'
        by_cases e : r' = (runId, (p.2 runId).length)
        · exact Ledger.has_iff.2 ⟨last, (hrecord r').trans (if_pos e)⟩
        · exact Ledger.has_iff.2 ⟨record, (hrecord r').trans (by rw [if_neg e, hr'])⟩
  | addMetadata r metadata =>
    intro r' hr'
    obtain ⟨record, hrec⟩ := Ledger.has_iff.1 (hk r' hr')
    exact Ledger.has_iff.2 ⟨_, (Ledger.record?_addMetadata r r' metadata).trans (by rw [hrec]; rfl)⟩
  | write r now event => exact contains_put hk (hk r ha.2) fun _ h => h
  | unpause r now locations => exact contains_put hk (hk r ha.2) fun _ h => h
  | copyNodeStates target source f =>
    cases hc : p.1.state.copyNodeStatesFrom target (target.1, source) f with
    | error e =>
      simp only [step, hc]
      exact hk
    | ok state =>
      obtain ⟨sourceRun, hs, rfl⟩ := InMemoryRuntimeState.copyNodeStatesFrom_eq_ok _ |>.1 hc
      simp only [step, hc]
      exact contains_put hk ha.2 fun _ h => h

/-- Loads of known attempts may be left out of a history. -/
theorem foldl_step_loads {calls : List HistoryCall} :
    ∀ {p : InMemoryStore × Ledger}, Along step LoadsKnown p calls →
      calls.foldl step p = (calls.filter fun c => !c.isLoad).foldl step p := by
  induction calls with
  | nil => exact fun _ => rfl
  | cons c calls ih =>
    rintro p ⟨hc, hcs⟩
    cases c with
    | load r =>
      have hload := step_load hc
      rw [hload] at hcs
      rw [List.foldl_cons, hload, ih hcs]
      rfl
    | _ => exact ih hcs

end InMemoryStore

end Tierkreis
