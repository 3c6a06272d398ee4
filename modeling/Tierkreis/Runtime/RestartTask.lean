import Mathlib.Data.Finset.Sort
import Mathlib.Data.String.Basic
import Tierkreis.LocationText
import Tierkreis.Restart.Merge
import Tierkreis.Runtime.RestartingStores

/-!
# `restart_task`

A restart is a few calls on the store, one after another: it loads the attempt,
works out what its locations make invalid, makes a new attempt and copies the
node states into it that stay valid.
-/

namespace Tierkreis

open Lib Lib.Txn Lib.Commute

/-- A store with all that a restart reads and writes. -/
class RestartTaskState (σ : Type) extends RestartableState σ where
  /-- In memory this makes the attempt when it is not there. -/
  loadWorkflowRunState : σ → RunAttempt → Result Unit × σ
  /-- The errored locations of the summary. -/
  erroredLocations : σ → RunAttempt → Result (List Location)
  /-- The attempt has a state for the node. -/
  hasNode : σ → RunAttempt → Location → Prop
  copy_same : ∀ {f g : NodeCopyFilter}, f.Same g → ∀ (st : σ) (target source : RunAttempt),
    copyNodeStatesFrom st target source f = copyNodeStatesFrom st target source g
  hasNode_copied : ∀ {st st' : σ} {target source : RunAttempt} {f : NodeCopyFilter}
    {loc : Location}, target.1 = source.1 → copyNodeStatesFrom st target source f = (.ok (), st') →
    hasNode st source loc → f.clears loc = false → hasNode st' target loc
  not_hasNode_copied : ∀ {st st' : σ} {target source : RunAttempt} {f : NodeCopyFilter}
    {loc : Location}, copyNodeStatesFrom st target source f = (.ok (), st') →
    ¬ hasNode st target loc → f.clears loc = true → ¬ hasNode st' target loc

/-- Locations in the order of their texts. -/
def TextLe (a b : Location) : Prop := a.toText ≤ b.toText

instance : DecidableRel TextLe := fun a b => inferInstanceAs (Decidable (a.toText ≤ b.toText))

instance : IsTrans Location TextLe := ⟨fun _ _ _ h h' => le_trans (α := String) h h'⟩

instance : Std.Antisymm TextLe := ⟨fun _ _ h h' => Location.toText_inj (le_antisymm h h')⟩

instance : Std.Total TextLe := ⟨fun a b => le_total a.toText b.toText⟩

section RestartTask

variable {σ : Type} [RestartTaskState σ] (C : Codec) (W : Portgraph) (A : Assets)

/-- The locations to restart: the given ones, or all that have an error. -/
def locationsToRestart (st : σ) (r : RunAttempt) (locs : List Location) :
    Result (List Location) :=
  if locs.isEmpty then do
    let erroredLocations ← RestartTaskState.erroredLocations st r
    if erroredLocations.isEmpty then .error (.miette "No errored nodes to restart")
    else pure erroredLocations
  else pure locs

/-- The reads of a restart, which come to its filter. -/
def findInvalidated (st : σ) (r : RunAttempt) (locs : List Location) : Result NodeCopyFilter := do
  let locs ← locationsToRestart st r locs
  let workflowGraph ← (RuntimeState.loadWorkflow st r).mapError (.wrapErr "Failed to load workflow")
  (mergeFilters C W st r A workflowGraph locs {}).mapError
    (.wrapErr "Failed to find locations invalidated for new attempt")

/-- Make a new attempt and copy what stays valid into it. -/
def populateAttempt (st : σ) (now : Time) (r : RunAttempt) (invalidated : NodeCopyFilter) :
    Result (Nat × List Location) × σ :=
  match RestartableState.newAttempt st now r.1 with
  | (.error e, st) => (.error (e.wrapErr "Failed to create a new attempt"), st)
  | (.ok target, st) =>
    match RestartableState.copyNodeStatesFrom st target r invalidated with
    | (.error e, st) => (.error (e.wrapErr "Failed to copy over new state"), st)
    | (.ok (), st) => (.ok (target.2, invalidated.clearRoots.sort TextLe), st)

/-- The new attempt with the invalidated locations, and the store afterwards. -/
def restartTask (st : σ) (now : Time) (r : RunAttempt) (locs : List Location) :
    Result (Nat × List Location) × σ :=
  match RestartTaskState.loadWorkflowRunState st r with
  | (.error e, st) => (.error (e.wrapErr "Failed to load existing state"), st)
  | (.ok (), st) =>
    match findInvalidated C W A st r locs with
    | .error e => (.error e, st)
    | .ok invalidated => populateAttempt st now r invalidated

/-! ## The order of the locations -/

variable {C W A}

/-- The filter of a location, where it can be worked out. -/
def filterOf (C : Codec) (W : Portgraph) (A : Assets) (st : σ) (r : RunAttempt)
    (workflowGraph : WorkflowGraph) (loc : Location) : NodeCopyFilter :=
  (buildNodeCopyFilter C W st r A workflowGraph loc).toOption.getD {}

theorem mergeFilters_eq_ok {st : σ} {r : RunAttempt} {workflowGraph : WorkflowGraph}
    {locs : List Location} :
    ∀ {invalidated f : NodeCopyFilter},
      mergeFilters C W st r A workflowGraph locs invalidated = .ok f ↔
        (∀ loc ∈ locs, (buildNodeCopyFilter C W st r A workflowGraph loc).toOption.isSome) ∧
          f = (locs.map (filterOf C W A st r workflowGraph)).foldl .merge invalidated := by
  induction locs with
  | nil =>
    intro invalidated f
    constructor
    · rintro ⟨⟩
      exact ⟨nofun, rfl⟩
    · rintro ⟨-, rfl⟩
      rfl
  | cons loc locs ih =>
    intro invalidated f
    rw [mergeFilters, List.forall_mem_cons, List.map_cons, List.foldl_cons, filterOf]
    cases hb : buildNodeCopyFilter C W st r A workflowGraph loc with
    | error e =>
      constructor
      · exact nofun
      · rintro ⟨⟨h, -⟩, -⟩
        cases h
    | ok g =>
      refine ih.trans (and_congr_left' ?_)
      exact (and_iff_right rfl).symm

theorem mergeFilters_perm {st : σ} {r : RunAttempt} {workflowGraph : WorkflowGraph}
    {locs locs' : List Location} (hp : locs.Perm locs') {f : NodeCopyFilter}
    (h : mergeFilters C W st r A workflowGraph locs {} = .ok f) :
    ∃ f', mergeFilters C W st r A workflowGraph locs' {} = .ok f' ∧ f.Same f' := by
  obtain ⟨hall, rfl⟩ := mergeFilters_eq_ok.1 h
  refine ⟨_, mergeFilters_eq_ok.2 ⟨fun loc hl => hall loc (hp.mem_iff.2 hl), rfl⟩, ?_⟩
  exact NodeCopyFilter.mergeAll_perm (hp.map _)

theorem locationsToRestart_perm (st : σ) (r : RunAttempt) {locs locs' : List Location}
    (hp : locs.Perm locs') {l : List Location} (h : locationsToRestart st r locs = .ok l) :
    ∃ l', locationsToRestart st r locs' = .ok l' ∧ l.Perm l' := by
  unfold locationsToRestart at h ⊢
  cases locs with
  | nil =>
    rw [hp.nil_eq] at h
    exact ⟨l, h, .refl l⟩
  | cons loc locs =>
    cases h
    refine ⟨locs', if_neg fun he => ?_, hp⟩
    rw [List.isEmpty_iff] at he
    rw [he] at hp
    cases hp.eq_nil

theorem findInvalidated_perm (st : σ) (r : RunAttempt) {locs locs' : List Location}
    (hp : locs.Perm locs') {f : NodeCopyFilter} (h : findInvalidated C W A st r locs = .ok f) :
    ∃ f', findInvalidated C W A st r locs' = .ok f' ∧ f.Same f' := by
  obtain ⟨l, hl, h⟩ := Result.bind_eq_ok.1 h
  obtain ⟨workflowGraph, hw, h⟩ := Result.bind_eq_ok.1 h
  cases hm : mergeFilters C W st r A workflowGraph l {} with
  | error e =>
    rw [hm] at h
    cases h
  | ok g =>
    rw [hm] at h
    cases h
    obtain ⟨l', hl', hpl⟩ := locationsToRestart_perm st r hp hl
    obtain ⟨g', hg', hsame⟩ := mergeFilters_perm hpl hm
    refine ⟨g', ?_, hsame⟩
    refine Result.bind_eq_ok.2 ⟨l', hl', Result.bind_eq_ok.2 ⟨workflowGraph, hw, ?_⟩⟩
    rw [hg']
    rfl

theorem populateAttempt_congr {f f' : NodeCopyFilter} (h : f.Same f') (st : σ) (now : Time)
    (r : RunAttempt) : populateAttempt st now r f = populateAttempt st now r f' := by
  unfold populateAttempt
  simp only [RestartTaskState.copy_same h, h.clearRoots]

/-- A restart of the same locations in another order makes the same attempt, or fails as well
and leaves the store in the same state. -/
def RestartsInAnyOrder (σ : Type) [RestartTaskState σ] : Prop :=
  ∀ (C : Codec) (W : Portgraph) (A : Assets) (st : σ) (now : Time) (r : RunAttempt)
    (locs locs' : List Location), locs.Perm locs' →
    (restartTask C W A st now r locs).2 = (restartTask C W A st now r locs').2 ∧
      (restartTask C W A st now r locs).1.toOption = (restartTask C W A st now r locs').1.toOption

theorem restartsInAnyOrder : RestartsInAnyOrder σ := by
  intro C W A st now r locs locs' hp
  unfold restartTask
  rcases RestartTaskState.loadWorkflowRunState st r with ⟨_ | _, st⟩
  · exact ⟨rfl, rfl⟩
  · cases hf : findInvalidated C W A st r locs with
    | ok f =>
      obtain ⟨f', hf', hsame⟩ := findInvalidated_perm st r hp hf
      simp only [hf, hf', populateAttempt_congr hsame, and_self]
    | error e =>
      cases hf' : findInvalidated C W A st r locs' with
      | error e' => simp only [hf, hf', Except.toOption, and_self]
      | ok f' =>
        obtain ⟨f, hok, -⟩ := findInvalidated_perm st r hp.symm hf'
        rw [hf] at hok
        cases hok

/-! ## What is retained -/

/-- A copy into an attempt without nodes retains those that the filter does not clear. -/
theorem hasNode_copied_iff {st st' : σ} {target source : RunAttempt} {f : NodeCopyFilter}
    {loc : Location} (hr : target.1 = source.1)
    (hc : RestartableState.copyNodeStatesFrom st target source f = (.ok (), st'))
    (hs : RestartTaskState.hasNode st source loc) (ht : ¬ RestartTaskState.hasNode st target loc) :
    RestartTaskState.hasNode st' target loc ↔ f.clears loc = false := by
  cases hcl : f.clears loc with
  | true =>
    exact ⟨fun h => absurd h (RestartTaskState.not_hasNode_copied hc ht hcl), nofun⟩
  | false => exact ⟨fun _ => rfl, fun _ => RestartTaskState.hasNode_copied hr hc hs hcl⟩

/-- A copy under a merged filter retains the nodes that a copy under each of the filters on its
own would retain. -/
def RetainsAsEach (σ : Type) [RestartTaskState σ] : Prop :=
  ∀ (st st' : σ) (target source : RunAttempt) (fs : List NodeCopyFilter)
    (copies : NodeCopyFilter → σ) (loc : Location), target.1 = source.1 →
    RestartableState.copyNodeStatesFrom st target source (.mergeAll fs) = (.ok (), st') →
    (∀ f ∈ fs, RestartableState.copyNodeStatesFrom st target source f = (.ok (), copies f)) →
    RestartTaskState.hasNode st source loc → ¬ RestartTaskState.hasNode st target loc →
    (RestartTaskState.hasNode st' target loc ↔
      ∀ f ∈ fs, RestartTaskState.hasNode (copies f) target loc)

theorem retainsAsEach : RetainsAsEach σ := by
  intro st st' target source fs copies loc hr hc hfs hs ht
  rw [hasNode_copied_iff hr hc hs ht, ← Bool.not_eq_true, NodeCopyFilter.clears_mergeAll]
  simp only [not_exists, not_and, Bool.not_eq_true]
  refine forall₂_congr fun f hf => ?_
  exact (hasNode_copied_iff hr (hfs f hf) hs ht).symm

end RestartTask

/-! ## In both stores -/

namespace InMemoryRuntimeState

theorem nodes_copied {st st' : InMemoryRuntimeState} {target source : RunAttempt}
    {f : NodeCopyFilter} {loc : Location} (h : st.copyNodeStatesFrom target source f = .ok st') :
    (st'.run target).nodes.get? loc =
      (if f.clears loc then none else ((st.run source).nodes.get? loc).map (f.copyState loc)).or
        ((st.run target).nodes.get? loc) := by
  obtain ⟨a, ha, rfl⟩ := st.copyNodeStatesFrom_eq_ok.1 h
  have hrun : st.run source = a := by rw [run, ha, Option.getD_some]
  rw [run, HashMap.get?_insert_self, Option.getD_some, HashMap.get?_extend, copiedNodes,
    HashMap.get?_filterMap, hrun]
  cases a.nodes.get? loc <;> cases f.clears loc <;> rfl

instance : RestartTaskState InMemoryRuntimeState where
  loadWorkflowRunState st r := (.ok (), st.loadWorkflowRunState r)
  erroredLocations st r := (st.summary r).map (·.erroredLocations)
  hasNode st r loc := (st.run r).nodes.get? loc ≠ none
  copy_same h st target source := by
    change copyCall _ _ _ _ = copyCall _ _ _ _
    unfold copyCall
    rw [copyNodeStatesFrom_congr h]
  hasNode_copied {st st' target source f loc} _ hc hs hcl := by
    rw [nodes_copied (copyCall_eq_ok hc), hcl]
    obtain ⟨s, hs⟩ := Option.ne_none_iff_exists'.1 hs
    rw [hs]
    exact nofun
  not_hasNode_copied {st st' target source f loc} hc ht hcl := by
    rw [nodes_copied (copyCall_eq_ok hc), hcl]
    exact ht

end InMemoryRuntimeState

namespace Sql

variable {K : Crates} {run : Uuid} {source dest : Int} {f : NodeCopyFilter}

/-- No row is made for a location that is cleared. -/
theorem keeps_copyRow_none {key : NodeKey} (hcl : f.clears key.2.2 = true)
    (e : Location × NodeRow) :
    Keeps (fun db : Db => db.nodeStates.get? key = none) (copyRow K run source dest f e) := by
  rw [copyRow]
  by_cases hce : f.clears e.1 = true
  · rw [if_pos hce]
    exact .ok _
  · rw [if_neg hce]
    refine Keeps.andThen (.stmt fun db _ db' hk h => ?_) fun _ =>
      keeps_copyRest _ _ _ _ (fun t => t.get? key = none) _
    split_ifs at h
    cases h
    refine (HashMap.get?_insert_ne _ _ fun hkey => ?_).trans hk
    rw [hkey] at hcl
    exact hce hcl

end Sql

namespace SqliteStore

open Sql

theorem copyCall_none (st : SqliteStore) (target source : RunAttempt) {f : NodeCopyFilter}
    {loc : Location} (hcl : f.clears loc = true)
    (h : st.state.db.nodeStates.get? (target.1, (target.2 : Int), loc) = none) :
    (st.copyCall target source f).2.state.db.nodeStates.get?
      (target.1, (target.2 : Int), loc) = none := by
  have hk : Keeps (fun db : Db => db.nodeStates.get? (target.1, (target.2 : Int), loc) = none)
      (getConn.andThen fun _ => (Prog.lift (toI32 source.2)).andThen fun i =>
        (Prog.lift (toI32 target.2)).andThen fun dest =>
          copyNodeStatesProg st.crates target.1 i dest f) :=
    Keeps.andThen (.stmt fun _ _ _ h hr => by cases hr; exact h) fun _ =>
      (Keeps.lift _).andThen fun _ => (Keeps.lift _).andThen fun _ =>
        Keeps.mapError (Keeps.transaction ((Keeps.query _).andThen fun _ =>
          .each fun e _ => keeps_copyRow_none hcl e)) _
  exact hk (st.faults 0) ⟨st.state.db, 0⟩ h

instance : RestartTaskState SqliteStore where
  loadWorkflowRunState st r := ((readWorkflowRun st.state.db r).map fun _ => (), st)
  erroredLocations st r := (st.state.summary r).map (·.erroredLocations)
  hasNode st r loc := st.state.db.nodeStates.get? (r.1, (r.2 : Int), loc) ≠ none
  copy_same h st target source := by
    change copyCall _ _ _ _ = copyCall _ _ _ _
    unfold copyCall
    rw [SqliteRuntimeState.copyNodeStatesFrom_congr h]
  hasNode_copied {st st' target source f loc} hr hc hs hcl := by
    obtain ⟨row, hs⟩ := Option.ne_none_iff_exists'.1 hs
    rw [copyCall_row hr hc hs hcl]
    exact nofun
  not_hasNode_copied {st st' target source f loc} hc ht hcl := by
    have h := copyCall_none st target source hcl (not_not.1 ht)
    change st.copyCall target source f = (.ok (), st') at hc
    rw [hc] at h
    exact not_not.2 h

end SqliteStore

/-- Filters may be merged in any order and more than once, so that a restart in either store does
not depend on the order of its locations; and what a merged filter retains is what all of its
parts retain. -/
theorem merge_in_any_order :
    (∀ f g : NodeCopyFilter, (f.merge g).Same (g.merge f)) ∧
    (∀ f g h : NodeCopyFilter, ((f.merge g).merge h).Same (f.merge (g.merge h))) ∧
    (∀ f : NodeCopyFilter, (f.merge f).Same f) ∧
    (RestartsInAnyOrder InMemoryRuntimeState ∧ RestartsInAnyOrder SqliteStore) ∧
    RetainsAsEach InMemoryRuntimeState ∧ RetainsAsEach SqliteStore :=
  ⟨NodeCopyFilter.merge_comm, NodeCopyFilter.merge_assoc, NodeCopyFilter.merge_self,
    ⟨restartsInAnyOrder, restartsInAnyOrder⟩, retainsAsEach, retainsAsEach⟩

end Tierkreis
