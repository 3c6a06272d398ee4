import Tierkreis.Restart.Numbering
import Mathlib.Data.List.Permutation

/-!
# Root inputs

In memory `load_inputs` reads the entry of its attempt. In SQLite it reads every
input row of the run, whatever its attempt and its location.
-/

namespace Tierkreis

open Lib Lib.Run Sql

namespace Sql

/-- The input rows of a run, with their names. -/
def inputsOfRun (db : Db) (run : Uuid) : List (String × AssetRow) :=
  (db.inputs.toList.filter fun e => e.1.1 == run).flatMap fun e => e.2.toList

/-- One row, with its name. -/
def readInput (K : Crates) (e : String × AssetRow) : Result (String × AssetSpec) :=
  (e.2.toSpec K).map fun spec => (e.1, spec)

/-- Read input rows in the order in which the database returns them. -/
def readWorkflowRunInputs (K : Crates) (rows : List (String × AssetRow)) : Result Specs :=
  (rows.mapM (readInput K)).map HashMap.ofList

theorem mem_inputsOfRun {db : Db} {run : Uuid} {name : String} {row : AssetRow} :
    (name, row) ∈ inputsOfRun db run ↔
      ∃ i loc, (Db.rowsAt db.inputs (run, i, loc)).get? name = some row := by
  simp only [inputsOfRun, List.mem_flatMap, List.mem_filter, beq_iff_eq]
  constructor
  · rintro ⟨⟨⟨x, i, loc⟩, rows⟩, ⟨hm, rfl⟩, hrow⟩
    refine ⟨i, loc, ?_⟩
    rw [Db.rowsAt, HashMap.get?_eq_some_iff.2 hm]
    exact HashMap.get?_eq_some_iff.2 hrow
  · rintro ⟨i, loc, hrow⟩
    cases hrows : db.inputs.get? (run, i, loc) with
    | none =>
      rw [Db.rowsAt, hrows] at hrow
      cases hrow
    | some rows =>
      rw [Db.rowsAt, hrows] at hrow
      exact ⟨_, ⟨HashMap.get?_eq_some_iff.1 hrows, rfl⟩, HashMap.get?_eq_some_iff.1 hrow⟩

variable {K : Crates} {specs : Specs}

/-- The row is of one of the inputs, and reads back as it. -/
def Agrees (K : Crates) (specs : Specs) (e : String × AssetRow) : Prop :=
  ∃ spec, specs.get? e.1 = some spec ∧ e.2.toSpec K = .ok spec

theorem readInput_eq_ok {e : String × AssetRow} {y : String × AssetSpec} :
    readInput K e = .ok y ↔ e.1 = y.1 ∧ e.2.toSpec K = .ok y.2 := by
  unfold readInput
  cases hr : e.2.toSpec K with
  | error f => simp [Except.map]
  | ok spec => simp [Except.map, Prod.ext_iff]

theorem readWorkflowRunInputs_of_agrees {rows : List (String × AssetRow)}
    (h : ∀ e ∈ rows, Agrees K specs e)
    (hc : ∀ name spec, specs.get? name = some spec → name ∈ rows.map Prod.fst) :
    ∃ specs', readWorkflowRunInputs K rows = .ok specs' ∧
      ∀ name, specs'.get? name = specs.get? name := by
  have hread : ∃ ys, List.Forall₂ (fun e y => readInput K e = .ok y) rows ys ∧
      (∀ y ∈ ys, specs.get? y.1 = some y.2) ∧ ys.map Prod.fst = rows.map Prod.fst := by
    clear hc
    induction rows with
    | nil => exact ⟨[], .nil, fun y hy => (by cases hy), rfl⟩
    | cons e rows ih =>
      rw [List.forall_mem_cons] at h
      obtain ⟨⟨spec, hs, hr⟩, h⟩ := h
      obtain ⟨ys, hys, hy, hfst⟩ := ih h
      exact ⟨(e.1, spec) :: ys, .cons (readInput_eq_ok.2 ⟨rfl, hr⟩) hys,
        List.forall_mem_cons.2 ⟨hs, hy⟩, congrArg (e.1 :: ·) hfst⟩
  obtain ⟨ys, hys, hy, hfst⟩ := hread
  refine ⟨.ofList ys, by rw [readWorkflowRunInputs, mapM_of_forall₂ hys]; rfl, fun name => ?_⟩
  by_cases hn : name ∈ ys.map Prod.fst
  · exact HashMap.get?_ofList_of_forall hy hn
  · rw [HashMap.ofList, HashMap.get?_ofList_cons_notMem hn, HashMap.get?_empty]
    cases hs : specs.get? name with
    | none => rfl
    | some spec => exact absurd (hfst ▸ hc name spec hs) hn

/-- The row that comes last is the one that is read under its name. -/
theorem agrees_of_readWorkflowRunInputs {rows : List (String × AssetRow)} {e : String × AssetRow}
    {specs' : Specs} (h : readWorkflowRunInputs K (rows ++ [e]) = .ok specs')
    (hs : specs'.get? e.1 = specs.get? e.1) : Agrees K specs e := by
  unfold readWorkflowRunInputs at h
  cases hm : (rows ++ [e]).mapM (readInput K) with
  | error f =>
    rw [hm] at h
    cases h
  | ok ys =>
    rw [hm] at h
    cases h
    have hlast := List.forall₂_drop_append ys rows [e] (mapM_eq_ok hm).flip
    obtain ⟨y, u, hy, hu, hd⟩ := List.forall₂_cons_right_iff.1 hlast
    obtain rfl := List.forall₂_nil_right_iff.1 hu
    obtain ⟨hfst, hr⟩ := readInput_eq_ok.1 hy
    rw [← List.take_append_drop rows.length ys, hd, hfst, HashMap.get?_ofList_concat] at hs
    exact ⟨y.2, hfst ▸ hs.symm, hr⟩

/-- The rows of a run read back as `specs` in every order when they all agree with it. -/
theorem readWorkflowRunInputs_iff {rows : List (String × AssetRow)}
    (hc : ∀ name spec, specs.get? name = some spec → name ∈ rows.map Prod.fst) :
    (∀ rows', rows'.Perm rows → ∃ specs', readWorkflowRunInputs K rows' = .ok specs' ∧
        ∀ name, specs'.get? name = specs.get? name) ↔
      ∀ e ∈ rows, Agrees K specs e := by
  constructor
  · intro h e he
    obtain ⟨s, t, rfl⟩ := List.append_of_mem he
    have hp : (s ++ t ++ [e]).Perm (s ++ e :: t) :=
      (List.perm_append_singleton e _).trans List.perm_middle.symm
    obtain ⟨specs', hr, hs⟩ := h _ hp
    exact agrees_of_readWorkflowRunInputs hr (hs e.1)
  · intro h rows' hp
    exact readWorkflowRunInputs_of_agrees (fun e he => h e (hp.mem_iff.1 he))
      fun name spec hs => (hp.map Prod.fst).mem_iff.2 (hc name spec hs)

end Sql

namespace SqliteWithMetadata

/-- The root inputs of an attempt are among the input rows of its run. -/
theorem Recorded.name_mem {p : SqliteWithMetadata × Ledger} (h : Recorded p) {r : RunAttempt}
    {record : AttemptRecord} (hr : p.2.record? r = some record) {name : String} {spec : AssetSpec}
    (hs : record.inputs.get? name = some spec) :
    name ∈ (inputsOfRun p.1.state.db r.1).map Prod.fst := by
  have hrow := (h.entry r record hr).1 name
  rw [hs, Option.map_some] at hrow
  exact List.mem_map.2 ⟨_, mem_inputsOfRun.2 ⟨_, _, hrow⟩, rfl⟩

end SqliteWithMetadata

/-- In memory an attempt always has the inputs it was made with. In SQLite it has them,
whatever the order of the rows, exactly when every input that is stored for the run, at any
location of any attempt, has the name of one of them and is stored as that one. -/
theorem loadInputs_iff (K : Crates) (workflowNames : HashMap Uuid (Option String))
    (calls : List HistoryCall) (r : RunAttempt) (record : AttemptRecord) :
    (Along InMemoryStore.step InMemoryStore.Allowed (InMemoryStore.empty, fun _ => []) calls →
      (calls.foldl InMemoryStore.step (InMemoryStore.empty, fun _ => [])).2.record? r =
        some record →
      (calls.foldl InMemoryStore.step (InMemoryStore.empty, fun _ => [])).1.loadInputs r =
        .ok record.inputs) ∧
    (Along (SqliteWithMetadata.step K) SqliteWithMetadata.Allowed
        (SqliteWithMetadata.empty workflowNames, fun _ => []) calls →
      (calls.foldl (SqliteWithMetadata.step K)
        (SqliteWithMetadata.empty workflowNames, fun _ => [])).2.record? r = some record →
      let db := (calls.foldl (SqliteWithMetadata.step K)
        (SqliteWithMetadata.empty workflowNames, fun _ => [])).1.state.db
      (∀ rows, rows.Perm (inputsOfRun db r.1) → ∃ specs, readWorkflowRunInputs K rows = .ok specs ∧
          ∀ name, specs.get? name = record.inputs.get? name) ↔
        ∀ i loc name row, (Db.rowsAt db.inputs (r.1, i, loc)).get? name = some row →
          ∃ spec, record.inputs.get? name = some spec ∧ row.toSpec K = .ok spec) := by
  refine ⟨fun ha hr => ?_, fun ha hr => ?_⟩
  · have h := Along.invariant InMemoryStore.Recorded (fun p c hp hc => hp.step hc)
      InMemoryStore.recorded_empty ha
    exact h.loadInputs hr
  · have h := SqliteWithMetadata.along_recorded ha
    refine (readWorkflowRunInputs_iff fun name spec hs => h.name_mem hr hs).trans ⟨?_, ?_⟩
    · exact fun hall i loc name row hrow => hall (name, row) (mem_inputsOfRun.2 ⟨i, loc, hrow⟩)
    · rintro hall ⟨name, row⟩ he
      obtain ⟨i, loc, hrow⟩ := mem_inputsOfRun.1 he
      exact hall i loc name row hrow

/-- The root has an input `x`, and so has the graph of an `Eval` node, with a `y` beside it. -/
def evalInputs : List HistoryCall :=
  [.newRun 0 0 0 (.ofList [("x", ⟨.memory, "s", 1⟩)]) ∅,
    .write (0, 0) 1 (.nodeEvents [⟨Location.root.withNode 0, none, .running (some (.evalling
      (.ofList [("x", ⟨.memory, "s", 2⟩), ("y", ⟨.memory, "s", 3⟩)])))⟩])]

theorem along_evalInputs : Along (SqliteWithMetadata.step .zeroFill) SqliteWithMetadata.Allowed
    (SqliteWithMetadata.empty (.ofList [(0, none)]), fun _ => []) evalInputs := by
  refine ⟨⟨trivial, by decide +kernel⟩, ⟨fun e he => ?_, show 0 < _ by decide +kernel⟩, trivial⟩
  rw [List.mem_singleton.1 he]
  decide

theorem loadInputs_iff_evalInputs :
    (evalInputs.foldl InMemoryStore.step (InMemoryStore.empty, fun _ => [])).1.loadInputs (0, 0) =
        .ok (.ofList [("x", ⟨.memory, "s", 1⟩)]) ∧
      ∃ rows, rows.Perm (inputsOfRun (evalInputs.foldl (SqliteWithMetadata.step .zeroFill)
          (SqliteWithMetadata.empty (.ofList [(0, none)]), fun _ => [])).1.state.db 0) ∧
        ¬ ∃ specs, readWorkflowRunInputs .zeroFill rows = .ok specs ∧
          ∀ name, specs.get? name = HashMap.get? (.ofList [("x", ⟨.memory, "s", 1⟩)]) name := by
  have h := loadInputs_iff .zeroFill (.ofList [(0, none)]) evalInputs (0, 0)
    ⟨0, .ofList [("x", ⟨.memory, "s", 1⟩)], ∅⟩
  refine ⟨h.1 ⟨⟨trivial, fun _ => rfl⟩, ⟨fun e he => ?_, by decide +kernel⟩, trivial⟩ rfl, ?_⟩
  · rw [List.mem_singleton.1 he]
    decide
  · by_contra hall
    have hall : ∀ rows, rows.Perm (inputsOfRun (evalInputs.foldl (SqliteWithMetadata.step .zeroFill)
          (SqliteWithMetadata.empty (.ofList [(0, none)]), fun _ => [])).1.state.db 0) →
        ∃ specs, readWorkflowRunInputs .zeroFill rows = .ok specs ∧
          ∀ name, specs.get? name = HashMap.get? (.ofList [("x", ⟨.memory, "s", 1⟩)]) name := by
      intro rows hp
      by_contra hn
      exact hall ⟨rows, hp, hn⟩
    obtain ⟨spec, hs, -⟩ := (h.2 along_evalInputs rfl).1 hall 0
      (Location.root.withNode 0) "y" _ (by decide +kernel : _ = some (AssetRow.ofSpec ⟨.memory, "s", 3⟩))
    cases hs

/-- Whatever the order of its rows, the attempt of `evalInputs` has an input too many. -/
theorem not_loadInputs :
    let start : SqliteWithMetadata × _ :=
      (SqliteWithMetadata.empty (.ofList [(0, none)]), fun _ => [])
    let reached := evalInputs.foldl (SqliteWithMetadata.step .zeroFill) start
    Along (SqliteWithMetadata.step .zeroFill) SqliteWithMetadata.Allowed start evalInputs ∧
      ∃ record, reached.2.record? (0, 0) = some record ∧
        ¬ ∃ rows, rows.Perm (inputsOfRun reached.1.state.db 0) ∧
          ∃ specs, readWorkflowRunInputs .zeroFill rows = .ok specs ∧
            ∀ name, specs.get? name = record.inputs.get? name := by
  refine ⟨along_evalInputs, ⟨0, .ofList [("x", ⟨.memory, "s", 1⟩)], ∅⟩, rfl, ?_⟩
  rintro ⟨rows, hp, specs, hr, hs⟩
  have hno : ∀ rows ∈ (inputsOfRun (evalInputs.foldl (SqliteWithMetadata.step .zeroFill)
      (SqliteWithMetadata.empty (.ofList [(0, none)]), fun _ => [])).1.state.db 0).permutations',
      ((readWorkflowRunInputs .zeroFill rows).toOption.bind fun specs => specs.get? "y").isSome := by
    decide +kernel
  have hy := hno rows (List.mem_permutations'.2 hp)
  rw [hr] at hy
  simp [Except.toOption, hs "y"] at hy
  cases hy

end Tierkreis
