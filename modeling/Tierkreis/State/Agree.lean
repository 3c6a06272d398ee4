import Tierkreis.State.InMemory
import Tierkreis.State.Batch

/-!
# Where the two stores agree on a node

`RowAgrees` relates the state of a node in memory to its row and its outputs in
the database. What one event does to the node keeps the relation when the event
is one that the upsert folds as the in-memory store does (`EventAgrees`): the
column rules differ on names, on empty handles, on pauses, on updates of nodes
that are running already, and on repeated completions and errors.
-/

namespace Tierkreis

open Lib Sql

/-- Equal results of a read, up to the values of times and the order of map entries. -/
structure NodeState.Same (s t : NodeState) : Prop where
  name : t.name = s.name
  scheduledTime : t.scheduledTime.isSome = s.scheduledTime.isSome
  queuedTime : t.queuedTime.isSome = s.queuedTime.isSome
  pausedTime : t.pausedTime.isSome = s.pausedTime.isSome
  unpausedTime : t.unpausedTime.isSome = s.unpausedTime.isSome
  runningTime : t.runningTime.isSome = s.runningTime.isSome
  completeTime : t.completeTime.isSome = s.completeTime.isSome
  cancelledTime : t.cancelledTime.isSome = s.cancelledTime.isSome
  errorTime : t.errorTime.isSome = s.errorTime.isSome
  outputs : t.outputs.isSome = s.outputs.isSome ∧
    ∀ port, (t.outputs.bind fun o => o.get? port) = s.outputs.bind fun o => o.get? port
  cond : t.cond = s.cond
  loopIndex : t.loopIndex = s.loopIndex
  mapCompleted : t.mapCompleted = s.mapCompleted
  error : t.error = s.error
  errorDetail : t.errorDetail = s.errorDetail
  handle : t.handle = s.handle
  executionContext : t.executionContext = s.executionContext

/-- Map bits in memory, and their size and blob in the database. -/
def MapAgrees (m : Option (List Bool)) (size : Option Int) (bytes : Option (List Byte)) : Prop :=
  match m with
  | none => size = none ∧ bytes = none
  | some m => size = some (m.length : Int) ∧ ∃ b, bytes = some b ∧ (fromSlice b).take m.length = m

/-- Outputs in memory, and the output rows in the database. -/
def OutputsAgree (K : Crates) (complete : Bool) (outputs : Option Specs)
    (rows : HashMap String AssetRow) : Prop :=
  if complete then
    ∃ o, outputs = some o ∧ ∀ port, rows.get? port = (o.get? port).map AssetRow.ofSpec ∧
      ∀ spec, o.get? port = some spec → (AssetRow.ofSpec spec).toSpec K = .ok spec
  else outputs = none ∧ ∀ port, rows.get? port = none

structure RowAgrees (K : Crates) (s : NodeState) (row : NodeRow)
    (rows : HashMap String AssetRow) : Prop where
  name : row.name = s.name
  scheduledTime : row.scheduledTime.isSome = s.scheduledTime.isSome
  queuedTime : row.queuedTime.isSome = s.queuedTime.isSome
  pausedTime : row.pausedTime.isSome = s.pausedTime.isSome
  unpausedTime : row.unpausedTime.isSome = s.unpausedTime.isSome
  runningTime : row.runningTime.isSome = s.runningTime.isSome
  completeTime : row.completeTime.isSome = s.completeTime.isSome
  cancelledTime : row.cancelledTime.isSome = s.cancelledTime.isSome
  errorTime : row.errorTime.isSome = s.errorTime.isSome
  outputs : OutputsAgree K s.completeTime.isSome s.outputs rows
  cond : row.cond = s.cond
  loopIndex : row.loopIndex = s.loopIndex.map Int.ofNat
  mapCompleted : MapAgrees s.mapCompleted row.mapSize row.mapCompleted
  error : row.error = s.error
  errorDetail : row.errorDetail = s.errorDetail
  handle : row.handle = s.handle
  executionContext : row.executionContext = s.executionContext
  /-- Only a node that runs has a condition or map bits. -/
  idle : s.runningTime = none → s.cond = none ∧ s.mapCompleted = none
  /-- Only a node with an error has its texts. -/
  errorTexts : (s.errorTime = none → s.error = none ∧ s.errorDetail = none) ∧
    (s.errorTime ≠ none → s.error ≠ none)

theorem RowAgrees.default (K : Crates) : RowAgrees K {} {} ∅ where
  name := rfl
  scheduledTime := rfl
  queuedTime := rfl
  pausedTime := rfl
  unpausedTime := rfl
  runningTime := rfl
  completeTime := rfl
  cancelledTime := rfl
  errorTime := rfl
  outputs := ⟨rfl, fun _ => rfl⟩
  cond := rfl
  loopIndex := rfl
  mapCompleted := ⟨rfl, rfl⟩
  error := rfl
  errorDetail := rfl
  handle := rfl
  executionContext := rfl
  idle _ := ⟨rfl, rfl⟩
  errorTexts := ⟨fun _ => ⟨rfl, rfl⟩, fun h => absurd rfl h⟩

/-! ## Reading -/

namespace Sql

theorem toU32_natCast (n : Nat) : toU32 (n : Int) = .ok n := by
  simp [toU32]

/-- Rows that all parse are read one by one. -/
theorem toSpecs_eq {K : Crates} {rows : HashMap String AssetRow}
    (h : ∀ port row, rows.get? port = some row → ∃ spec, row.toSpec K = .ok spec) :
    ∃ specs, AssetRow.toSpecs K rows = .ok specs ∧
      ∀ port, specs.get? port = (rows.get? port).bind fun row => (row.toSpec K).toOption := by
  have hnone : (rows.toList.findSome? fun e => e.2.parseError? K) = none := by
    rw [List.findSome?_eq_none_iff]
    intro e he
    obtain ⟨spec, hs⟩ := h e.1 e.2 (HashMap.get?_eq_some_iff.2 he)
    rw [AssetRow.parseError?, hs]
  refine ⟨rows.filterMap fun _ row => (row.toSpec K).toOption, ?_, fun port => ?_⟩
  · unfold AssetRow.toSpecs
    rw [hnone]
  · rw [HashMap.get?_filterMap]

end Sql

/-- Map bits that agree are read back. -/
theorem MapAgrees.read {m : Option (List Bool)} {row : NodeRow}
    (h : MapAgrees m row.mapSize row.mapCompleted) : readMapCompleted row = .ok m := by
  unfold MapAgrees at h
  unfold readMapCompleted
  split at h
  · rw [h.2]
  · obtain ⟨hsize, b, hb, ht⟩ := h
    rw [hb, hsize]
    simp [okOr, toU32_natCast, bind, Except.bind, pure, Except.pure, ht]

/-- A row that agrees with a state reads back as that state. -/
theorem RowAgrees.toNodeState {K : Crates} {s : NodeState} {row : NodeRow}
    {rows : HashMap String AssetRow} (h : RowAgrees K s row rows) :
    ∃ t, toNodeState K row rows = .ok t ∧ s.Same t := by
  have hloop : readLoopIndex row = .ok s.loopIndex := by
    unfold readLoopIndex
    rw [h.loopIndex]
    cases s.loopIndex with
    | none => rfl
    | some i => simp [toU32_natCast, Except.map]
  have hmap := h.mapCompleted.read
  have hout : ∃ o, readOutputs K row rows = .ok o ∧ o.isSome = s.outputs.isSome ∧
      ∀ port, (o.bind fun o => o.get? port) = s.outputs.bind fun o => o.get? port := by
    have ho := h.outputs
    unfold OutputsAgree at ho
    unfold readOutputs
    rw [h.completeTime]
    split at ho
    · rename_i hc
      obtain ⟨o, hs, hp⟩ := ho
      obtain ⟨specs, he, hg⟩ := toSpecs_eq (K := K) (by
        intro port row hr
        rw [(hp port).1] at hr
        obtain ⟨spec, hspec, rfl⟩ := Option.map_eq_some_iff.1 hr
        exact ⟨spec, (hp port).2 spec hspec⟩)
      refine ⟨some specs, by rw [if_pos hc, he]; rfl, by rw [hs]; rfl, fun port => ?_⟩
      rw [hs]
      simp only [Option.bind_some, hg, (hp port).1]
      cases hspec : o.get? port with
      | none => rfl
      | some spec => simp [(hp port).2 spec hspec, Except.toOption]
    · rename_i hc
      refine ⟨none, by rw [if_neg hc], by rw [ho.1], fun port => by rw [ho.1]⟩
  obtain ⟨o, hro, hsome, hports⟩ := hout
  refine ⟨_, by
    unfold Sql.toNodeState
    rw [hloop, hmap, hro]
    rfl, ?_⟩
  exact
    { name := h.name, scheduledTime := h.scheduledTime, queuedTime := h.queuedTime
      pausedTime := h.pausedTime, unpausedTime := h.unpausedTime, runningTime := h.runningTime
      completeTime := h.completeTime, cancelledTime := h.cancelledTime, errorTime := h.errorTime
      outputs := ⟨hsome, hports⟩, cond := h.cond, loopIndex := rfl, mapCompleted := rfl
      error := h.error, errorDetail := h.errorDetail, handle := h.handle
      executionContext := h.executionContext }

/-! ## Map bits -/

namespace Sql

theorem byteBits_or (x y : Byte) : byteBits (x ||| y) = bitorAssign (byteBits x) (byteBits y) := by
  refine List.ext_getElem? fun i => ?_
  rw [getElem?_bitorAssign]
  by_cases h : i < 8 <;> simp [byteBits, h]

theorem bitorAssign_append : ∀ {u v u' v' : List Bool}, u.length = u'.length →
    bitorAssign (u ++ v) (u' ++ v') = bitorAssign u u' ++ bitorAssign v v'
  | [], v, [], v', _ => rfl
  | x :: u, v, y :: u', v', h => by
    simp only [List.cons_append, bitorAssign]
    rw [bitorAssign_append (by simpa using h)]

theorem fromSlice_orBytes : ∀ xs ys : List Byte,
    fromSlice (orBytes xs ys) = bitorAssign (fromSlice xs) (fromSlice ys)
  | [], ys => by cases ys <;> rfl
  | x :: xs, [] => by
    rw [show orBytes (x :: xs) [] = x :: xs from rfl]
    cases fromSlice (x :: xs) <;> rfl
  | x :: xs, y :: ys => by
    simp only [orBytes, fromSlice, List.flatMap_cons]
    rw [byteBits_or, bitorAssign_append (by simp [byteBits])]
    exact congrArg _ (fromSlice_orBytes xs ys)

/-- Or'ing a long enough blob into stored bits is or'ing its bits into them. -/
theorem take_orBytes {new old : List Byte} {bits m : List Bool}
    (hn : (fromSlice new).take bits.length = bits) (ho : (fromSlice old).take m.length = m)
    (hl : m.length ≤ bits.length) :
    (fromSlice (orBytes new old)).take m.length = bitorAssign m bits := by
  rw [fromSlice_orBytes]
  refine List.ext_getElem? fun i => ?_
  rw [getElem?_bitorAssign]
  by_cases hi : i < m.length
  · have hb : i < bits.length := by omega
    have h₁ : (fromSlice new)[i]? = some bits[i] := by
      rw [← List.getElem?_eq_getElem hb, ← congrArg (fun l : List Bool => l[i]?) hn]
      simp [hb]
    have h₂ : (fromSlice old)[i]? = some m[i] := by
      rw [← List.getElem?_eq_getElem hi, ← congrArg (fun l : List Bool => l[i]?) ho]
      simp [hi]
    simp [hi, hb, getElem?_bitorAssign, h₁, h₂, Bool.or_comm]
  · simp [hi]

theorem bitorAssign_replicate : ∀ (m : List Bool) (n : Nat),
    bitorAssign m (List.replicate n false) = m
  | [], _ => by cases ‹Nat› <;> rfl
  | _ :: _, 0 => rfl
  | x :: m, n + 1 => by simp [bitorAssign, List.replicate_succ, bitorAssign_replicate m n]

end Sql

/-! ## Output rows -/

namespace Sql

def addRow (rows : HashMap String AssetRow) (o : String × AssetSpec) : HashMap String AssetRow :=
  if rows.contains o.1 then rows else rows.insert o.1 (.ofSpec o.2)

theorem get?_addRow (rows : HashMap String AssetRow) (o : String × AssetSpec) (port : String) :
    (addRow rows o).get? port =
      if port = o.1 then (rows.get? port).or (some (.ofSpec o.2)) else rows.get? port := by
  unfold addRow HashMap.contains
  by_cases hp : port = o.1
  · subst hp
    cases h : rows.get? o.1 <;> simp [h]
  · rw [if_neg hp]
    split_ifs
    · rfl
    · rw [HashMap.get?_insert_ne _ _ hp]

/-- Outputs fill up the names that have no row yet. -/
theorem get?_addRows {l : List (String × AssetSpec)} (hl : (l.map Prod.fst).Nodup) :
    ∀ (rows : HashMap String AssetRow) (port : String),
      (∀ spec, (port, spec) ∈ l →
        (l.foldl addRow rows).get? port = (rows.get? port).or (some (.ofSpec spec))) ∧
      ((∀ spec, (port, spec) ∉ l) → (l.foldl addRow rows).get? port = rows.get? port) := by
  induction l with
  | nil => exact fun rows port => ⟨fun _ h => (by cases h), fun _ => rfl⟩
  | cons o l ih =>
    intro rows port
    rw [List.map_cons, List.nodup_cons] at hl
    obtain ⟨h₁, h₂⟩ := ih hl.2 (addRow rows o) port
    rw [get?_addRow] at h₁ h₂
    rw [List.foldl_cons]
    constructor
    · intro spec hs
      rcases List.mem_cons.1 hs with rfl | hs
      · rw [h₂ fun spec' hs' => hl.1 (List.mem_map.2 ⟨_, hs', rfl⟩), if_pos rfl]
      · have hne : port ≠ o.1 := fun e => hl.1 (List.mem_map.2 ⟨_, hs, e⟩)
        rw [h₁ spec hs, if_neg hne]
    · intro hn
      have hne : port ≠ o.1 := fun e => hn o.2 (by rw [e]; exact .head _)
      rw [h₂ fun spec hs => hn spec (.tail _ hs), if_neg hne]

/-- The outputs of an event, as rows next to those stored. -/
def addOutputs (rows : HashMap String AssetRow) (e : NodeEvent) : HashMap String AssetRow :=
  match e.status with
  | .complete outputs => outputs.toList.foldl addRow rows
  | _ => rows

theorem get?_addOutputs_complete {rows : HashMap String AssetRow} {e : NodeEvent} {outputs : Specs}
    (he : e.status = .complete outputs) (port : String) :
    (addOutputs rows e).get? port =
      (rows.get? port).or ((outputs.get? port).map AssetRow.ofSpec) := by
  unfold addOutputs
  rw [he]
  obtain ⟨h₁, h₂⟩ := get?_addRows outputs.nodup_toList rows port
  cases ho : outputs.get? port with
  | none =>
    rw [h₂ fun spec hs => by rw [HashMap.get?_eq_some_iff.2 hs] at ho; cases ho]
    simp
  | some spec => exact h₁ spec (HashMap.get?_eq_some_iff.1 ho)

end Sql

/-! ## Upserts -/
namespace Sql

/-- A row that is new keeps its pause times; apart from these, an upsert is the same with
an empty row in place. -/
theorem upsert_eq (old : Option NodeRow) {new : NodeRow}
    (h : new.pausedTime = none ∧ new.unpausedTime = none) :
    NodeRow.upsert old new = (old.getD {}).onConflict new := by
  cases old with
  | some old => rfl
  | none =>
    cases new
    simp_all [NodeRow.upsert, NodeRow.onConflict]

end Sql

/-! ## One event -/

/-- A status that the upsert folds as the in-memory store does, for a node in state `s`
that is `known` when it has had an event before. -/
def StatusAgrees (K : Crates) (known : Bool) (s : NodeState) : NodeStatus → Prop
  | .queued handle => handle ≠ none ∨ s.handle = none
  | .paused => known = false ∨ s.pausedTime ≠ none
  | .running (some (.switching _)) => s.runningTime = none ∨ s.cond ≠ none
  | .running (some (.looping index _)) => index < 2 ^ 31
  | .running (some (.mapStarted inputSets)) =>
    inputSets.length < 2 ^ 31 ∧
      (s.runningTime = none ∨ ∃ m, s.mapCompleted = some m ∧ m.length ≤ inputSets.length)
  | .running (some (.mapElemComplete bits)) => ∃ m, s.mapCompleted = some m ∧ m.length ≤ bits.length
  | .complete outputs =>
    if s.completeTime = none then
      ∀ port spec, outputs.get? port = some spec → (AssetRow.ofSpec spec).toSpec K = .ok spec
    else ∀ port, outputs.get? port ≠ none → ∃ o, s.outputs = some o ∧ o.get? port ≠ none
  | .error _ detail => s.errorTime = none ∨ s.errorDetail ≠ none ∨ detail = none
  | _ => True

theorem StatusAgrees.complete {K : Crates} {known : Bool} {s : NodeState} {outputs : Specs}
    (hc : s.completeTime = none)
    (h : ∀ port spec, outputs.get? port = some spec → (AssetRow.ofSpec spec).toSpec K = .ok spec) :
    StatusAgrees K known s (.complete outputs) := by
  rw [StatusAgrees, if_pos hc]
  exact h

/-- The first name of a node is its last. -/
def EventAgrees (K : Crates) (known : Bool) (s : NodeState) (e : NodeEvent) : Prop :=
  (e.name = none ∨ s.name = none ∨ s.name = e.name) ∧ StatusAgrees K known s e.status

section Event

variable {K : Crates} {s : NodeState} {row : NodeRow} {rows : HashMap String AssetRow}

theorem RowAgrees.rename (h : RowAgrees K s row rows) {name : Option String}
    (hn : name = none ∨ s.name = none ∨ s.name = name) :
    RowAgrees K (InMemory.rename s name) { row with name := coalesce row.name name } rows := by
  have hname : coalesce row.name name = if name.isSome then name else s.name := by
    rw [h.name]
    rcases hn with hn | hn | hn
    · simp [hn]
    · rw [hn]; cases name <;> rfl
    · rw [hn]; cases name <;> rfl
  cases name with
  | none => simpa [InMemory.rename] using h
  | some n => exact { h with name := hname }

theorem RowAgrees.scheduled (h : RowAgrees K s row rows) (now now' : Time) (ctx : Option String) :
    RowAgrees K
      { s with
        scheduledTime := InMemory.setOnce s.scheduledTime now
        executionContext := if ctx.isSome then ctx else s.executionContext }
      { row with
        scheduledTime := coalesce row.scheduledTime (some now')
        executionContext := coalesce ctx row.executionContext } rows :=
  { h with
    scheduledTime := by simp
    executionContext := by rw [h.executionContext]; cases ctx <;> rfl }

theorem RowAgrees.queued (h : RowAgrees K s row rows) (now now' : Time)
    {handle : Option TaskHandle} (hs : handle ≠ none ∨ s.handle = none) :
    RowAgrees K
      { s with handle := handle, queuedTime := InMemory.setOnce s.queuedTime now }
      { row with
        queuedTime := coalesce row.queuedTime (some now')
        handle := coalesce handle row.handle } rows :=
  { h with
    queuedTime := by simp
    handle := by
      rw [h.handle]
      cases handle with
      | none => simpa using hs
      | some _ => rfl }

theorem RowAgrees.paused (h : RowAgrees K s row rows) (now : Time) {t : Option Time}
    (ht : t.isSome = true) :
    RowAgrees K { s with pausedTime := InMemory.setOnce s.pausedTime now }
      { row with pausedTime := t } rows :=
  { h with pausedTime := by simp [ht] }

theorem RowAgrees.running (h : RowAgrees K s row rows) (now now' : Time) :
    RowAgrees K { s with runningTime := InMemory.setOnce s.runningTime now }
      { row with runningTime := coalesce row.runningTime (some now') } rows :=
  { h with
    runningTime := by simp
    idle := fun hn => by simp [InMemory.setOnce] at hn }

theorem RowAgrees.looping (h : RowAgrees K s row rows) (now now' : Time) (index : Nat) :
    RowAgrees K
      { s with runningTime := InMemory.setOnce s.runningTime now, loopIndex := some index }
      { row with
        runningTime := coalesce row.runningTime (some now')
        loopIndex := some (index : Int) } rows :=
  { h.running now now' with loopIndex := rfl }

theorem RowAgrees.cancelled (h : RowAgrees K s row rows) (now now' : Time) :
    RowAgrees K { s with cancelledTime := InMemory.setOnce s.cancelledTime now }
      { row with cancelledTime := coalesce row.cancelledTime (some now') } rows :=
  { h with cancelledTime := by simp }

theorem RowAgrees.switching (h : RowAgrees K s row rows) (now now' : Time) (cond : Bool)
    (hs : s.runningTime = none ∨ s.cond ≠ none) :
    RowAgrees K
      (if s.runningTime.isNone then { s with runningTime := some now, cond := some cond } else s)
      { row with
        runningTime := coalesce row.runningTime (some now')
        cond := coalesce row.cond (some cond) } rows := by
  by_cases hr : s.runningTime = none
  · rw [if_pos (by rw [hr]; rfl)]
    exact { h with
      runningTime := by simp
      cond := by simp [h.cond, (h.idle hr).1]
      idle := fun hn => by simp at hn }
  · have hs := hs.resolve_left hr
    rw [if_neg (by simpa using hr)]
    exact { h with
      runningTime := by
        rw [Option.isSome_or, h.runningTime]
        simp [Option.isSome_iff_ne_none.2 hr]
      cond := by
        rw [h.cond]
        exact Option.or_of_isSome (Option.isSome_iff_ne_none.2 hs) }

theorem RowAgrees.evalling (h : RowAgrees K s row rows) (now now' : Time) :
    RowAgrees K (if s.runningTime.isNone then { s with runningTime := some now } else s)
      { row with runningTime := coalesce row.runningTime (some now') } rows := by
  have := h.running now now'
  cases hr : s.runningTime with
  | none =>
    rw [hr] at this
    exact this
  | some t =>
    rw [show ({ s with runningTime := InMemory.setOnce s.runningTime now } : NodeState) = s by
      rw [hr, InMemory.setOnce, Option.some_or, ← hr]] at this
    exact this

/-- Map bits that are merged into the stored ones. -/
theorem MapAgrees.merge (bits : List Bool) {m : List Bool} {size : Option Int}
    {blob : Option (List Byte)}
    (h : MapAgrees (some m) size blob) (hl : m.length ≤ bits.length) :
    MapAgrees (some (bitorAssign m bits)) size
      (blob.map fun b => orBytes (K.intoVec bits) b) := by
  obtain ⟨hsize, b, hb, ht⟩ := h
  refine ⟨by simpa using hsize, _, by rw [hb]; rfl, ?_⟩
  rw [length_bitorAssign]
  exact take_orBytes (K.take_fromSlice bits) ht hl

theorem RowAgrees.mapElemComplete (h : RowAgrees K s row rows) (now' : Time) {bits : List Bool}
    (hs : ∃ m, s.mapCompleted = some m ∧ m.length ≤ bits.length) :
    RowAgrees K { s with mapCompleted := s.mapCompleted.map fun m => bitorAssign m bits }
      { row with
        runningTime := coalesce row.runningTime (some now')
        mapCompleted := row.mapCompleted.map fun b => orBytes (K.intoVec bits) b } rows := by
  obtain ⟨m, hm, hl⟩ := hs
  have hr : s.runningTime ≠ none := fun hr => by simp [(h.idle hr).2] at hm
  exact { h with
    runningTime := by
      rw [Option.isSome_or, h.runningTime]
      simp [Option.isSome_iff_ne_none.2 hr]
    mapCompleted := by
      rw [hm]
      exact (hm ▸ h.mapCompleted : MapAgrees (some m) _ _).merge _ hl
    idle := fun hn => absurd hn hr }

theorem RowAgrees.mapStarted (h : RowAgrees K s row rows) (now now' : Time) {n : Nat}
    (hs : s.runningTime = none ∨ ∃ m, s.mapCompleted = some m ∧ m.length ≤ n) :
    RowAgrees K
      (if s.runningTime.isNone then
        { s with runningTime := some now, mapCompleted := some (List.replicate n false) } else s)
      { row with
        runningTime := coalesce row.runningTime (some now')
        mapSize := coalesce row.mapSize (some (n : Int))
        mapCompleted := some <|
          match row.mapCompleted with
          | none => K.intoVec (List.replicate n false)
          | some b => orBytes (K.intoVec (List.replicate n false)) b } rows := by
  by_cases hr : s.runningTime = none
  · rw [if_pos (by rw [hr]; rfl)]
    obtain ⟨hsize, hblob⟩ : row.mapSize = none ∧ row.mapCompleted = none := by
      simpa [(h.idle hr).2, MapAgrees] using h.mapCompleted
    exact { h with
      runningTime := by simp
      mapCompleted := by
        rw [hsize, hblob]
        refine ⟨by simp, _, rfl, ?_⟩
        have := K.take_fromSlice (List.replicate n false)
        rwa [List.length_replicate] at this ⊢
      idle := fun hn => by simp at hn }
  · obtain ⟨m, hm, hl⟩ := hs.resolve_left hr
    rw [if_neg (by simpa using hr)]
    have hm' := (hm ▸ h.mapCompleted : MapAgrees (some m) _ _).merge (K := K)
      (List.replicate n false) (by simpa using hl)
    obtain ⟨hsize, b, hb, ht⟩ : MapAgrees (some m) row.mapSize row.mapCompleted :=
      hm ▸ h.mapCompleted
    exact { h with
      runningTime := by
        rw [Option.isSome_or, h.runningTime]
        simp [Option.isSome_iff_ne_none.2 hr]
      mapCompleted := by
        rw [bitorAssign_replicate, hb] at hm'
        rw [hm, hb, hsize]
        rw [hsize] at hm'
        exact hm' }

theorem RowAgrees.errored (h : RowAgrees K s row rows) (now now' : Time) (error : String)
    {detail : Option String}
    (hs : s.errorTime = none ∨ s.errorDetail ≠ none ∨ detail = none) :
    RowAgrees K
      (if s.errorTime.isNone then
        { s with errorTime := some now, error := some error, errorDetail := detail } else s)
      { row with
        errorTime := coalesce row.errorTime (some now')
        error := coalesce row.error (some error)
        errorDetail := coalesce row.errorDetail detail } rows := by
  by_cases he : s.errorTime = none
  · rw [if_pos (by rw [he]; rfl)]
    obtain ⟨ht, hd⟩ := h.errorTexts.1 he
    exact { h with
      errorTime := by simp
      error := by simp [h.error, ht]
      errorDetail := by simp [h.errorDetail, hd]
      errorTexts := ⟨fun hn => by simp at hn, fun _ => by simp⟩ }
  · rw [if_neg (by simpa using he)]
    have ht := h.errorTexts.2 he
    exact { h with
      errorTime := by
        rw [Option.isSome_or, h.errorTime]
        simp [Option.isSome_iff_ne_none.2 he]
      error := by
        rw [h.error]
        exact Option.or_of_isSome (Option.isSome_iff_ne_none.2 ht)
      errorDetail := by
        rw [h.errorDetail]
        rcases hs.resolve_left he with hd | hd
        · exact Option.or_of_isSome (Option.isSome_iff_ne_none.2 hd)
        · rw [hd]; exact Option.or_none }

theorem RowAgrees.complete (h : RowAgrees K s row rows) (now now' : Time) {e : NodeEvent}
    {outputs : Specs} (he : e.status = .complete outputs)
    (hs : if s.completeTime = none then
        ∀ port spec, outputs.get? port = some spec → (AssetRow.ofSpec spec).toSpec K = .ok spec
      else ∀ port, outputs.get? port ≠ none → ∃ o, s.outputs = some o ∧ o.get? port ≠ none) :
    RowAgrees K
      (if s.completeTime.isNone then
        { s with completeTime := some now, outputs := some outputs } else s)
      { row with completeTime := coalesce row.completeTime (some now') } (addOutputs rows e) := by
  have ho := h.outputs
  unfold OutputsAgree at ho
  by_cases hc : s.completeTime = none
  · rw [if_pos (by rw [hc]; rfl)]
    rw [if_pos hc] at hs
    rw [if_neg (by simp [hc])] at ho
    exact { h with
      completeTime := by simp
      outputs := by
        refine ⟨outputs, rfl, fun port => ⟨?_, hs port⟩⟩
        rw [get?_addOutputs_complete he, ho.2 port, Option.none_or] }
  · rw [if_neg (by simpa using hc)]
    rw [if_neg hc] at hs
    have hc' := Option.isSome_iff_ne_none.2 hc
    rw [if_pos hc'] at ho
    obtain ⟨o, hso, hp⟩ := ho
    exact { h with
      completeTime := by
        rw [Option.isSome_or, h.completeTime]
        simp [hc']
      outputs := by
        unfold OutputsAgree
        rw [if_pos hc']
        refine ⟨o, hso, fun port => ⟨?_, (hp port).2⟩⟩
        rw [get?_addOutputs_complete he, (hp port).1]
        cases hport : o.get? port with
        | some spec => rfl
        | none =>
          cases hn : outputs.get? port with
          | none => rfl
          | some spec =>
            obtain ⟨o', ho', hne⟩ := hs port (by simp [hn])
            rw [hso] at ho'
            cases ho'
            exact absurd hport hne }

/-- The event itself fits its columns. -/
theorem EventAgrees.eventColumns {known : Bool} {s : NodeState} {e : NodeEvent}
    (h : EventAgrees K known s e) (now : Time) : ∃ new, Sql.eventColumns K now e = .ok new := by
  obtain ⟨-, h⟩ := h
  obtain ⟨loc, name, status⟩ := e
  cases status with
  | running stateUpdate =>
    cases stateUpdate with
    | none => exact ⟨_, rfl⟩
    | some u =>
      cases u with
      | looping index inputs =>
        have h : index < 2 ^ 31 := h
        exact ⟨_, by simp only [Sql.eventColumns, toI32, if_pos h]; rfl⟩
      | mapStarted inputSets =>
        have h : inputSets.length < 2 ^ 31 := h.1
        exact ⟨_, by simp only [Sql.eventColumns, toI32, if_pos h]; rfl⟩
      | _ => exact ⟨_, rfl⟩
  | _ => exact ⟨_, rfl⟩

/-- An update without map bits and without pause times, on the row it finds. -/
theorem upsert_mergeBits_eq (old : Option NodeRow) {new : NodeRow}
    (hp : new.pausedTime = none ∧ new.unpausedTime = none) (hm : new.mapCompleted = none) :
    NodeRow.upsert old (new.mergeBits (old.bind NodeRow.mapCompleted)) =
      (old.getD {}).onConflict new := by
  rw [← upsert_eq old hp]
  unfold NodeRow.mergeBits
  rw [hm]

/-- An update with map bits, on the row it finds. -/
theorem upsert_mergeBits (old : Option NodeRow) {new : NodeRow} {bits : List Byte}
    (hp : new.pausedTime = none ∧ new.unpausedTime = none) (hm : new.mapCompleted = some bits) :
    NodeRow.upsert old (new.mergeBits (old.bind NodeRow.mapCompleted)) =
      (old.getD {}).onConflict { new with
        mapCompleted := some <|
          match (old.getD {}).mapCompleted with
          | none => bits
          | some b => orBytes bits b } := by
  cases old with
  | none => 
    rw [← upsert_eq none (by exact hp)]
    unfold NodeRow.mergeBits
    rw [hm]
    cases new; simp_all
  | some old =>
    unfold NodeRow.mergeBits
    rw [hm]
    cases hb : old.mapCompleted <;> cases new <;> simp_all [NodeRow.upsert]

/-- One status, folded by both stores. -/
theorem RowAgrees.status {old : Option NodeRow} {e : NodeEvent} {new : NodeRow} {now now' : Time}
    {row : NodeRow} (hrow : { old.getD {} with name := coalesce (old.getD {}).name e.name } = row)
    (h : RowAgrees K s row rows) (ha : StatusAgrees K old.isSome s e.status)
    (hn : Sql.eventColumns K now' e = .ok new) :
    RowAgrees K (InMemory.foldStatus now e.loc s e.status).1
      (NodeRow.upsert old (new.mergeBits (old.bind NodeRow.mapCompleted))) (addOutputs rows e) := by
  obtain ⟨loc, name, status⟩ := e
  cases hrow
  cases status with
  | scheduled ctx =>
    cases hn
    rw [upsert_mergeBits_eq old ⟨rfl, rfl⟩ rfl]
    simpa [NodeRow.onConflict, InMemory.foldStatus, addOutputs] using h.scheduled now now' ctx
  | queued handle =>
    cases hn
    rw [upsert_mergeBits_eq old ⟨rfl, rfl⟩ rfl]
    simpa [NodeRow.onConflict, InMemory.foldStatus, addOutputs] using h.queued now now' ha
  | paused =>
    cases hn
    cases old with
    | none =>
      simpa [NodeRow.upsert, NodeRow.mergeBits, InMemory.foldStatus, addOutputs]
        using h.paused now (t := some now') rfl
    | some old =>
      have hp : old.pausedTime.isSome = true := by
        rw [show old.pausedTime.isSome = s.pausedTime.isSome from h.pausedTime]
        exact Option.isSome_iff_ne_none.2 (ha.resolve_left (by simp))
      simpa [NodeRow.upsert, NodeRow.onConflict, NodeRow.mergeBits, InMemory.foldStatus, addOutputs]
        using h.paused now hp
  | cancelled =>
    cases hn
    rw [upsert_mergeBits_eq old ⟨rfl, rfl⟩ rfl]
    simpa [NodeRow.onConflict, InMemory.foldStatus, addOutputs] using h.cancelled now now'
  | error error detail =>
    cases hn
    rw [upsert_mergeBits_eq old ⟨rfl, rfl⟩ rfl]
    have := h.errored now now' error ha
    simp only [InMemory.foldStatus]
    split_ifs at this ⊢ <;> simpa [NodeRow.onConflict, addOutputs] using this
  | complete outputs =>
    cases hn
    rw [upsert_mergeBits_eq old ⟨rfl, rfl⟩ rfl]
    have := h.complete now now' (e := ⟨loc, name, .complete outputs⟩) rfl ha
    simp only [InMemory.foldStatus]
    split_ifs at this ⊢ <;> simpa [NodeRow.onConflict] using this
  | running stateUpdate =>
    cases stateUpdate with
    | none =>
      cases hn
      rw [upsert_mergeBits_eq old ⟨rfl, rfl⟩ rfl]
      simpa [NodeRow.onConflict, InMemory.foldStatus, addOutputs] using h.running now now'
    | some u =>
      cases u with
      | switching cond =>
        cases hn
        rw [upsert_mergeBits_eq old ⟨rfl, rfl⟩ rfl]
        have := h.switching now now' cond ha
        simp only [InMemory.foldStatus]
        split_ifs at this ⊢ <;> simpa [NodeRow.onConflict, addOutputs] using this
      | evalling inputs =>
        cases hn
        rw [upsert_mergeBits_eq old ⟨rfl, rfl⟩ rfl]
        have := h.evalling now now'
        simp only [InMemory.foldStatus]
        split_ifs at this ⊢ <;> simpa [NodeRow.onConflict, addOutputs] using this
      | looping index inputs =>
        have ha : index < 2 ^ 31 := ha
        simp only [Sql.eventColumns, toI32, if_pos ha] at hn
        cases hn
        rw [upsert_mergeBits_eq old ⟨rfl, rfl⟩ rfl]
        have := h.looping now now' index
        simp only [InMemory.foldStatus]
        split_ifs with hi
        · simpa [NodeRow.onConflict, addOutputs] using this
        · simp only [ne_eq, not_not] at hi
          rw [← hi] at this
          simpa [NodeRow.onConflict, addOutputs] using this
      | mapStarted inputSets =>
        have hl : inputSets.length < 2 ^ 31 := ha.1
        simp only [Sql.eventColumns, toI32, if_pos hl] at hn
        cases hn
        have := h.mapStarted now now' ha.2
        rw [upsert_mergeBits _ ⟨rfl, rfl⟩ rfl]
        simp only [InMemory.foldStatus]
        cases hb : (old.getD {}).mapCompleted <;> split_ifs at this ⊢ <;>
          simpa [NodeRow.onConflict, addOutputs, hb] using this
      | mapElemComplete bits =>
        cases hn
        rw [upsert_mergeBits _ ⟨rfl, rfl⟩ rfl]
        have hm := h.mapElemComplete now' ha
        obtain ⟨m, hm', -⟩ := ha
        obtain ⟨-, b, hb, -⟩ : MapAgrees (some m) _ _ := hm' ▸ h.mapCompleted
        change (old.getD {}).mapCompleted = _ at hb
        simpa [NodeRow.onConflict, InMemory.foldStatus, addOutputs, hb] using hm

/-- One event, folded by both stores. -/
theorem RowAgrees.event {old : Option NodeRow} {e : NodeEvent} {new : NodeRow} {now' : Time}
    (now : Time) (h : RowAgrees K s (old.getD {}) rows) (ha : EventAgrees K old.isSome s e)
    (hn : Sql.eventColumns K now' e = .ok new) :
    RowAgrees K (InMemory.foldNodeEvent now s e).1
      (NodeRow.upsert old (new.mergeBits (old.bind NodeRow.mapCompleted))) (addOutputs rows e) := by
  refine (h.rename ha.1).status rfl ?_ hn
  obtain ⟨loc, name, status⟩ := e
  cases name <;> exact ha.2

end Event

end Tierkreis
