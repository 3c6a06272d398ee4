import Tierkreis.State.Atomicity
import Tierkreis.State.NodeTables

/-!
# Where a batch may be cut

A batch leaves in the database what its two parts leave, as long as no node loses
map bits, when the database takes it. When the database refuses it, none of its
node events counts, whereas a part that is taken alone leaves its own: so the two
agree only where that part says what the tables know already.
-/

namespace Tierkreis

open Lib Lib.Txn Sql

/-! ## What events give last -/

/-- The last value that some events give. -/
def lastOf {α : Type} (f : NodeEvent → Option α) (events : List NodeEvent) : Option α :=
  (events.filterMap f).getLast?

def NodeEvent.loopIndex? (e : NodeEvent) : Option Nat :=
  match e.status with
  | .running (some (.looping index _)) => some index
  | _ => none

def NodeEvent.handle? (e : NodeEvent) : Option TaskHandle :=
  match e.status with
  | .queued handle => handle
  | _ => none

def NodeEvent.executionContext? (e : NodeEvent) : Option String :=
  match e.status with
  | .scheduled executionContext => executionContext
  | _ => none

namespace Sql

/-- What a status would set for good is set already. -/
def NodeRow.Notes (row : NodeRow) (outputs : HashMap String AssetRow) : NodeStatus → Prop
  | .scheduled _ => row.scheduledTime ≠ none
  | .queued _ => row.queuedTime ≠ none
  | .paused => True
  | .running none => row.runningTime ≠ none
  | .running (some (.switching _)) => row.runningTime ≠ none ∧ row.cond ≠ none
  | .running (some (.mapStarted _)) => row.runningTime ≠ none ∧ row.mapSize ≠ none
  | .running (some _) => row.runningTime ≠ none
  | .complete new => row.completeTime ≠ none ∧
      ∀ port, new.get? port ≠ none → outputs.get? port ≠ none
  | .cancelled => row.cancelledTime ≠ none
  | .error _ detail => row.errorTime ≠ none ∧ row.error ≠ none ∧
      (detail = none ∨ row.errorDetail ≠ none)

/-- The bits of a blob below `size` are all there in the stored blob, which has no more. -/
def BitsHeld (stored new : List Bool) (size : Nat) : Prop :=
  ∀ i < size, (new[i]? = none ↔ stored[i]? = none) ∧ (new[i]? = some true → stored[i]? = some true)

/-- A row and its output rows know what some events of the node say. -/
structure NodeRow.Knows (K : Crates) (row : NodeRow) (outputs : HashMap String AssetRow)
    (events : List NodeEvent) : Prop where
  name : ∀ e ∈ events, e.name ≠ none → row.name ≠ none
  notes : ∀ e ∈ events, row.Notes outputs e.status
  loopIndex : ∀ index, lastOf NodeEvent.loopIndex? events = some index →
    row.loopIndex = some (index : Int)
  handle : ∀ handle, lastOf NodeEvent.handle? events = some handle → row.handle = some handle
  executionContext : ∀ context, lastOf NodeEvent.executionContext? events = some context →
    row.executionContext = some context
  mapBits : ∀ bits, lastOf eventBits events = some bits → ∃ stored,
    row.mapCompleted = some stored ∧ ∀ size : Nat, row.mapSize = some (size : Int) →
      BitsHeld (fromSlice stored) (fromSlice (K.intoVec bits)) size

/-- The tables know what some events say: each node that they are about has a row that does. -/
def Db.Knows (K : Crates) (db : Db) (r : RunAttempt) (events : List NodeEvent) : Prop :=
  ∀ loc ∈ events.map NodeEvent.loc, ∃ row, (db.nodeAt r loc).1 = some row ∧
    row.Knows K (db.nodeAt r loc).2 (events.filter fun e => e.loc = loc)

/-! ## Columns -/

section Columns

variable {α β : Type} {col : NodeRow → Option α} {row : NodeRow} {rows : List NodeRow}

theorem col_foldl_first (h : ∀ a b, col (NodeRow.onConflict a b) = coalesce (col a) (col b)) :
    ∀ row : NodeRow,
      col (rows.foldl NodeRow.onConflict row) = coalesce (col row) (rows.findSome? col) := by
  induction rows with
  | nil => exact fun _ => Option.or_none.symm
  | cons new rows ih =>
    intro row
    rw [List.foldl_cons, ih, h, List.findSome?_cons]
    cases col new <;> simp [coalesce]

theorem col_foldl_last (h : ∀ a b, col (NodeRow.onConflict a b) = coalesce (col b) (col a)) :
    ∀ row : NodeRow, col (rows.foldl NodeRow.onConflict row) =
      coalesce (rows.filterMap col).getLast? (col row) := by
  induction rows with
  | nil => exact fun _ => rfl
  | cons new rows ih =>
    intro row
    rw [List.foldl_cons, ih, h, List.filterMap_cons]
    cases hn : col new with
    | none => simp [coalesce]
    | some x => simp [coalesce, List.getLast?_cons]

/-- A column that keeps its first value stays when it is set, or no row sets it. -/
theorem first_stays_iff (h : ∀ a b, col (NodeRow.onConflict a b) = coalesce (col a) (col b))
    (f : α → β) : (col (rows.foldl NodeRow.onConflict row)).map f = (col row).map f ↔
      ∀ new ∈ rows, col new ≠ none → col row ≠ none := by
  rw [col_foldl_first h]
  cases hr : col row with
  | none =>
    simp only [coalesce, Option.none_or, Option.map_none, Option.map_eq_none_iff,
      List.findSome?_eq_none_iff]
    exact forall₂_congr fun new _ => by simp
  | some x => simp [coalesce]

/-- A column that takes each value stays when it has the last one already. -/
theorem last_stays_iff (h : ∀ a b, col (NodeRow.onConflict a b) = coalesce (col b) (col a)) :
    col (rows.foldl NodeRow.onConflict row) = col row ↔
      ∀ x, (rows.filterMap col).getLast? = some x → col row = some x := by
  rw [col_foldl_last h]
  cases (rows.filterMap col).getLast? with
  | none => simp [coalesce]
  | some x => simp [coalesce, eq_comm]

theorem col_foldl_keep (h : ∀ a b, col (NodeRow.onConflict a b) = col a) :
    ∀ row : NodeRow, col (rows.foldl NodeRow.onConflict row) = col row := by
  induction rows with
  | nil => exact fun _ => rfl
  | cons new rows ih => exact fun row => (ih _).trans (h row new)

end Columns

/-- What a row would set for good is set already. -/
@[mk_iff]
structure NodeRow.Covers (row new : NodeRow) : Prop where
  name : new.name ≠ none → row.name ≠ none
  scheduledTime : new.scheduledTime ≠ none → row.scheduledTime ≠ none
  queuedTime : new.queuedTime ≠ none → row.queuedTime ≠ none
  runningTime : new.runningTime ≠ none → row.runningTime ≠ none
  completeTime : new.completeTime ≠ none → row.completeTime ≠ none
  cancelledTime : new.cancelledTime ≠ none → row.cancelledTime ≠ none
  errorTime : new.errorTime ≠ none → row.errorTime ≠ none
  cond : new.cond ≠ none → row.cond ≠ none
  mapSize : new.mapSize ≠ none → row.mapSize ≠ none
  error : new.error ≠ none → row.error ≠ none
  errorDetail : new.errorDetail ≠ none → row.errorDetail ≠ none

theorem plain_foldl_iff {row : NodeRow} {rows : List NodeRow} :
    (rows.foldl NodeRow.onConflict row).plain = row.plain ↔
      (∀ new ∈ rows, row.Covers new) ∧
        (∀ i, (rows.filterMap NodeRow.loopIndex).getLast? = some i → row.loopIndex = some i) ∧
        (∀ x, (rows.filterMap NodeRow.handle).getLast? = some x → row.handle = some x) ∧
        ∀ x, (rows.filterMap NodeRow.executionContext).getLast? = some x →
          row.executionContext = some x := by
  rw [← last_stays_iff (fun _ _ => rfl), ← last_stays_iff (fun _ _ => rfl),
    ← last_stays_iff (fun _ _ => rfl)]
  have hfirst : ∀ {α β : Type} (col : NodeRow → Option α) (f : α → β),
      (∀ a b, col (NodeRow.onConflict a b) = coalesce (col a) (col b)) →
      ((∀ new ∈ rows, col new ≠ none → col row ≠ none) ↔
        (col (rows.foldl NodeRow.onConflict row)).map f = (col row).map f) :=
    fun _ f h => (first_stays_iff h f).symm
  simp only [NodeRow.covers_iff, forall₂_and]
  rw [hfirst _ id fun _ _ => rfl, hfirst _ (fun _ => 0) fun _ _ => rfl,
    hfirst _ (fun _ => 0) fun _ _ => rfl, hfirst _ (fun _ => 0) fun _ _ => rfl,
    hfirst _ (fun _ => 0) fun _ _ => rfl, hfirst _ (fun _ => 0) fun _ _ => rfl,
    hfirst _ (fun _ => 0) fun _ _ => rfl, hfirst _ id fun _ _ => rfl, hfirst _ id fun _ _ => rfl,
    hfirst _ id fun _ _ => rfl, hfirst _ id fun _ _ => rfl]
  have hp : (rows.foldl NodeRow.onConflict row).pausedTime = row.pausedTime :=
    col_foldl_keep (fun _ _ => rfl) row
  have hu : (rows.foldl NodeRow.onConflict row).unpausedTime = row.unpausedTime :=
    col_foldl_keep (fun _ _ => rfl) row
  simp only [NodeRow.plain, NodeRow.mk.injEq, hp, hu, Option.map_id, id_eq, true_and]
  tauto

/-! ## Events -/

section Events

variable {K : Crates} {e : NodeEvent} {events : List NodeEvent}

/-- The columns of an event whose numbers fit. -/
theorem columnsOf_of_fits (h : ∃ columns, eventColumns K 0 e = .ok columns) :
    eventColumns K 0 e = .ok (columnsOf K e) := by
  obtain ⟨columns, h⟩ := h
  rw [columnsOf, h]
  rfl

/-- What an event sets for good is what its status and its name say. -/
theorem covers_columnsOf_iff (h : ∃ columns, eventColumns K 0 e = .ok columns) (row : NodeRow)
    (outputs : HashMap String AssetRow) :
    row.Covers (columnsOf K e) ∧ addOutputs outputs e = outputs ↔
      (e.name ≠ none → row.name ≠ none) ∧ row.Notes outputs e.status := by
  rw [NodeRow.covers_iff]
  have hcolumns := columnsOf_of_fits h
  generalize columnsOf K e = columns at hcolumns
  obtain ⟨loc, name, status⟩ := e
  cases status with
  | complete new =>
    rw [addOutputs_eq_self_iff rfl]
    cases hcolumns
    simp [NodeRow.Notes, and_assoc]
  | running stateUpdate =>
    rcases stateUpdate with _ | _ | _ | ⟨index, inputs⟩ | inputSets | _
    case some.looping =>
      cases hi : toI32 index <;> simp only [eventColumns, hi, Except.map] at hcolumns
      · cases hcolumns
      · cases hcolumns
        simp [NodeRow.Notes, addOutputs]
    case some.mapStarted =>
      cases hi : toI32 inputSets.length <;> simp only [eventColumns, hi, Except.map] at hcolumns
      · cases hcolumns
      · cases hcolumns
        simp [NodeRow.Notes, addOutputs]
    all_goals
      cases hcolumns
      simp [NodeRow.Notes, addOutputs]
  | error error detail =>
    cases hcolumns
    simp [NodeRow.Notes, addOutputs, imp_iff_not_or]
  | _ =>
    cases hcolumns
    simp [NodeRow.Notes, addOutputs]

/-- The columns that take each value, as the event gives them. -/
theorem columnsOf_last (h : ∃ columns, eventColumns K 0 e = .ok columns) :
    (columnsOf K e).loopIndex = e.loopIndex?.map Int.ofNat ∧
      (columnsOf K e).handle = e.handle? ∧
      (columnsOf K e).executionContext = e.executionContext? := by
  have hcolumns := columnsOf_of_fits h
  generalize columnsOf K e = columns at hcolumns ⊢
  obtain ⟨loc, name, status⟩ := e
  cases status with
  | running stateUpdate =>
    rcases stateUpdate with _ | _ | _ | ⟨index, inputs⟩ | inputSets | _
    case some.looping =>
      cases hi : toI32 index with
      | error f =>
        simp only [eventColumns, hi, Except.map] at hcolumns
        cases hcolumns
      | ok i =>
        simp only [eventColumns, hi, Except.map] at hcolumns
        cases hcolumns
        rw [(toI32_eq_ok.1 hi).2]
        exact ⟨rfl, rfl, rfl⟩
    case some.mapStarted =>
      cases hi : toI32 inputSets.length with
      | error f =>
        simp only [eventColumns, hi, Except.map] at hcolumns
        cases hcolumns
      | ok i =>
        simp only [eventColumns, hi, Except.map] at hcolumns
        cases hcolumns
        exact ⟨rfl, rfl, rfl⟩
    all_goals
      cases hcolumns
      exact ⟨rfl, rfl, rfl⟩
  | _ =>
    cases hcolumns
    exact ⟨rfl, rfl, rfl⟩

theorem filterMap_columnsOf {α β : Type} {col : NodeRow → Option β} {get : NodeEvent → Option α}
    {f : α → β} (h : ∀ e ∈ events, col (columnsOf K e) = (get e).map f) :
    (events.map (columnsOf K)).filterMap col = (events.filterMap get).map f := by
  rw [List.filterMap_map, List.map_filterMap]
  exact List.filterMap_congr h

theorem plain_foldl_columnsOf_iff (row : NodeRow) (outputs : HashMap String AssetRow)
    (h : ∀ e ∈ events, ∃ columns, eventColumns K 0 e = .ok columns) :
    ((events.map (columnsOf K)).foldl NodeRow.onConflict row).plain = row.plain ∧
        (∀ e ∈ events, addOutputs outputs e = outputs) ↔
      ((∀ e ∈ events, e.name ≠ none → row.name ≠ none) ∧
        ∀ e ∈ events, row.Notes outputs e.status) ∧
      (∀ index, lastOf NodeEvent.loopIndex? events = some index →
        row.loopIndex = some (index : Int)) ∧
      (∀ handle, lastOf NodeEvent.handle? events = some handle → row.handle = some handle) ∧
      ∀ context, lastOf NodeEvent.executionContext? events = some context →
        row.executionContext = some context := by
  have hnotes : ((∀ e ∈ events, row.Covers (columnsOf K e)) ∧
      ∀ e ∈ events, addOutputs outputs e = outputs) ↔
        (∀ e ∈ events, e.name ≠ none → row.name ≠ none) ∧
          ∀ e ∈ events, row.Notes outputs e.status := by
    rw [← forall₂_and, ← forall₂_and]
    exact forall₂_congr fun e he => covers_columnsOf_iff (h e he) row outputs
  have hindex := filterMap_columnsOf fun e he => (columnsOf_last (h e he)).1
  have hhandle := filterMap_columnsOf (f := id) fun e he =>
    (columnsOf_last (h e he)).2.1.trans (congrFun Option.map_id _).symm
  have hcontext := filterMap_columnsOf (f := id) fun e he =>
    (columnsOf_last (h e he)).2.2.trans (congrFun Option.map_id _).symm
  rw [plain_foldl_iff, List.forall_mem_map, ← hnotes, hindex, hhandle, hcontext]
  simp only [List.getLast?_map, Option.map_eq_some_iff, lastOf, id_eq, forall_exists_index,
    and_imp, forall_apply_eq_imp_iff₂, exists_eq_right]
  tauto

theorem addOutputs_eq_of_not_complete (h : ∀ new, e.status ≠ .complete new)
    (outputs : HashMap String AssetRow) : addOutputs outputs e = outputs := by
  unfold addOutputs
  split
  · rename_i new hnew
    exact absurd hnew (h new)
  · rfl

/-- An output that has a row keeps one. -/
theorem get?_foldl_addOutputs {port : String} :
    ∀ {outputs : HashMap String AssetRow}, outputs.get? port ≠ none →
      (events.foldl addOutputs outputs).get? port ≠ none := by
  induction events with
  | nil => exact fun h => h
  | cons e events ih =>
    intro outputs h
    refine ih ?_
    by_cases he : ∃ new, e.status = .complete new
    · obtain ⟨new, he⟩ := he
      rw [get?_addOutputs_complete he]
      simp [h]
    · rwa [addOutputs_eq_of_not_complete (not_exists.1 he)]

/-- The outputs of a node stay exactly when each event's do: what one event adds, no
other takes away. -/
theorem foldl_addOutputs_eq_self_iff (events : List NodeEvent)
    (outputs : HashMap String AssetRow) :
    events.foldl addOutputs outputs = outputs ↔ ∀ e ∈ events, addOutputs outputs e = outputs := by
  constructor
  · intro h e he
    by_cases hc : ∃ new, e.status = .complete new
    · obtain ⟨new, hnew⟩ := hc
      rw [addOutputs_eq_self_iff hnew]
      intro port hport
      obtain ⟨before, after, rfl⟩ := List.append_of_mem he
      rw [← h, List.foldl_append, List.foldl_cons]
      refine get?_foldl_addOutputs ?_
      rw [get?_addOutputs_complete hnew]
      simp [hport]
    · exact addOutputs_eq_of_not_complete (not_exists.1 hc) outputs
  · intro h
    induction events with
    | nil => rfl
    | cons e events ih =>
      rw [List.forall_mem_cons] at h
      rw [List.foldl_cons, h.1]
      exact ih h.2

/-- The map bits a row reads as, with those of a batch merged in, are the ones it reads as
already exactly when it holds them. -/
theorem readMapCompleted_merge_iff {row row' : NodeRow} {new : List Byte}
    (hs : row'.mapSize = row.mapSize)
    (hb : row'.mapCompleted = some (mergeInto row.mapCompleted new)) :
    readMapCompleted row' = readMapCompleted row ↔ ∃ stored, row.mapCompleted = some stored ∧
      ∀ size : Nat, row.mapSize = some (size : Int) →
        BitsHeld (fromSlice stored) (fromSlice new) size := by
  cases hstored : row.mapCompleted with
  | none =>
    refine iff_of_false (fun h => ?_) fun ⟨_, h, _⟩ => (by cases h)
    rw [readMapCompleted, readMapCompleted, hb, hstored] at h
    cases hsize : row'.mapSize with
    | none => simp [okOr, hsize, bind, Except.bind] at h
    | some i =>
      cases hi : toU32 i <;> simp [okOr, hsize, hi, bind, Except.bind, pure, Except.pure] at h
  | some stored =>
    rw [hstored] at hb
    rw [readMapCompleted_eq_iff hs.symm hb hstored, hs]
    simp only [Option.some.injEq, exists_eq_left']
    refine forall₂_congr fun size _ => ?_
    rw [fromSlice_mergeInto, Option.getD_some, List.ext_getElem?_iff]
    unfold BitsHeld
    refine forall_congr' fun i => ?_
    rw [List.getElem?_take, List.getElem?_take, getElem?_bitorAssign]
    by_cases hi : i < size
    · cases (fromSlice new)[i]? with
      | none => simp [hi, eq_comm]
      | some b => cases b <;> cases (fromSlice stored)[i]? <;> simp [hi]
    · simp [hi]

theorem lastBits_columnsOf (h : ∀ e ∈ events, ∃ columns, eventColumns K 0 e = .ok columns) :
    lastBits (events.map (columnsOf K)) = (lastOf eventBits events).map K.intoVec := by
  rw [lastBits, filterMap_columnsOf fun e he => (eventColumns_map (columnsOf_of_fits (h e he))).1,
    List.getLast?_map]
  rfl

/-- The row that a batch makes of a row: the columns of the batch upserted, and its last map
bits merged with the stored ones. -/
theorem exists_batch_row (row : NodeRow) (outputs : HashMap String AssetRow)
    (h : ∀ e ∈ events, ∃ columns, eventColumns K 0 e = .ok columns) :
    ∃ row', (NodeTables.batch K (some row, outputs) events).1 = some row' ∧
      row'.plain = ((events.map (columnsOf K)).foldl NodeRow.onConflict row).plain ∧
      row'.mapCompleted = coalesce ((lastOf eventBits events).map fun bits =>
        mergeInto row.mapCompleted (K.intoVec bits)) row.mapCompleted := by
  have hmerged : (events.map fun e => (columnsOf K e).mergeBits row.mapCompleted) =
      (events.map (columnsOf K)).map (NodeRow.mergeBits row.mapCompleted) := by
    rw [List.map_map]
    rfl
  have hplain := @NodeRow.plain_upserts ((events.map (columnsOf K)).map
    (NodeRow.mergeBits row.mapCompleted)) (some row)
  have hbits := @mapCompleted_upserts ((events.map (columnsOf K)).map
    (NodeRow.mergeBits row.mapCompleted)) (some row)
  have hcolumns := @NodeRow.plain_upserts (events.map (columnsOf K)) (some row)
  have hsame : ((events.map (columnsOf K)).map (NodeRow.mergeBits row.mapCompleted)).map
      NodeRow.plain = (events.map (columnsOf K)).map NodeRow.plain := by
    rw [List.map_map]
    exact List.map_congr_left fun new _ => NodeRow.plain_mergeBits _ new
  rw [hsame, ← hcolumns] at hplain
  rw [lastBits_mergeBits, lastBits_columnsOf h] at hbits
  rw [upserts_some, Option.map_map] at hbits
  rw [upserts_some, upserts_some] at hplain
  refine ⟨_, ?_, Option.some.inj hplain, hbits⟩
  rw [← upserts_some, ← hmerged]
  rfl

/-- A batch leaves a node's row and output rows as they are exactly when they know what the
events of the node say. -/
theorem knows_iff {row : NodeRow} {outputs : HashMap String AssetRow}
    (h : ∀ e ∈ events, ∃ columns, eventColumns K 0 e = .ok columns) :
    ((NodeTables.batch K (some row, outputs) events).1.map NodeRow.held = some row.held ∧
        (NodeTables.batch K (some row, outputs) events).2 = outputs) ↔
      row.Knows K outputs events := by
  obtain ⟨row', hrow, hplain, hbits⟩ := exists_batch_row row outputs h
  have hcolumns := plain_foldl_columnsOf_iff row outputs h
  rw [← hplain] at hcolumns
  have hread : row'.plain = row.plain →
      (readMapCompleted row' = readMapCompleted row ↔ ∀ bits, lastOf eventBits events = some bits →
        ∃ stored, row.mapCompleted = some stored ∧ ∀ size : Nat, row.mapSize = some (size : Int) →
          BitsHeld (fromSlice stored) (fromSlice (K.intoVec bits)) size) := by
    intro hsame
    have hs : row'.mapSize = row.mapSize := by
      have := congrArg NodeRow.mapSize hsame
      exact this
    cases hlast : lastOf eventBits events with
    | none =>
      rw [hlast] at hbits
      have hb : row'.mapCompleted = row.mapCompleted := hbits
      exact iff_of_true (by rw [readMapCompleted, readMapCompleted, hb, hs])
        fun _ h => (by cases h)
    | some bits =>
      rw [hlast] at hbits
      rw [readMapCompleted_merge_iff hs hbits]
      simp only [Option.some.injEq, forall_eq']
  rw [hrow, Option.map_some, Option.some.injEq, NodeRow.held, NodeRow.held, Prod.mk.injEq]
  have houtputs := foldl_addOutputs_eq_self_iff events outputs
  constructor
  · rintro ⟨⟨hsame, hbits⟩, ho⟩
    obtain ⟨⟨hname, hnotes⟩, hindex, hhandle, hcontext⟩ := hcolumns.1 ⟨hsame, houtputs.1 ho⟩
    exact ⟨hname, hnotes, hindex, hhandle, hcontext, (hread hsame).1 hbits⟩
  · intro hk
    obtain ⟨hsame, ho⟩ := hcolumns.2
      ⟨⟨hk.name, hk.notes⟩, hk.loopIndex, hk.handle, hk.executionContext⟩
    exact ⟨⟨hsame, (hread hsame).2 hk.mapBits⟩, houtputs.2 ho⟩

theorem foldl_addEventOutputs_eq_self {run : Uuid} {attempt : Int}
    {table : HashMap NodeKey (HashMap String AssetRow)}
    (h : ∀ e ∈ events, addOutputs (Db.rowsAt table (run, attempt, e.loc)) e =
      Db.rowsAt table (run, attempt, e.loc)) :
    events.foldl (addEventOutputs run attempt) table = table := by
  have hone : ∀ e, addOutputs (Db.rowsAt table (run, attempt, e.loc)) e =
      Db.rowsAt table (run, attempt, e.loc) → addEventOutputs run attempt table e = table := by
    intro e he
    by_cases hc : ∃ new, e.status = .complete new
    · obtain ⟨new, hnew⟩ := hc
      rw [addOutputs_eq_self_iff hnew] at he
      have hstored : ∀ o ∈ new.toList, (Db.rowsAt table (run, attempt, e.loc)).contains o.1 = true := by
        intro o ho
        refine Option.isSome_iff_ne_none.2 (he o.1 ?_)
        rw [HashMap.get?_eq_some_iff.2 ho]
        exact Option.some_ne_none _
      unfold addEventOutputs eventOutputs
      rw [hnew]
      simp only [List.foldl_map]
      generalize new.toList = l at hstored
      induction l with
      | nil => rfl
      | cons o l ih =>
        rw [List.forall_mem_cons] at hstored
        rw [List.foldl_cons, addOutputRow, if_pos hstored.1]
        exact ih hstored.2
    · unfold addEventOutputs eventOutputs
      split
      · rename_i new hnew
        exact absurd ⟨new, hnew⟩ hc
      · rfl
  induction events with
  | nil => rfl
  | cons e events ih =>
    rw [List.forall_mem_cons] at h
    rw [List.foldl_cons, hone e h.1]
    exact ih h.2

end Events

end Sql

namespace Sql

/-- What a refused batch leaves: nothing, unless its numbers fit; then its input rows up to
the first that violates a constraint. -/
def Db.afterRefused (K : Crates) (db : Db) (r : RunAttempt) (events : List NodeEvent) : Db :=
  if (toI32 r.2).isOk && events.all fun e => (eventColumns K 0 e).isOk then
    runUpTo (insertInput r.1 r.2) (events.flatMap eventInputs) db
  else db

theorem runUpTo_insertInput_frame {run : Uuid} {attempt : Int} {inputs : List NewInput} :
    ∀ db : Db, runUpTo (insertInput run attempt) inputs db =
      { db with inputs := (runUpTo (insertInput run attempt) inputs db).inputs } := by
  induction inputs with
  | nil => exact fun _ => rfl
  | cons i is ih =>
    intro db
    rw [runUpTo]
    cases hf : insertInput run attempt i db with
    | error e => rfl
    | ok out =>
      obtain ⟨-, he⟩ := insertInput_eq_ok.1 hf
      simp only [he]
      rw [ih]
      rfl

theorem all_fit_iff {K : Crates} {events : List NodeEvent} :
    (events.all fun e => (eventColumns K 0 e).isOk) = true ↔
      ∀ e ∈ events, ∃ row, eventColumns K 0 e = .ok row := by
  rw [List.all_eq_true]
  refine forall₂_congr fun e _ => ?_
  cases eventColumns K 0 e <;> simp [Except.isOk, Except.toBool]

/-- A refused batch leaves the nodes alone. -/
theorem Db.afterRefused_frame (K : Crates) (db : Db) (r : RunAttempt) (events : List NodeEvent) :
    db.afterRefused K r events = { db with inputs := (db.afterRefused K r events).inputs } := by
  unfold afterRefused
  split_ifs
  · exact runUpTo_insertInput_frame db
  · rfl

theorem Db.SameNodes.symm {a b : Db} (h : a.SameNodes b) : b.SameNodes a :=
  ⟨fun key => (h.1 key).symm, h.2.symm⟩

theorem Db.SameNodes.trans {a b c : Db} (h : a.SameNodes b) (h' : b.SameNodes c) : a.SameNodes c :=
  ⟨fun key => (h.1 key).trans (h'.1 key), h.2.trans h'.2⟩

theorem sameNodes_afterRefused (K : Crates) (db : Db) (r : RunAttempt) (events : List NodeEvent) :
    (db.afterRefused K r events).SameNodes db := by
  rw [Db.afterRefused_frame]
  exact ⟨fun _ => rfl, rfl⟩

theorem knows_afterRefused (K : Crates) (db : Db) (r : RunAttempt) (e₁ e₂ : List NodeEvent) :
    (db.afterRefused K r e₁).Knows K r e₂ ↔ db.Knows K r e₂ := by
  rw [Db.afterRefused_frame]
  rfl

end Sql

namespace SqliteRuntimeState

variable {K : Crates} {st : SqliteRuntimeState} {r : RunAttempt} {now : Time}
  {events : List NodeEvent}

/-- An accepted batch leaves all nodes as they are exactly when the tables know what it says. -/
theorem sameNodes_write_iff (now : Time) (h : Accepts K st.db r events) :
    st.db.SameNodes (st.write K r noFaults now (.nodeEvents events)).2.db ↔
      st.db.Knows K r events := by
  obtain ⟨st', hst'⟩ : ∃ st', st.write K r noFaults now (.nodeEvents events) = (.ok (), st') :=
    write_isOk_iff.2 h
  obtain ⟨attempt, updates, ha, hus, -, -, hdb⟩ := write_nodeEvents_iff.1 hst'
  obtain ⟨attempt', ha', hfits, -⟩ := h
  cases (toI32_eq_ok.1 ha).2
  rw [hst']
  have hnode : ∀ loc, NodeTables.Same (st'.db.nodeAt r loc)
      ((st.db.nodeAt r loc).batch K (events.filter fun e => e.loc = loc)) := by
    intro loc
    rw [hdb]
    exact same_of_updates r hus st.db _ loc
  have hheld : ∀ loc, (st'.db.nodeAt r loc).1.map NodeRow.held =
      ((st.db.nodeAt r loc).batch K (events.filter fun e => e.loc = loc)).1.map NodeRow.held :=
    fun loc => held_congr (hnode loc).plain (hnode loc).bits
  have hcolumns : ∀ loc, ∀ e ∈ events.filter fun e => e.loc = loc,
      ∃ columns, eventColumns K 0 e = .ok columns :=
    fun loc e he => (hfits e (List.mem_of_mem_filter he)).1
  constructor
  · intro hsame loc hloc
    have hrow : (st'.db.nodeAt r loc).1.map NodeRow.held =
        (st.db.nodeAt r loc).1.map NodeRow.held := (hsame.1 _).symm
    have houtputs : (st'.db.nodeAt r loc).2 = (st.db.nodeAt r loc).2 := by
      rw [Db.nodeAt, Db.nodeAt, ← hsame.2]
    obtain ⟨e, he, rfl⟩ := List.mem_map.1 hloc
    rw [hheld] at hrow
    rw [(hnode e.loc).outputs] at houtputs
    cases hstored : st.db.nodeAt r e.loc with
    | mk stored outputs =>
      rw [hstored] at hrow houtputs
      cases stored with
      | none =>
        have hmem : e ∈ events.filter fun x => x.loc = e.loc := by simp [he]
        obtain ⟨x, xs, hxs⟩ := List.exists_cons_of_ne_nil (List.ne_nil_of_mem hmem)
        rw [hxs, NodeTables.batch, List.map_cons, upserts_cons] at hrow
        cases hrow
      | some row => exact ⟨row, rfl, (knows_iff (hcolumns e.loc)).1 ⟨hrow, houtputs⟩⟩
  · intro hknows
    refine ⟨fun key => ?_, ?_⟩
    · by_cases hk : ∃ loc, key = (r.1, (r.2 : Int), loc)
      · obtain ⟨loc, rfl⟩ := hk
        by_cases hloc : loc ∈ events.map NodeEvent.loc
        · obtain ⟨row, hrow, hrows⟩ := hknows loc hloc
          have hsame := ((knows_iff (hcolumns loc)).2 hrows).1
          rw [← hrow] at hsame
          exact ((hheld loc).trans (hsame.trans (congrArg (Option.map NodeRow.held) hrow).symm)).symm
        · have hnone : (events.filter fun e => e.loc = loc) = [] :=
            List.filter_eq_nil_iff.2 fun e he h =>
              hloc (List.mem_map.2 ⟨e, he, of_decide_eq_true h⟩)
          have := hheld loc
          rw [hnone] at this
          exact this.symm
      · rw [hdb, get?_batch, rowsFor_of_ne updates (not_exists.1 hk)]
        rfl
    · rw [hdb, nodeOutputs_batch]
      refine (foldl_addEventOutputs_eq_self fun e he => ?_).symm
      obtain ⟨row, -, hrows⟩ := hknows e.loc (List.mem_map_of_mem he)
      have houtputs := ((knows_iff (hcolumns e.loc)).2 hrows).2
      exact (foldl_addOutputs_eq_self_iff _ _).1 houtputs e (by simp [he])

theorem db_writeRows_error {run : Uuid} {attempt : Int} {updates : List NodeUpdate}
    {inputs : List NewInput} {outputs : List NewOutput} {s s' : Session Db} {f : Failure}
    (h : writeRows run attempt updates inputs outputs noFaults s = (.error f, s')) :
    s'.db = runUpTo (insertInput run attempt) inputs s.db := by
  have hnone : ∀ k, (noFaults : Nat → Option Failure) k = none := fun _ => rfl
  rw [← Prog.db_each_stmt hnone]
  unfold writeRows Prog.andThen Prog.mapError insertWorkflowRunInputs at h
  rcases hi : Prog.each inputs (fun new => .stmt (insertInput run attempt new)) noFaults s with
    ⟨f' | _, t⟩
  · rw [hi] at h
    cases h
    rfl
  · rw [hi] at h
    rcases hu : updateNodeState run attempt updates outputs noFaults t with ⟨f' | _, t'⟩
    · simp only [hu] at h
      cases h
      exact atomic_updateNodeState _ _ _ _ hu
    · simp only [hu] at h
      cases h

/-- A refused batch leaves its first input rows at most. -/
theorem db_write_refused (now : Time) (h : ¬Accepts K st.db r events) :
    (st.write K r noFaults now (.nodeEvents events)).2.db = st.db.afterRefused K r events := by
  rcases hw : st.write K r noFaults now (.nodeEvents events) with ⟨f | _, st'⟩
  swap
  · exact absurd (write_isOk_iff.1 ⟨st', hw⟩) h
  obtain ⟨s', hprog, rfl⟩ := write_eq_error.1 hw
  cases ha : toI32 r.2 with
  | error f =>
    simp only [writeProg_nodeEvents_eq, handleNodeEvents, ha, Prog.lift, Prog.fail, Prog.andThen,
      Prog.mapError] at hprog
    cases hprog
    simp [Db.afterRefused, ha, Except.isOk, Except.toBool]
  | ok attempt =>
    cases (toI32_eq_ok.1 ha).2
    cases hu : events.mapM (eventRow K now) with
    | error f =>
      simp only [writeProg_nodeEvents_eq, handleNodeEvents, ha, hu, Prog.lift, Prog.ok, Prog.fail,
        Prog.andThen, Prog.mapError] at hprog
      cases hprog
      have hnone : ¬∃ updates, UpdatesOf K now events updates := by
        rintro ⟨updates, hus⟩
        rw [mapM_of_forall₂ hus] at hu
        cases hu
      rw [updatesOf_isOk, ← all_fit_iff] at hnone
      simp [Db.afterRefused, hnone]
    | ok updates =>
      have hfits := all_fit_iff.2 (updatesOf_isOk.1 ⟨updates, mapM_eq_ok hu⟩)
      rw [writeProg_nodeEvents st ha hu rfl, Prog.mapError] at hprog
      rcases hrows : writeRows r.1 r.2 updates (events.flatMap eventInputs)
        (events.flatMap eventOutputs) noFaults ⟨st.db, 1⟩ with ⟨f' | _, t⟩
      · rw [hrows] at hprog
        cases hprog
        rw [db_writeRows_error hrows, Db.afterRefused, ha, hfits]
        rfl
      · rw [hrows] at hprog
        cases hprog

/-- Where one batch leaves the nodes that its two parts leave, one after the other. -/
theorem sameNodes_writes_iff (t t₁ t₂ : Time) (e₁ e₂ : List NodeEvent) :
    (st.write K r noFaults t (.nodeEvents (e₁ ++ e₂))).2.db.SameNodes
        ((st.write K r noFaults t₁ (.nodeEvents e₁)).2.write K r noFaults t₂
          (.nodeEvents e₂)).2.db ↔
      (Accepts K st.db r (e₁ ++ e₂) → ∀ loc, NodeBitsKept K st.db (r.1, (r.2 : Int), loc) e₁ e₂) ∧
      (Accepts K st.db r e₁ → ¬Accepts K st.db r (e₁ ++ e₂) → st.db.Knows K r e₁) ∧
      (¬Accepts K st.db r e₁ → Accepts K (st.db.afterRefused K r e₁) r e₂ →
        st.db.Knows K r e₂) := by
  have hwrite : ∀ {st : SqliteRuntimeState} {events : List NodeEvent} (now : Time),
      Accepts K st.db r events →
        ∃ st', st.write K r noFaults now (.nodeEvents events) = (.ok (), st') :=
    fun _ h => write_isOk_iff.2 h
  by_cases hboth : Accepts K st.db r (e₁ ++ e₂)
  · have hfirst : Accepts K st.db r e₁ := Accepts.left hboth
    obtain ⟨st₁, h₁⟩ := hwrite t₁ hfirst
    obtain ⟨st₂, h₂⟩ := hwrite t₂ ((accepts_append h₁).1 hboth)
    obtain ⟨st₁₂, h₁₂⟩ := hwrite t hboth
    have hfits := hboth
    obtain ⟨attempt, ha, -⟩ := hfits
    cases (toI32_eq_ok.1 ha).2
    have hkept := sameNodes_iff ha h₁₂ (writeTwice_eq_ok.2 ⟨st₁, h₁, h₂⟩)
    simpa [h₁, h₂, h₁₂, hboth, hfirst] using hkept
  · have hleft := sameNodes_afterRefused K st.db r (e₁ ++ e₂)
    rw [← db_write_refused t hboth] at hleft
    by_cases hfirst : Accepts K st.db r e₁
    · -- the second part is refused after the first
      obtain ⟨st₁, h₁⟩ := hwrite t₁ hfirst
      have hsecond : ¬Accepts K st₁.db r e₂ := fun h => hboth ((accepts_append h₁).2 h)
      have hright := sameNodes_afterRefused K st₁.db r e₂
      rw [← db_write_refused t₂ hsecond] at hright
      have hknows := sameNodes_write_iff t₁ hfirst
      rw [h₁] at hknows ⊢
      simp only [hboth, hfirst, false_imp_iff, true_imp_iff, not_true, not_false_eq_true, true_and,
        and_true]
      rw [← hknows]
      exact ⟨fun h => hleft.symm.trans (h.trans hright), fun h => hleft.trans (h.trans hright.symm)⟩
    · have hmid := sameNodes_afterRefused K st.db r e₁
      have hdb := db_write_refused t₁ hfirst
      simp only [hboth, hfirst, false_imp_iff, true_imp_iff, not_false_eq_true, true_and]
      generalize (st.write K r noFaults t₁ (.nodeEvents e₁)).2 = st₁ at hdb ⊢
      rw [← hdb] at hmid ⊢
      by_cases hsecond : Accepts K st₁.db r e₂
      · have hknows := sameNodes_write_iff t₂ hsecond
        rw [hdb, knows_afterRefused, ← hdb] at hknows
        simp only [hsecond, true_imp_iff]
        rw [← hknows]
        exact ⟨fun h => hmid.trans (hleft.symm.trans h), fun h => hleft.trans (hmid.symm.trans h)⟩
      · have hright := sameNodes_afterRefused K st₁.db r e₂
        rw [← db_write_refused t₂ hsecond] at hright
        exact iff_of_true (hleft.trans (hmid.symm.trans hright.symm)) fun h => absurd h hsecond

end SqliteRuntimeState

/-! ## Both stores -/

/-- Writing a batch leaves the nodes that writing its two parts leaves, one after the other.
The database takes the batch exactly when it takes both parts. -/
structure Splits (K : Crates) (m : InMemoryRuntimeState) (s : SqliteRuntimeState) (r : RunAttempt)
    (e₁ e₂ : List NodeEvent) : Prop where
  inMemory : ∀ t t₁ t₂, RunAttemptState.SameNodes
    ((m.write r t (.nodeEvents (e₁ ++ e₂))).run r)
    (((m.write r t₁ (.nodeEvents e₁)).write r t₂ (.nodeEvents e₂)).run r)
  accepted : ∀ t t₁ t₂,
    (∃ s', s.write K r SqliteRuntimeState.noFaults t (.nodeEvents (e₁ ++ e₂)) = (.ok (), s')) ↔
      ∃ s', s.writeTwice K r t₁ t₂ e₁ e₂ = (.ok (), s')
  sqlite : ∀ t t₁ t₂,
    (s.write K r SqliteRuntimeState.noFaults t (.nodeEvents (e₁ ++ e₂))).2.db.SameNodes
      ((s.write K r SqliteRuntimeState.noFaults t₁ (.nodeEvents e₁)).2.write K r
        SqliteRuntimeState.noFaults t₂ (.nodeEvents e₂)).2.db

/-- A batch may be cut exactly where no node loses map bits, when it is taken; and when it is
refused, where the part that is taken alone says nothing new. -/
theorem splits_iff (K : Crates) (m : InMemoryRuntimeState) (s : SqliteRuntimeState)
    (r : RunAttempt) (e₁ e₂ : List NodeEvent) :
    Splits K m s r e₁ e₂ ↔
      (Accepts K s.db r (e₁ ++ e₂) → ∀ loc, NodeBitsKept K s.db (r.1, (r.2 : Int), loc) e₁ e₂) ∧
      (Accepts K s.db r e₁ → ¬Accepts K s.db r (e₁ ++ e₂) → s.db.Knows K r e₁) ∧
      (¬Accepts K s.db r e₁ → Accepts K (s.db.afterRefused K r e₁) r e₂ → s.db.Knows K r e₂) := by
  constructor
  · intro h
    exact (SqliteRuntimeState.sameNodes_writes_iff 0 0 0 e₁ e₂).1 (h.sqlite 0 0 0)
  · intro h
    refine ⟨fun t t₁ t₂ => ?_, fun _ _ _ => SqliteRuntimeState.write_append_isOk,
      fun t t₁ t₂ => (SqliteRuntimeState.sameNodes_writes_iff t t₁ t₂ e₁ e₂).2 h⟩
    rw [InMemoryRuntimeState.run_write, InMemoryRuntimeState.run_write,
      InMemoryRuntimeState.run_write]
    exact RunAttemptState.sameNodes_append _ t t₁ t₂ e₁ e₂

/-- A `Map` of two elements has started in a new run of both stores. -/
def mapStarted : WorkflowRunEvent :=
  .nodeEvents [⟨[.node 1], none, .running (some (.mapStarted [∅, ∅]))⟩]

def elemComplete (bits : List Bool) : NodeEvent :=
  ⟨[.node 1], none, .running (some (.mapElemComplete bits))⟩

/-- Both elements complete in one batch: the bit of the first one is lost. -/
theorem not_splits :
    ¬Splits .zeroFill (InMemoryRuntimeState.startedRun.write (0, 0) 1 mapStarted)
      (SqliteRuntimeState.startedRun.write .zeroFill (0, 0) SqliteRuntimeState.noFaults 1
        mapStarted).2 (0, 0) [elemComplete [true, false]] [elemComplete [false, true]] := by
  intro h
  have hs := (h.sqlite 2 2 2).1 (0, 0, [.node 1])
  have hbits := congrArg (Option.bind · fun held => held.2.toOption) hs
  revert hbits
  decide +kernel

end Tierkreis
