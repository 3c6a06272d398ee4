import Tierkreis.Lib.Commute
import Tierkreis.State.Batching

/-!
# What the tables hold of a node

The row of a node and its output rows, as batches of events change them. The
orchestrator plans a task and an executor reports on it; the two set different
columns, so on a node with a row their events commute. The first event of a
node makes its row, and only then is the time of a pause set.
-/

namespace Tierkreis

open Lib Lib.Commute Sql

/-- What the orchestrator says of a task that no executor has yet. -/
def NodeStatus.isPlan : NodeStatus → Bool
  | .scheduled _ | .paused => true
  | _ => false

namespace Sql

/-- The row of a node and its output rows. -/
abbrev NodeTables := Option NodeRow × HashMap String AssetRow

def Db.nodeAt (db : Db) (r : RunAttempt) (loc : Location) : NodeTables :=
  (db.nodeStates.get? (r.1, (r.2 : Int), loc), Db.rowsAt db.nodeOutputs (r.1, (r.2 : Int), loc))

/-- Up to the values of times. -/
structure NodeTables.Same (a b : NodeTables) : Prop where
  plain : a.1.map NodeRow.plain = b.1.map NodeRow.plain
  bits : a.1.bind NodeRow.mapCompleted = b.1.bind NodeRow.mapCompleted
  outputs : a.2 = b.2

/-- The columns of an event whose numbers fit. -/
def columnsOf (K : Crates) (e : NodeEvent) : NodeRow := (eventColumns K 0 e).toOption.getD {}

/-- What the events of a node in one batch do to it. -/
def NodeTables.batch (K : Crates) (d : NodeTables) (events : List NodeEvent) : NodeTables :=
  (NodeRow.upserts d.1 (events.map fun e =>
    (columnsOf K e).mergeBits (d.1.bind NodeRow.mapCompleted)), events.foldl addOutputs d.2)

namespace NodeTables

theorem Same.refl (d : NodeTables) : Same d d := ⟨rfl, rfl, rfl⟩

theorem Same.symm {a b : NodeTables} (h : Same a b) : Same b a :=
  ⟨h.plain.symm, h.bits.symm, h.outputs.symm⟩

theorem Same.trans {a b c : NodeTables} (h : Same a b) (h' : Same b c) : Same a c :=
  ⟨h.plain.trans h'.plain, h.bits.trans h'.bits, h.outputs.trans h'.outputs⟩

end NodeTables

theorem lastBits_congr {rows rows' : List NodeRow}
    (h : rows.map NodeRow.mapCompleted = rows'.map NodeRow.mapCompleted) :
    lastBits rows = lastBits rows' := by
  have hmap : ∀ rows : List NodeRow, rows.filterMap NodeRow.mapCompleted =
      (rows.map NodeRow.mapCompleted).filterMap id := fun rows => by
    rw [List.filterMap_map]
    rfl
  rw [lastBits, lastBits, hmap, hmap, h]

/-- Rows that set the same columns lead from the same to the same. -/
theorem same_upserts {old old' : Option NodeRow} {rows rows' : List NodeRow}
    {outputs outputs' : HashMap String AssetRow}
    (h : NodeTables.Same (old, outputs) (old', outputs'))
    (hplain : rows.map NodeRow.plain = rows'.map NodeRow.plain)
    (hbits : rows.map NodeRow.mapCompleted = rows'.map NodeRow.mapCompleted)
    (es : List NodeEvent) :
    NodeTables.Same (NodeRow.upserts old rows, es.foldl addOutputs outputs)
      (NodeRow.upserts old' rows', es.foldl addOutputs outputs') where
  plain := by
    have := h.plain
    rw [NodeRow.plain_upserts, NodeRow.plain_upserts, hplain, this]
  bits := by
    have := h.bits
    rw [mapCompleted_upserts, mapCompleted_upserts, lastBits_congr hbits, this]
  outputs := congrArg (es.foldl addOutputs ·) h.outputs

theorem NodeTables.Same.batch {K : Crates} {a b : NodeTables} (h : Same a b)
    (events : List NodeEvent) : Same (a.batch K events) (b.batch K events) := by
  refine same_upserts h ?_ ?_ events
  · rw [List.map_map, List.map_map]
    exact List.map_congr_left fun e _ => by simp
  · rw [h.bits]

/-- Batches lead from the same to the same. -/
theorem foldl_batch_same {K : Crates} {ι : Type} {f : ι → List NodeEvent} (l : List ι) :
    ∀ {a b : NodeTables}, a.Same b →
      (l.foldl (fun d x => d.batch K (f x)) a).Same (l.foldl (fun d x => d.batch K (f x)) b) := by
  induction l with
  | nil => exact fun h => h
  | cons x l ih => exact fun h => ih (h.batch (f x))

theorem columnsOf_eq {K : Crates} {now : Time} {e : NodeEvent} {row : NodeRow}
    (h : eventColumns K now e = .ok row) :
    row.plain = (columnsOf K e).plain ∧ row.mapCompleted = (columnsOf K e).mapCompleted := by
  obtain ⟨row', h', hplain⟩ := eventColumns_time h 0
  have hrow : columnsOf K e = row' := by rw [columnsOf, h']; rfl
  rw [hrow, hplain, (eventColumns_map h).1, (eventColumns_map h').1]
  exact ⟨rfl, rfl⟩

/-- A batch that goes through does to each node what its events of the node do. -/
theorem same_of_updates {K : Crates} {now : Time} {events : List NodeEvent}
    {updates : List NodeUpdate} (r : RunAttempt) (hus : UpdatesOf K now events updates) (db : Db)
    (inputs : List NewInput) (loc : Location) :
    NodeTables.Same
      (((db.addInputs r.1 r.2 inputs).applyBatch r.1 r.2 updates
        (events.flatMap eventOutputs)).nodeAt r loc)
      ((db.nodeAt r loc).batch K (events.filter fun e => e.loc = loc)) := by
  have hrows : List.Forall₂ _ _ (rowsFor r.1 r.2 (r.1, (r.2 : Int), loc) updates) := hus.rowsFor loc
  have hcols : ∀ {es : List NodeEvent} {rows : List NodeRow},
      List.Forall₂ (fun e row => eventColumns K now e = .ok row) es rows →
        rows.map NodeRow.plain = es.map (fun e => (columnsOf K e).plain) ∧
          rows.map NodeRow.mapCompleted = es.map fun e => (columnsOf K e).mapCompleted := by
    intro es rows h
    induction h with
    | nil => exact ⟨rfl, rfl⟩
    | cons h _ ih =>
      rw [List.map_cons, List.map_cons, List.map_cons, List.map_cons, ih.1, ih.2,
        (columnsOf_eq h).1, (columnsOf_eq h).2]
      exact ⟨rfl, rfl⟩
  obtain ⟨hplain, hbits⟩ := hcols hrows
  have houtputs : ∀ (es : List NodeEvent) (table : HashMap NodeKey (HashMap String AssetRow)),
      Db.rowsAt (es.foldl (addEventOutputs r.1 r.2) table) (r.1, (r.2 : Int), loc) =
        (es.filter fun e => e.loc = loc).foldl addOutputs
          (Db.rowsAt table (r.1, (r.2 : Int), loc)) := by
    intro es
    induction es with
    | nil => exact fun _ => rfl
    | cons e es ih =>
      intro table
      rw [List.foldl_cons, ih, rowsAt_addEventOutputs]
      by_cases hl : e.loc = loc
      · simp [hl]
      · simp [hl, Ne.symm hl]
  rw [Db.nodeAt, get?_batch, nodeOutputs_batch, houtputs]
  refine same_upserts (.refl _) ?_ ?_ _
  · rw [List.map_map, List.map_map]
    simpa [Function.comp_def] using hplain
  · rw [List.map_map, List.map_map]
    have hmerged := congrArg (List.map (Option.map (mergeInto
      ((db.nodeStates.get? (r.1, (r.2 : Int), loc)).bind NodeRow.mapCompleted)))) hbits
    simpa [Function.comp_def, NodeRow.mapCompleted_mergeBits, Db.nodeAt] using hmerged

/-! ## Plans and reports -/

/-- A row of a plan. -/
def PlanRow (row : NodeRow) : Prop :=
  ∃ name scheduled paused context, row =
    { name := name, scheduledTime := scheduled, pausedTime := paused, executionContext := context }

/-- A row of a report. -/
def ReportRow (row : NodeRow) : Prop :=
  ∃ queued running complete cancelled errored error detail handle, row =
    { queuedTime := queued, runningTime := running, completeTime := complete
      cancelledTime := cancelled, errorTime := errored, error := error, errorDetail := detail
      handle := handle }

/-- What a report would set is set already. -/
def NodeRow.Records (row : NodeRow) (outputs : HashMap String AssetRow) : NodeStatus → Prop
  | .queued handle => row.queuedTime ≠ none ∧ (handle = none ∨ row.handle = handle)
  | .running _ => row.runningTime ≠ none
  | .complete new => row.completeTime ≠ none ∧
      ∀ port, new.get? port ≠ none → outputs.get? port ≠ none
  | .cancelled => row.cancelledTime ≠ none
  | .error _ detail => row.errorTime ≠ none ∧ row.error ≠ none ∧
      (detail = none ∨ row.errorDetail ≠ none)
  | _ => False

section Rows

variable {K : Crates} {e : NodeEvent}

theorem planRow_columnsOf (K : Crates) (h : e.status.isPlan = true) : PlanRow (columnsOf K e) := by
  obtain ⟨loc, name, status⟩ := e
  cases status with
  | scheduled executionContext => exact ⟨name, some 0, none, executionContext, rfl⟩
  | paused => exact ⟨name, none, some 0, none, rfl⟩
  | _ => cases h

theorem reportRow_columnsOf (K : Crates) (hn : e.name = none) (h : e.status.isReport = true) :
    ReportRow (columnsOf K e) := by
  obtain ⟨loc, name, status⟩ := e
  cases hn
  cases status with
  | queued handle => exact ⟨some 0, none, none, none, none, none, none, handle, rfl⟩
  | running stateUpdate =>
    cases stateUpdate with
    | none => exact ⟨none, some 0, none, none, none, none, none, none, rfl⟩
    | some u => cases h
  | complete outputs => exact ⟨none, none, some 0, none, none, none, none, none, rfl⟩
  | cancelled => exact ⟨none, none, none, some 0, none, none, none, none, rfl⟩
  | error error detail => exact ⟨none, none, none, none, some 0, some error, detail, none, rfl⟩
  | _ => cases h

theorem eventColumns_report (K : Crates) (h : e.status.isReport = true) :
    ∃ row, eventColumns K 0 e = .ok row := by
  obtain ⟨loc, name, status⟩ := e
  cases status with
  | running stateUpdate =>
    cases stateUpdate with
    | none => exact ⟨_, rfl⟩
    | some u => cases h
  | scheduled context => cases h
  | paused => cases h
  | _ => exact ⟨_, rfl⟩

theorem eventInputs_report (h : e.status.isReport = true) : eventInputs e = [] := by
  obtain ⟨loc, name, status⟩ := e
  cases status with
  | running stateUpdate =>
    cases stateUpdate with
    | none => rfl
    | some u => cases h
  | _ => rfl

theorem PlanRow.onConflict_comm {a b : NodeRow} (ha : PlanRow a) (hb : ReportRow b)
    (row : NodeRow) : (row.onConflict a).onConflict b = (row.onConflict b).onConflict a := by
  obtain ⟨name, scheduled, paused, context, rfl⟩ := ha
  obtain ⟨queued, running, complete, cancelled, errored, error, detail, handle, rfl⟩ := hb
  simp [NodeRow.onConflict]

theorem addOutputs_plan (h : e.status.isPlan = true) (outputs : HashMap String AssetRow) :
    addOutputs outputs e = outputs := by
  obtain ⟨loc, name, status⟩ := e
  cases status with
  | complete outputs => cases h
  | _ => rfl

theorem upserts_some (row : NodeRow) (rows : List NodeRow) :
    NodeRow.upserts (some row) rows = some (rows.foldl NodeRow.onConflict row) := by
  induction rows generalizing row with
  | nil => rfl
  | cons new rows ih => exact ih (row.onConflict new)

theorem upserts_cons (row : NodeRow) (rows : List NodeRow) :
    NodeRow.upserts none (row :: rows) = some (rows.foldl NodeRow.onConflict row) :=
  upserts_some row rows

/-- A first row without pause times is like an update of an empty one. -/
theorem upserts_new {rows : List NodeRow} (hne : rows ≠ [])
    (h : ∀ row, rows.head? = some row → row.pausedTime = none ∧ row.unpausedTime = none) :
    NodeRow.upserts none rows = some (rows.foldl NodeRow.onConflict {}) := by
  obtain ⟨row, rows, rfl⟩ := List.exists_cons_of_ne_nil hne
  rw [NodeRow.upserts, List.foldl_cons, ← NodeRow.upserts, upsert_eq none (h row rfl),
    upserts_some]
  rfl

/-- Later rows leave the pause of the first. -/
theorem pausedTime_upserts (old : Option NodeRow) (row : NodeRow) (rows : List NodeRow) :
    (NodeRow.upserts old (row :: rows)).bind NodeRow.pausedTime =
      (NodeRow.upsert old row).pausedTime := by
  have hkeep : ∀ (rows : List NodeRow) (row : NodeRow),
      (rows.foldl NodeRow.onConflict row).pausedTime = row.pausedTime := by
    intro rows
    induction rows with
    | nil => exact fun _ => rfl
    | cons new rows ih => exact fun row => ih (row.onConflict new)
  rw [NodeRow.upserts, List.foldl_cons, ← NodeRow.upserts, upserts_some]
  exact hkeep rows _

/-- Outputs that all have rows add none. -/
theorem addOutputs_eq_self_iff {new : Specs} (he : e.status = .complete new)
    (outputs : HashMap String AssetRow) : addOutputs outputs e = outputs ↔
      ∀ port, new.get? port ≠ none → outputs.get? port ≠ none := by
  constructor
  · intro h port hport hnone
    have hget : (addOutputs outputs e).get? port =
        (outputs.get? port).or ((new.get? port).map AssetRow.ofSpec) :=
      get?_addOutputs_complete he port
    rw [h, hnone, Option.none_or] at hget
    exact hport (Option.map_eq_none_iff.1 hget.symm)
  · intro h
    have hports : ∀ o ∈ new.toList, outputs.contains o.1 = true := by
      intro o ho
      have hget : new.get? o.1 = some o.2 := HashMap.get?_eq_some_iff.2 ho
      exact Option.isSome_iff_ne_none.2 (h o.1 (hget ▸ Option.some_ne_none _))
    have hall : ∀ l : List (String × AssetSpec), (∀ o ∈ l, outputs.contains o.1 = true) →
        l.foldl addRow outputs = outputs := by
      intro l
      induction l with
      | nil => exact fun _ => rfl
      | cons o l ih =>
        intro hl
        rw [List.foldl_cons, addRow, if_pos (hl o (.head _))]
        exact ih fun o' ho' => hl o' (.tail _ ho')
    rw [addOutputs, he]
    exact hall _ hports

/-- A report that is in the tables already changes nothing, and no other report does. -/
theorem records_iff (hn : e.name = none) (h : e.status.isReport = true) (row : NodeRow)
    (outputs : HashMap String AssetRow) :
    ((row.onConflict (columnsOf K e)).plain = row.plain ∧ addOutputs outputs e = outputs) ↔
      row.Records outputs e.status := by
  obtain ⟨loc, name, status⟩ := e
  cases hn
  cases status with
  | queued handle =>
    cases hq : row.queuedTime <;> cases handle <;>
      simp [columnsOf, eventColumns, Except.toOption, NodeRow.plain, NodeRow.onConflict,
        NodeRow.Records, addOutputs, hq, eq_comm]
  | running stateUpdate =>
    cases stateUpdate with
    | none =>
      cases hr : row.runningTime <;>
        simp [columnsOf, eventColumns, Except.toOption, NodeRow.plain, NodeRow.onConflict,
          NodeRow.Records, addOutputs, hr]
    | some u => cases h
  | complete new =>
    rw [addOutputs_eq_self_iff rfl]
    cases hc : row.completeTime <;>
      simp [columnsOf, eventColumns, Except.toOption, NodeRow.plain, NodeRow.onConflict,
        NodeRow.Records, hc]
  | cancelled =>
    cases hc : row.cancelledTime <;>
      simp [columnsOf, eventColumns, Except.toOption, NodeRow.plain, NodeRow.onConflict,
        NodeRow.Records, addOutputs, hc]
  | error error detail =>
    cases ht : row.errorTime <;> cases he : row.error <;> cases hd : row.errorDetail <;>
      simp [columnsOf, eventColumns, Except.toOption, NodeRow.plain, NodeRow.onConflict,
        NodeRow.Records, addOutputs, ht, he, hd]
  | _ => cases h

end Rows

/-- What events do to a node, one after the other. -/
def NodeTables.fold (K : Crates) (d : NodeTables) (es : List NodeEvent) : NodeTables :=
  (NodeRow.upserts d.1 (es.map (columnsOf K)), es.foldl addOutputs d.2)

namespace NodeTables

variable {K : Crates}

theorem fold_append (d : NodeTables) (es es' : List NodeEvent) :
    d.fold K (es ++ es') = (d.fold K es).fold K es' := by
  simp only [fold, List.map_append, NodeRow.upserts_append, List.foldl_append]

theorem Same.fold {a b : NodeTables} (h : Same a b) (es : List NodeEvent) :
    Same (a.fold K es) (b.fold K es) :=
  same_upserts h rfl rfl es

/-- Batches without map bits are folds. -/
theorem foldl_batch_eq {ι : Type} {f : ι → List NodeEvent} {l : List ι}
    (h : ∀ x ∈ l, ∀ e ∈ f x, (columnsOf K e).mapCompleted = none) :
    ∀ d : NodeTables, l.foldl (fun d x => d.batch K (f x)) d = d.fold K (l.flatMap f) := by
  induction l with
  | nil => exact fun _ => rfl
  | cons x l ih =>
    intro d
    have hbatch : d.batch K (f x) = d.fold K (f x) := by
      have hrows : ((f x).map fun e => (columnsOf K e).mergeBits (d.1.bind NodeRow.mapCompleted)) =
          (f x).map (columnsOf K) :=
        List.map_congr_left fun e he => by simp only [NodeRow.mergeBits, h x (.head _) e he]
      rw [batch, hrows]
      rfl
    rw [List.foldl_cons, hbatch, ih fun y hy => h y (.tail _ hy), List.flatMap_cons, fold_append]

end NodeTables

section Merge

variable {K : Crates} {d : NodeTables} {ps xs ns ns' : List NodeEvent} {e : NodeEvent}
  (hps : ∀ e ∈ ps, e.status.isPlan = true)
  (hxs : ∀ e ∈ xs, e.name = none ∧ e.status.isReport = true)

include hps hxs

theorem foldl_onConflict_merge (hi : Interleaves ps xs ns) (row : NodeRow) :
    (ns.map (columnsOf K)).foldl NodeRow.onConflict row =
      (ps.map (columnsOf K)).foldl NodeRow.onConflict
        ((xs.map (columnsOf K)).foldl NodeRow.onConflict row) := by
  have hrespects : Respects (fun (row : NodeRow) e => row.onConflict (columnsOf K e)) Eq :=
    ⟨eq_equivalence, fun e h => congrArg (NodeRow.onConflict · (columnsOf K e)) h⟩
  simp only [List.foldl_map]
  refine hrespects.foldl_interleaves hi.symm (fun a ha b hb row => ?_) row
  exact ((planRow_columnsOf K (hps b hb)).onConflict_comm
    (reportRow_columnsOf K (hxs a ha).1 (hxs a ha).2) row).symm

omit hxs in
theorem foldl_addOutputs_merge (hi : Interleaves ps xs ns) (outputs : HashMap String AssetRow) :
    ns.foldl addOutputs outputs = xs.foldl addOutputs outputs :=
  hi.symm.foldl_idle (fun b hb s => addOutputs_plan (hps b hb) s) outputs

/-- On a node with a row, the reports may be taken before the plans. -/
theorem fold_merge (hi : Interleaves ps xs ns) (hd : d.1 ≠ none) :
    d.fold K ns = (d.fold K xs).fold K ps := by
  obtain ⟨row, outputs⟩ := d
  obtain ⟨row, rfl⟩ := Option.ne_none_iff_exists'.1 hd
  have hplans : ∀ outputs, ps.foldl addOutputs outputs = outputs := fun outputs =>
    foldl_addOutputs_merge hps (.left_alone ps) outputs
  simp only [NodeTables.fold, upserts_some, foldl_onConflict_merge hps hxs hi,
    foldl_addOutputs_merge hps hi, hplans]

/-- Where the plans do not begin with a pause, no merge does. -/
theorem head_merge_unpaused (hi : Interleaves ps xs ns)
    (hfirst : ps.head?.map NodeEvent.status ≠ some .paused) (he : ns.head? = some e) :
    (columnsOf K e).pausedTime = none ∧ (columnsOf K e).unpausedTime = none := by
  rcases hi.head?_eq with h | h
  · rw [he] at h
    have hplan := hps e (List.mem_of_mem_head? h.symm)
    rw [← h] at hfirst
    cases hstatus : e.status with
    | scheduled context => simp [columnsOf, eventColumns, hstatus, Except.toOption]
    | paused => exact absurd (congrArg some hstatus) hfirst
    | _ => rw [hstatus] at hplan; cases hplan
  · rw [he] at h
    have hreport := hxs e (List.mem_of_mem_head? h.symm)
    obtain ⟨_, _, _, _, _, _, _, _, hx⟩ := reportRow_columnsOf K hreport.1 hreport.2
    rw [hx]
    exact ⟨rfl, rfl⟩

/-- All merges leave the same, unless the first event of a node may be a pause or a report. -/
theorem fold_merges (hi : Interleaves ps xs ns) (hi' : Interleaves ps xs ns')
    (hd : d.1 = none → (ps.head?.map NodeEvent.status = some .paused) → xs = []) :
    d.fold K ns = d.fold K ns' := by
  obtain ⟨row, outputs⟩ := d
  have houtputs : ns.foldl addOutputs outputs = ns'.foldl addOutputs outputs := by
    rw [foldl_addOutputs_merge hps hi, foldl_addOutputs_merge hps hi']
  cases row with
  | some row => rw [fold_merge hps hxs hi (by simp), fold_merge hps hxs hi' (by simp)]
  | none =>
    by_cases hnil : xs = []
    · subst hnil
      rw [hi.eq_of_nil_right, hi'.eq_of_nil_right]
    · by_cases hnil' : ps = []
      · subst hnil'
        rw [hi.symm.eq_of_nil_right, hi'.symm.eq_of_nil_right]
      · have hfirst : ps.head?.map NodeEvent.status ≠ some .paused := fun h => hnil (hd rfl h)
        have hnew : ∀ {ns}, Interleaves ps xs ns → NodeRow.upserts none (ns.map (columnsOf K)) =
            some ((ns.map (columnsOf K)).foldl NodeRow.onConflict {}) := by
          intro ns hi
          obtain ⟨p, ps', rfl⟩ := List.exists_cons_of_ne_nil hnil'
          have hp : p ∈ ns := hi.mem_iff.2 (.inl (.head _))
          refine upserts_new (by simpa using List.ne_nil_of_mem hp) fun row hrow => ?_
          rw [List.head?_map, Option.map_eq_some_iff] at hrow
          obtain ⟨e, he, rfl⟩ := hrow
          exact head_merge_unpaused hps hxs hi hfirst he
        simp only [NodeTables.fold, hnew hi, hnew hi', houtputs,
          foldl_onConflict_merge hps hxs hi, foldl_onConflict_merge hps hxs hi']

/-- Where the plans of a node without a row begin with a pause, a report before them loses
the pause. -/
theorem fold_pause_lost (hd : d.1 = none) (hfirst : ps.head?.map NodeEvent.status = some .paused)
    (hne : xs ≠ []) : ¬NodeTables.Same (d.fold K (ps ++ xs)) (d.fold K (xs ++ ps)) := by
  obtain ⟨row, outputs⟩ := d
  cases hd
  intro h
  have hpause := congrArg (Option.bind · NodeRow.pausedTime) h.plain
  have hplain : ∀ row : Option NodeRow, (row.map NodeRow.plain).bind NodeRow.pausedTime =
      (row.bind NodeRow.pausedTime).map fun _ => 0 := by
    intro row
    cases row <;> rfl
  obtain ⟨p, ps', rfl⟩ : ∃ p ps', ps = p :: ps' := by
    cases ps with
    | nil => cases hfirst
    | cons p ps' => exact ⟨p, ps', rfl⟩
  obtain ⟨x, xs', rfl⟩ := List.exists_cons_of_ne_nil hne
  obtain ⟨_, _, _, _, _, _, _, _, hx⟩ :=
    reportRow_columnsOf K (hxs x (.head _)).1 (hxs x (.head _)).2
  have hp : (columnsOf K p).pausedTime = some 0 := by
    have hstatus : p.status = .paused := Option.some.inj hfirst
    simp [columnsOf, eventColumns, hstatus, Except.toOption]
  simp only [NodeTables.fold, List.cons_append, List.map_cons, hplain, pausedTime_upserts,
    NodeRow.upsert, hp, hx] at hpause
  cases hpause

omit hxs in
/-- Plans leave the fields of reports. -/
theorem foldl_onConflict_plans (row : NodeRow) :
    ∃ name scheduled context, (ps.map (columnsOf K)).foldl NodeRow.onConflict row =
      { row with name := name, scheduledTime := scheduled, executionContext := context } := by
  induction ps generalizing row with
  | nil => exact ⟨_, _, _, rfl⟩
  | cons p ps ih =>
    obtain ⟨name, scheduled, paused, context, hp⟩ := planRow_columnsOf K (hps p (.head _))
    obtain ⟨name', scheduled', context', hrest⟩ :=
      ih (fun e he => hps e (.tail _ he)) (row.onConflict (columnsOf K p))
    refine ⟨name', scheduled', context', ?_⟩
    rw [List.map_cons, List.foldl_cons, hrest, hp]
    simp [NodeRow.onConflict]

end Merge

/-- A report that changes nothing. -/
def Idle (K : Crates) (d : NodeTables) (e : NodeEvent) : Prop := (d.fold K [e]).Same d

section Idle

variable {K : Crates} {d : NodeTables} {ps xs : List NodeEvent} {e : NodeEvent}

theorem idle_iff (hn : e.name = none) (h : e.status.isReport = true) :
    Idle K d e ↔ ∃ row, d.1 = some row ∧ row.Records d.2 e.status := by
  obtain ⟨row, outputs⟩ := d
  cases row with
  | none =>
    constructor
    · intro hidle
      have hplain := hidle.plain
      cases hplain
    · rintro ⟨row, hrow, -⟩
      cases hrow
  | some row =>
    have hbits : (columnsOf K e).mapCompleted = none := by
      obtain ⟨_, _, _, _, _, _, _, _, hx⟩ := reportRow_columnsOf K hn h
      rw [hx]
    constructor
    · intro hidle
      exact ⟨row, rfl, (records_iff hn h row outputs).1
        ⟨Option.some.inj hidle.plain, hidle.outputs⟩⟩
    · rintro ⟨_, ⟨⟩, hrec⟩
      obtain ⟨hplain, houtputs⟩ := (records_iff hn h row outputs).2 hrec
      exact ⟨congrArg some hplain, by simp [NodeTables.fold, NodeRow.upserts, NodeRow.upsert,
        NodeRow.onConflict, hbits], houtputs⟩

theorem fold_idle (h : ∀ e ∈ xs, Idle K d e) : (d.fold K xs).Same d := by
  induction xs with
  | nil => exact .refl d
  | cons e xs ih =>
    rw [← List.singleton_append, NodeTables.fold_append]
    exact ((h e (.head _)).fold xs).trans (ih fun e' he' => h e' (.tail _ he'))

/-- A report that changes nothing before some plans would change nothing without them. -/
theorem idle_of_plans (hps : ∀ e ∈ ps, e.status.isPlan = true) (hn : e.name = none)
    (h : e.status.isReport = true) (hsame : (d.fold K ps).Same (d.fold K (e :: ps))) :
    Idle K d e := by
  have hone : ∀ e' ∈ [e], e'.name = none ∧ e'.status.isReport = true := by
    simpa using ⟨hn, h⟩
  obtain ⟨row, outputs⟩ := d
  cases row with
  | none =>
    have hplain := hsame.plain
    cases ps with
    | nil => cases hplain
    | cons p ps =>
      rw [List.forall_mem_cons] at hps
      obtain ⟨_, _, _, hfirst⟩ := foldl_onConflict_plans (K := K) hps.2 (columnsOf K p)
      obtain ⟨_, _, _, hsecond⟩ := foldl_onConflict_plans (K := K)
        (List.forall_mem_cons.2 hps) (columnsOf K e)
      obtain ⟨_, _, _, _, hp⟩ := planRow_columnsOf K hps.1
      have hrows : (NodeRow.upserts none ((p :: ps).map (columnsOf K))).map NodeRow.plain =
          (NodeRow.upserts none ((e :: p :: ps).map (columnsOf K))).map NodeRow.plain := hplain
      rw [List.map_cons, upserts_cons, hfirst, hp, List.map_cons, upserts_cons, hsecond] at hrows
      -- the report sets a time that the plans do not
      have htimes := congrArg (Option.map fun row : NodeRow => (row.queuedTime, row.runningTime,
        row.completeTime, row.cancelledTime, row.errorTime)) hrows
      obtain ⟨loc, name, status⟩ := e
      cases status with
      | running stateUpdate =>
        cases stateUpdate with
        | none => simp [NodeRow.plain, columnsOf, eventColumns, Except.toOption] at htimes
        | some u => cases h
      | scheduled context => cases h
      | paused => cases h
      | _ => simp [NodeRow.plain, columnsOf, eventColumns, Except.toOption] at htimes
  | some row =>
    have hi : Interleaves ps [e] (e :: ps) := .right e (.left_alone ps)
    have hi' : Interleaves ps [e] (ps ++ [e]) := by
      simpa using (Interleaves.left_alone ps).append (.right_alone [e])
    rw [fold_merges hps hone hi hi' (fun h => by cases h), NodeTables.fold_append] at hsame
    obtain ⟨row', hrow', hrec⟩ := (idle_iff hn h).1 hsame.symm
    obtain ⟨name, scheduled, context, hplans⟩ := foldl_onConflict_plans (K := K) hps row
    simp only [NodeTables.fold, upserts_some, hplans, Option.some.injEq,
      foldl_addOutputs_merge hps (.left_alone ps), List.foldl_nil] at hrow' hrec
    subst hrow'
    refine (idle_iff hn h).2 ⟨row, rfl, ?_⟩
    generalize e.status = status at hrec ⊢
    cases status <;> exact hrec

end Idle

end Sql

end Tierkreis
