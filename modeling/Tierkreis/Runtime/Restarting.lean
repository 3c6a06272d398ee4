import Tierkreis.Runtime.Dispatch

/-!
# Restarts beside the runtime

A restart works out its filter, makes a new attempt and copies node states into
it, one call on the store after another. The loops of the runtime take their
steps in between, and from the moment it is made the new attempt is one of the
active runs.
-/

namespace Tierkreis

open Lib Lib.Run

/-- A store with the two calls of a restart that change it. -/
class RestartableState (σ : Type) extends LawfulRuntimeState σ where
  newAttempt : σ → Time → Uuid → Result RunAttempt × σ
  copyNodeStatesFrom : σ → RunAttempt → RunAttempt → NodeCopyFilter → Result Unit × σ
  /-- Some node state of the attempt has been lost or changed. -/
  Overwrites : σ → σ → RunAttempt → Prop
  /-- A copy into the attempt meets nothing that it would overwrite. -/
  Untouched : σ → RunAttempt → Prop
  newAttempt_step : ∀ (st : σ) (now : Time) (runId : Uuid),
    (newAttempt st now runId).2 = st ∨ StoreStep st (newAttempt st now runId).2
  newAttempt_new : ∀ {st st' : σ} {now : Time} {runId : Uuid} {r : RunAttempt},
    newAttempt st now runId = (.ok r, st') →
    r.1 = runId ∧ ¬ known st r ∧ known st' r ∧ Untouched st' r
  hasOutputs_newAttempt : ∀ {st : σ} {r : RunAttempt} {loc : Location} (now : Time) (runId : Uuid),
    hasOutputs st r loc → hasOutputs (newAttempt st now runId).2 r loc
  untouched_newAttempt : ∀ {st : σ} {r : RunAttempt} (now : Time) (runId : Uuid), known st r →
    Untouched st r → Untouched (newAttempt st now runId).2 r
  copy_step : ∀ (st : σ) (target source : RunAttempt) (f : NodeCopyFilter),
    (copyNodeStatesFrom st target source f).2 = st ∨
      StoreStep st (copyNodeStatesFrom st target source f).2
  hasOutputs_copied : ∀ {st st' : σ} {target source : RunAttempt} {f : NodeCopyFilter}
    {loc : Location}, target.1 = source.1 → copyNodeStatesFrom st target source f = (.ok (), st') →
    hasOutputs st source loc → f.clears loc = false → loc ∉ f.truncateExact →
    hasOutputs st' target loc
  hasOutputs_copy : ∀ {st : σ} {target r : RunAttempt} {loc : Location} (source : RunAttempt)
    (f : NodeCopyFilter), r ≠ target → hasOutputs st r loc →
    hasOutputs (copyNodeStatesFrom st target source f).2 r loc
  untouched_copy : ∀ {st : σ} {target r : RunAttempt} (source : RunAttempt) (f : NodeCopyFilter),
    r ≠ target → Untouched st r → Untouched (copyNodeStatesFrom st target source f).2 r
  not_overwrites_copy : ∀ {st : σ} {target : RunAttempt} (source : RunAttempt) (f : NodeCopyFilter),
    Untouched st target → ¬ Overwrites st (copyNodeStatesFrom st target source f).2 target
  untouched_write : ∀ {st : σ} {r r' : RunAttempt} (now : Time) (e : WorkflowRunEvent), r ≠ r' →
    Untouched st r → Untouched (RuntimeState.write st r' now e).2 r
  untouched_unpause : ∀ {st : σ} {r r' : RunAttempt} (now : Time) (locations : List Location),
    r ≠ r' → Untouched st r → Untouched (RuntimeState.unpause st r' now locations).2 r

/-- How far a restart has come. -/
inductive Restart where
  | resolved (source : RunAttempt) (f : NodeCopyFilter)
  | made (target source : RunAttempt) (f : NodeCopyFilter)

/-- A copy, with the store before and after it. -/
structure Copied (σ : Type) where
  target : RunAttempt
  source : RunAttempt
  filter : NodeCopyFilter
  before : σ
  after : σ

/-- The runtime, the restarts that are under way, and the copies that have been made. -/
structure Race (σ : Type) where
  system : System σ
  restarts : List Restart := []
  copies : List (Copied σ) := []

inductive RaceLabel where
  | run (label : Label)
  | resolve
  | newAttempt
  | newAttemptFails
  | copy
  | copyFails

section Race

variable {σ : Type} [RestartableState σ] (R : Runtime)

/-- A step of the loops or of one of the restarts. The filter may be any: what it is worked
out from may have changed by now. -/
inductive RaceStep : Race σ → RaceLabel → Race σ → Prop
  | run {s : Race σ} {label : Label} {t : System σ} (h : Step R s.system label t)
      (hl : label ≠ .admin ∧ label ≠ .restart) :
      RaceStep s (.run label) { s with system := t }
  | resolve {s : Race σ} (source : RunAttempt) (f : NodeCopyFilter) :
      RaceStep s .resolve { s with restarts := s.restarts ++ [.resolved source f] }
  | newAttempt {s : Race σ} (before after : List Restart) {target source : RunAttempt}
      {f : NodeCopyFilter} {now : Time} {store : σ}
      (h : s.restarts = before ++ .resolved source f :: after)
      (hn : RestartableState.newAttempt s.system.store now source.1 = (.ok target, store)) :
      RaceStep s .newAttempt { s with
        system := s.system.setStore store
        restarts := before ++ .made target source f :: after }
  | newAttemptFails {s : Race σ} (before after : List Restart) {source : RunAttempt}
      {f : NodeCopyFilter} {now : Time} {g : Failure} {store : σ}
      (h : s.restarts = before ++ .resolved source f :: after)
      (hn : RestartableState.newAttempt s.system.store now source.1 = (.error g, store)) :
      RaceStep s .newAttemptFails { s with
        system := s.system.setStore store
        restarts := before ++ after }
  | copy {s : Race σ} (before after : List Restart) {target source : RunAttempt}
      {f : NodeCopyFilter} {store : σ}
      (h : s.restarts = before ++ .made target source f :: after)
      (hc : RestartableState.copyNodeStatesFrom s.system.store target source f = (.ok (), store)) :
      RaceStep s .copy
        { system := s.system.setStore store
          restarts := before ++ after
          copies := s.copies ++ [⟨target, source, f, s.system.store, store⟩] }
  | copyFails {s : Race σ} (before after : List Restart) {target source : RunAttempt}
      {f : NodeCopyFilter} {g : Failure} {store : σ}
      (h : s.restarts = before ++ .made target source f :: after)
      (hc : RestartableState.copyNodeStatesFrom s.system.store target source f = (.error g, store)) :
      RaceStep s .copyFails { s with
        system := s.system.setStore store
        restarts := before ++ after }

/-- The attempt has been made by a restart that has yet to copy into it. -/
def Race.Filling (s : Race σ) (target : RunAttempt) : Prop :=
  ∃ source f, Restart.made target source f ∈ s.restarts

/-- While a new attempt waits for its copy no round of planning begins and no user writes to
it, and the copy goes through. -/
def QuietStep (s : Race σ) (label : RaceLabel) (t : Race σ) : Prop :=
  RaceStep R s label t ∧
    match label with
    | .run (.wake _) => ∀ target, ¬ s.Filling target
    | .run (.unpause r _ _) | .run (.record r _ _) => ¬ s.Filling r
    | .copyFails => False
    | _ => True

/-- A node that was complete in the source and that the filter leaves so. -/
def Copied.Retains (c : Copied σ) (loc : Location) : Prop :=
  LawfulRuntimeState.hasOutputs c.before c.source loc ∧
    c.filter.clears loc = false ∧ loc ∉ c.filter.truncateExact

/-- No copy has overwritten anything, no task that a copy retains as complete has been handed
out for the new attempt, nor any task for an attempt that waits for its copy. -/
structure Race.Undisturbed (s : Race σ) : Prop where
  copies : ∀ c ∈ s.copies, ¬ RestartableState.Overwrites c.before c.after c.target ∧
    ∀ task ∈ s.system.dispatched, task.run = c.target → ¬ c.Retains task.loc
  filling : ∀ target, s.Filling target → ∀ task ∈ s.system.dispatched, task.run ≠ target

end Race

/-! ## What a step of the runtime changes -/

section Step

variable {σ : Type} [LawfulRuntimeState σ] {R : Runtime} {s t : System σ} {r : RunAttempt}

/-- The attempt has work or events under way. -/
def System.Involves (s : System σ) (r : RunAttempt) : Prop :=
  r ∈ s.todo ∨ (∃ task, (task ∈ s.inFlight ∨ task ∈ s.dispatched) ∧ task.run = r) ∨
    ∃ q, (q ∈ s.orchestratorEvents ∨ q ∈ s.executorEvents) ∧ (q.workflowRunId, q.attempt) = r

theorem System.Involves.deliver {now : Time} {e : RuntimeEvent} (h : (s.deliver now e).Involves r) :
    s.Involves r := by
  obtain ⟨processing, hd⟩ := s.deliver_spec now e
  rw [hd] at h
  exact h

/-- An attempt is drawn in only by a round of planning, as an active one. -/
theorem involves_step {label : Label} (h : Step R s label t) (hl : label ≠ .admin ∧ label ≠ .restart)
    (hr : t.Involves r) :
    s.Involves r ∨ (∃ todo, label = .wake todo) ∧ r ∈ RuntimeState.activeRuns s.store := by
  cases h with
  | wake _ _ ht _ =>
    rcases hr with hr | hr
    · exact .inr ⟨⟨_, rfl⟩, (ht r).1 hr⟩
    · exact .inl (.inr hr)
  | @plan r' rs points c g actions performed u refused hp htodo hb hperm =>
    left
    obtain ⟨events, tasks, planning, -, ht, hperf⟩ := System.perform_spec (R := R) r' refused
      (ActionPlan.ofActions R.orchestrator r' performed).effects (s.planned r' c u)
    have htasks := (performed_tasks hperm ht).1
    rw [hperf] at hr
    have hhead : r' ∈ s.todo := by
      rw [htodo]
      exact .head _
    rcases hr with hr | ⟨task, hm, rfl⟩ | ⟨q, hq, rfl⟩
    · exact .inl (List.mem_of_mem_tail hr)
    · rcases hm with hm | hm <;> rcases List.mem_append.1 hm with hm | hm
      · exact .inr (.inl ⟨task, .inl hm, rfl⟩)
      · exact .inl ((htasks task hm).1 ▸ hhead)
      · exact .inr (.inl ⟨task, .inr hm, rfl⟩)
      · exact .inl ((htasks task hm).1 ▸ hhead)
    · rcases hq with hq | hq
      · rcases List.mem_append.1 hq with hq | hq
        · exact .inr (.inr ⟨q, .inl hq, rfl⟩)
        · obtain ⟨e, -, rfl⟩ := List.mem_map.1 hq
          exact .inl hhead
      · exact .inr (.inr ⟨q, .inr hq, rfl⟩)
  | fail _ _ => exact .inl hr
  | process _ hq =>
    left
    rcases hr.deliver with hr | hr | ⟨q, hq' | hq', rfl⟩
    · exact .inl hr
    · exact .inr (.inl hr)
    · exact .inr (.inr ⟨q, .inl (hq ▸ .tail _ hq'), rfl⟩)
    · exact .inr (.inr ⟨q, .inr hq', rfl⟩)
  | processReport _ hq =>
    left
    rcases hr.deliver with hr | hr | ⟨q, hq' | hq', rfl⟩
    · exact .inl hr
    · exact .inr (.inl hr)
    · exact .inr (.inr ⟨q, .inl hq', rfl⟩)
    · exact .inr (.inr ⟨q, .inr (List.mem_of_mem_eraseIdx hq'), rfl⟩)
  | @report index task status assets h hs he =>
    left
    have htask : s.Involves task.run := .inr (.inl ⟨task, .inl (List.mem_of_getElem? h), rfl⟩)
    rcases hr with hr | ⟨task', hm, rfl⟩ | ⟨q, hq, rfl⟩
    · exact .inl hr
    · rcases hm with hm | hm
      · have hm : task' ∈ if status.isTerminal then s.inFlight.eraseIdx index else s.inFlight := hm
        split_ifs at hm
        · exact .inr (.inl ⟨task', .inl (List.mem_of_mem_eraseIdx hm), rfl⟩)
        · exact .inr (.inl ⟨task', .inl hm, rfl⟩)
      · exact .inr (.inl ⟨task', .inr hm, rfl⟩)
    · rcases hq with hq | hq
      · exact .inr (.inr ⟨q, .inl hq, rfl⟩)
      · rcases List.mem_append.1 hq with hq | hq
        · exact .inr (.inr ⟨q, .inr hq, rfl⟩)
        · rw [List.mem_singleton.1 hq]
          exact htask
  | unpause => exact .inl hr
  | record _ => exact .inl hr
  | admin _ => exact absurd rfl hl.1
  | restart _ => exact absurd rfl hl.2

/-- The attempts that a step may write to. -/
inductive WritesTo (s : System σ) : Label → RunAttempt → Prop
  | queued {label : Label} {r : RunAttempt} (h : s.Involves r) : WritesTo s label r
  | unpause (r : RunAttempt) (locations : List Location) (now : Time) :
      WritesTo s (.unpause r locations now) r
  | record (r : RunAttempt) (e : WorkflowRunEvent) (now : Time) : WritesTo s (.record r e now) r

theorem store_step {label : Label} (h : Step R s label t) (hl : label ≠ .admin ∧ label ≠ .restart) :
    t.store = s.store ∨
      (∃ r now e, WritesTo s label r ∧ t.store = (RuntimeState.write s.store r now e).2) ∨
      ∃ r now locations, WritesTo s label r ∧
        t.store = (RuntimeState.unpause s.store r now locations).2 := by
  cases h with
  | wake _ _ _ _ => exact .inl rfl
  | @plan r' rs points c g actions performed u refused hp htodo hb hperm =>
    obtain ⟨events, tasks, planning, -, -, hperf⟩ := System.perform_spec (R := R) r' refused
      (ActionPlan.ofActions R.orchestrator r' performed).effects (s.planned r' c u)
    rw [hperf]
    exact .inl rfl
  | fail _ _ => exact .inl rfl
  | @process e es now _ hq =>
    obtain ⟨processing, hd⟩ := System.deliver_spec { s with orchestratorEvents := es } now e
    rw [hd]
    refine .inr (.inl ⟨_, now, e.event, .queued ?_, rfl⟩)
    exact .inr (.inr ⟨e, .inl (hq ▸ .head _), rfl⟩)
  | @processReport e index now _ hq =>
    obtain ⟨processing, hd⟩ := System.deliver_spec
      { s with executorEvents := s.executorEvents.eraseIdx index } now e
    rw [hd]
    refine .inr (.inl ⟨_, now, e.event, .queued ?_, rfl⟩)
    exact .inr (.inr ⟨e, .inr (List.mem_of_getElem? hq), rfl⟩)
  | report _ _ _ => exact .inl rfl
  | unpause => exact .inr (.inr ⟨_, _, _, .unpause _ _ _, rfl⟩)
  | record _ => exact .inr (.inl ⟨_, _, _, .record _ _ _, rfl⟩)
  | admin _ => exact absurd rfl hl.1
  | restart _ => exact absurd rfl hl.2

/-- A round begins with fresh reads; else the reads go on and no attempt joins. -/
theorem reads_step {label : Label} (h : Step R s label t) (hl : label ≠ .admin ∧ label ≠ .restart) :
    t.readable = [t.store] ∨
      (∀ st ∈ t.readable, st ∈ s.readable ∨ st = t.store) ∧ ∀ r ∈ t.todo, r ∈ s.todo := by
  have hset : ∀ (u : System σ) (store : σ), ∀ st ∈ (u.setStore store).readable,
      st ∈ u.readable ∨ st = store := fun u store st hst => by
    rcases List.mem_cons.1 hst with rfl | hst
    · exact .inr rfl
    · exact .inl hst
  cases h with
  | wake _ _ _ _ => exact .inl rfl
  | @plan r' rs points c g actions performed u refused hp htodo hb hperm =>
    obtain ⟨events, tasks, planning, -, -, hperf⟩ := System.perform_spec (R := R) r' refused
      (ActionPlan.ofActions R.orchestrator r' performed).effects (s.planned r' c u)
    rw [hperf]
    exact .inl rfl
  | fail _ _ => exact .inr ⟨fun _ h => .inl h, fun _ h => h⟩
  | @process e es now _ hq =>
    obtain ⟨processing, hd⟩ := System.deliver_spec { s with orchestratorEvents := es } now e
    rw [hd]
    exact .inr ⟨hset _ _, fun _ h => h⟩
  | @processReport e index now _ hq =>
    obtain ⟨processing, hd⟩ := System.deliver_spec
      { s with executorEvents := s.executorEvents.eraseIdx index } now e
    rw [hd]
    exact .inr ⟨hset _ _, fun _ h => h⟩
  | report _ _ _ => exact .inr ⟨fun _ h => .inl h, fun _ h => h⟩
  | unpause => exact .inr ⟨hset _ _, fun _ h => h⟩
  | record _ => exact .inr ⟨hset _ _, fun _ h => h⟩
  | admin _ => exact absurd rfl hl.1
  | restart _ => exact absurd rfl hl.2

/-- The contexts start at the root graph. -/
def System.Rooted (s : System σ) : Prop :=
  ∀ r c, s.contexts.get? r = some c → c.context.parentLoc = Location.root

theorem System.Rooted.step {label : Label} (hs : s.Rooted) (h : Step R s label t) : t.Rooted := by
  cases h with
  | wake _ _ _ _ =>
    intro r c hc
    change (s.contexts.filterMap _).get? r = some c at hc
    rw [HashMap.get?_filterMap] at hc
    obtain ⟨c', hc', h⟩ := Option.bind_eq_some_iff.1 hc
    split_ifs at h
    cases h
    exact hs r c hc'
  | @plan r' rs points c g actions performed u refused hp htodo hb hperm =>
    obtain ⟨events, tasks, planning, -, -, hperf⟩ := System.perform_spec (R := R) r' refused
      (ActionPlan.ofActions R.orchestrator r' performed).effects (s.planned r' c u)
    rw [hperf]
    intro r c' hc'
    change (s.contexts.insert r' _).get? r = some c' at hc'
    rw [HashMap.get?_insert] at hc'
    split_ifs at hc'
    · cases hc'
      rcases contextFor_eq_ok hb.context with hc | ⟨-, hc, -⟩
      · exact hs r' c hc
      · exact hc
    · exact hs r c' hc'
  | @process e es now _ _ =>
    obtain ⟨processing, hd⟩ := System.deliver_spec { s with orchestratorEvents := es } now e
    rw [hd]
    exact hs
  | @processReport e index now _ _ =>
    obtain ⟨processing, hd⟩ := System.deliver_spec
      { s with executorEvents := s.executorEvents.eraseIdx index } now e
    rw [hd]
    exact hs
  | restart _ =>
    intro r c hc
    cases hc
  | _ => exact hs

/-- What is handed out is for the attempt at the head of the round, which was found without
outputs for it. -/
theorem dispatched_step {label : Label} (hs : s.Rooted) (h : Step R s label t) :
    ∀ task ∈ t.dispatched, task ∈ s.dispatched ∨
      task.run ∈ s.todo ∧ ¬ s.Settled task.run task.loc := by
  intro task hm
  cases h with
  | @plan r' rs points c g actions performed u refused hp htodo hb hperm =>
    obtain ⟨events, tasks, planning, -, ht, hperf⟩ := System.perform_spec (R := R) r' refused
      (ActionPlan.ofActions R.orchestrator r' performed).effects (s.planned r' c u)
    rw [hperf] at hm
    rcases List.mem_append.1 hm with hm | hm
    · exact .inl hm
    · obtain ⟨rfl, hloc⟩ := (performed_tasks hperm ht).1 task hm
      have hroot : c.context.parentLoc = Location.root := by
        rcases contextFor_eq_ok hb.context with hc | ⟨-, hc, -⟩
        · exact hs _ c hc
        · exact hc
      obtain ⟨-, -, -, -, hu⟩ := (hb.schedules hroot).tasks _ hloc
      exact .inr ⟨by rw [htodo]; exact .head _, not_settled hu⟩
  | @process e es now _ _ =>
    obtain ⟨processing, hd⟩ := System.deliver_spec { s with orchestratorEvents := es } now e
    rw [hd] at hm
    exact .inl hm
  | @processReport e index now _ _ =>
    obtain ⟨processing, hd⟩ := System.deliver_spec
      { s with executorEvents := s.executorEvents.eraseIdx index } now e
    rw [hd] at hm
    exact .inl hm
  | restart _ => cases hm
  | _ => exact .inl hm

end Step

/-! ## Restarts that nothing disturbs -/

section Quiet

variable {σ : Type} [RestartableState σ] {R : Runtime} {s t : Race σ}

def Restart.target? : Restart → Option RunAttempt
  | .resolved _ _ => none
  | .made target _ _ => some target

theorem filterMap_made (target source : RunAttempt) (f : NodeCopyFilter) (l : List Restart) :
    (Restart.made target source f :: l).filterMap Restart.target? =
      target :: l.filterMap Restart.target? := rfl

/-- The attempts that restarts have made. -/
def Race.targets (s : Race σ) : List RunAttempt :=
  s.restarts.filterMap Restart.target? ++ s.copies.map Copied.target

omit [RestartableState σ] in
theorem Race.Filling.mem {target : RunAttempt} (h : s.Filling target) : target ∈ s.targets := by
  obtain ⟨source, f, h⟩ := h
  exact List.mem_append_left _ (List.mem_filterMap.2 ⟨_, h, rfl⟩)

omit [RestartableState σ] in
/-- What a copy that has been made relies on from then on. -/
structure Copied.Stands (c : Copied σ) (s : System σ) : Prop where
  kept : ¬ RestartableState.Overwrites c.before c.after c.target
  outputs : ∀ loc, c.Retains loc → LawfulRuntimeState.hasOutputs s.store c.target loc
  reads : c.target ∈ s.todo → ∀ loc, c.Retains loc → s.Settled c.target loc
  dispatched : ∀ task ∈ s.dispatched, task.run = c.target → ¬ c.Retains task.loc

structure RaceInv (s : Race σ) : Prop where
  valid : LawfulRuntimeState.valid s.system.store
  rooted : s.system.Rooted
  known : ∀ r, s.system.Involves r → LawfulRuntimeState.known s.system.store r
  nodup : s.targets.Nodup
  made : ∀ target ∈ s.targets, LawfulRuntimeState.known s.system.store target
  run : ∀ target source f, Restart.made target source f ∈ s.restarts → target.1 = source.1
  filling : ∀ target, s.Filling target →
    ¬ s.system.Involves target ∧ RestartableState.Untouched s.system.store target
  copies : ∀ c ∈ s.copies, c.Stands s.system

theorem RaceInv.init {store : σ} (hv : LawfulRuntimeState.valid store) (assets : Assets) :
    RaceInv { system := { store := store, assets := assets } : Race σ } where
  valid := hv
  rooted r c hc := by cases hc
  known r hr := by
    rcases hr with hr | ⟨task, hm | hm, -⟩ | ⟨q, hq | hq, -⟩
    · cases hr
    · cases hm
    · cases hm
    · cases hq
    · cases hq
  nodup := List.nodup_nil
  made target h := by cases h
  run target source f h := by cases h
  filling target h := by
    obtain ⟨_, _, h⟩ := h
    cases h
  copies c h := by cases h

theorem RaceInv.undisturbed (hs : RaceInv s) : s.Undisturbed where
  copies c hc := ⟨(hs.copies c hc).kept, (hs.copies c hc).dispatched⟩
  filling target hf task hm hrun :=
    (hs.filling target hf).1 (.inr (.inl ⟨task, .inr hm, hrun⟩))

theorem RaceInv.runStep (hs : RaceInv s) {label : Label} {u : System σ}
    (h : Step R s.system label u) (hl : label ≠ .admin ∧ label ≠ .restart)
    (hq : QuietStep R s (.run label) { s with system := u }) : RaceInv { s with system := u } := by
  have hwake : ∀ target, s.Filling target → ∀ todo, label ≠ .wake todo := by
    rintro target hf todo rfl
    exact hq.2 target hf
  have hwrites : ∀ target, s.Filling target → ∀ r, WritesTo s.system label r → target ≠ r := by
    rintro target hf r hw rfl
    cases hw with
    | queued hi => exact (hs.filling target hf).1 hi
    | unpause _ _ _ => exact hq.2 hf
    | record _ _ _ => exact hq.2 hf
  have hstore : u.store = s.system.store ∨ StoreStep s.system.store u.store := by
    rcases store_step h hl with h | ⟨r, now, e, -, h⟩ | ⟨r, now, locations, -, h⟩
    · exact .inl h
    · exact .inr (h ▸ .write r now e)
    · exact .inr (h ▸ .unpause r now locations)
  have hknown : ∀ r, LawfulRuntimeState.known s.system.store r →
      LawfulRuntimeState.known u.store r := by
    intro r hr
    rcases hstore with h | h
    · rwa [h]
    · exact LawfulRuntimeState.known_step h hr
  have houtputs : ∀ r loc, LawfulRuntimeState.hasOutputs s.system.store r loc →
      LawfulRuntimeState.hasOutputs u.store r loc := by
    intro r loc ho
    rcases store_step h hl with h | ⟨r', now, e, -, h⟩ | ⟨r', now, locations, -, h⟩
    · rwa [h]
    · rw [h]
      exact LawfulRuntimeState.hasOutputs_write _ _ _ ho
    · rw [h]
      exact LawfulRuntimeState.hasOutputs_unpause _ _ _ ho
  refine
    { valid := ?_
      rooted := hs.rooted.step h
      known := fun r hr => ?_
      nodup := hs.nodup
      made := fun target ht => hknown _ (hs.made target ht)
      run := hs.run
      filling := fun target hf => ⟨fun hi => ?_, ?_⟩
      copies := fun c hc => ?_ }
  · rcases hstore with h | h
    · exact h ▸ hs.valid
    · exact LawfulRuntimeState.valid_step h hs.valid
  · rcases involves_step h hl hr with hr | ⟨-, ha⟩
    · exact hknown r (hs.known r hr)
    · exact hknown r (LawfulRuntimeState.known_of_active hs.valid ha)
  · rcases involves_step h hl hi with hi | ⟨⟨todo, hw⟩, -⟩
    · exact (hs.filling target hf).1 hi
    · exact hwake target hf todo hw
  · have hu := (hs.filling target hf).2
    rcases store_step h hl with h | ⟨r, now, e, hw, h⟩ | ⟨r, now, locations, hw, h⟩
    · exact h ▸ hu
    · rw [h]
      exact RestartableState.untouched_write now e (hwrites target hf r hw) hu
    · rw [h]
      exact RestartableState.untouched_unpause now locations (hwrites target hf r hw) hu
  · have hcs := hs.copies c hc
    have hout : ∀ loc, c.Retains loc → LawfulRuntimeState.hasOutputs u.store c.target loc :=
      fun loc hr => houtputs _ _ (hcs.outputs loc hr)
    refine ⟨hcs.kept, hout, fun ht loc hr st hst => ?_, fun task hm hrun hr => ?_⟩
    · rcases reads_step h hl with hfresh | ⟨hreads, htodo⟩
      · rw [hfresh] at hst
        rw [List.mem_singleton.1 hst]
        exact hout loc hr
      · rcases hreads st hst with hst | rfl
        · exact hcs.reads (htodo _ ht) loc hr st hst
        · exact hout loc hr
    · rcases dispatched_step hs.rooted h task hm with hm | ⟨ht, hn⟩
      · exact hcs.dispatched task hm hrun hr
      · rw [hrun] at ht hn
        exact hn (hcs.reads ht _ hr)

/-- A call of a restart on the store. -/
theorem Copied.Stands.setStore {c : Copied σ} {u : System σ} (h : c.Stands u) {store : σ}
    (ho : ∀ loc, LawfulRuntimeState.hasOutputs u.store c.target loc →
      LawfulRuntimeState.hasOutputs store c.target loc) : c.Stands (u.setStore store) where
  kept := h.kept
  outputs loc hr := ho loc (h.outputs loc hr)
  reads ht loc hr st hst := by
    rcases List.mem_cons.1 hst with rfl | hst
    · exact ho loc (h.outputs loc hr)
    · exact h.reads ht loc hr st hst
  dispatched := h.dispatched

/-- A call of a restart that keeps the outputs that copies stand on, with the restarts that
are under way after it. -/
theorem RaceInv.call (hs : RaceInv s) {store : σ} {restarts : List Restart}
    (hstep : store = s.system.store ∨ StoreStep s.system.store store)
    (ho : ∀ c ∈ s.copies, ∀ loc, LawfulRuntimeState.hasOutputs s.system.store c.target loc →
      LawfulRuntimeState.hasOutputs store c.target loc)
    (hsub : restarts.Sublist s.restarts)
    (hu : ∀ target source f, Restart.made target source f ∈ restarts →
      RestartableState.Untouched s.system.store target → RestartableState.Untouched store target) :
    RaceInv { s with system := s.system.setStore store, restarts := restarts } := by
  have hknown : ∀ r, LawfulRuntimeState.known s.system.store r →
      LawfulRuntimeState.known store r := by
    intro r hr
    rcases hstep with h | h
    · rwa [h]
    · exact LawfulRuntimeState.known_step h hr
  have htargets : (restarts.filterMap Restart.target? ++ s.copies.map Copied.target).Sublist
      s.targets := (hsub.filterMap _).append_right _
  refine
    { valid := ?_
      rooted := hs.rooted
      known := fun r hr => hknown r (hs.known r hr)
      nodup := hs.nodup.sublist htargets
      made := fun target ht => hknown _ (hs.made target (htargets.subset ht))
      run := fun target source f hm => hs.run target source f (hsub.subset hm)
      filling := ?_
      copies := fun c hc => (hs.copies c hc).setStore (ho c hc) }
  · rcases hstep with h | h
    · exact h ▸ hs.valid
    · exact LawfulRuntimeState.valid_step h hs.valid
  · rintro target ⟨source, f, hm⟩
    obtain ⟨hi, hun⟩ := hs.filling target ⟨source, f, hsub.subset hm⟩
    exact ⟨hi, hu target source f hm hun⟩

theorem RaceInv.newAttempt (hs : RaceInv s) {before after : List Restart} {source : RunAttempt}
    {f : NodeCopyFilter} (now : Time) (h : s.restarts = before ++ .resolved source f :: after) :
    RaceInv { s with
      system := s.system.setStore (RestartableState.newAttempt s.system.store now source.1).2
      restarts := before ++ after } := by
  have hsub : (before ++ after).Sublist s.restarts := by
    rw [h]
    exact (List.sublist_cons_self _ _).append_left _
  refine hs.call (RestartableState.newAttempt_step _ now source.1) (fun c _ loc ho =>
    RestartableState.hasOutputs_newAttempt now source.1 ho) hsub fun target source' f' hm hu => ?_
  have ht : s.Filling target := ⟨source', f', hsub.subset hm⟩
  exact RestartableState.untouched_newAttempt now source.1 (hs.made target ht.mem) hu

theorem RaceInv.made_new (hs : RaceInv s) {before after : List Restart} {target source : RunAttempt}
    {f : NodeCopyFilter} {now : Time} {store : σ}
    (h : s.restarts = before ++ .resolved source f :: after)
    (hn : RestartableState.newAttempt s.system.store now source.1 = (.ok target, store)) :
    RaceInv { s with
      system := s.system.setStore store
      restarts := before ++ .made target source f :: after } := by
  have hrest := hs.newAttempt now h
  rw [hn] at hrest
  obtain ⟨hrun, hunknown, hk, hu⟩ := RestartableState.newAttempt_new hn
  -- nothing knew of the new attempt
  have hnot : target ∉ (before ++ after).filterMap Restart.target? ++ s.copies.map Copied.target := by
    intro ht
    refine hunknown (hs.made target ?_)
    rw [Race.targets, h]
    rcases List.mem_append.1 ht with ht | ht
    · refine List.mem_append_left _ (List.Sublist.subset ?_ ht)
      exact ((List.sublist_cons_self _ _).append_left _).filterMap _
    · exact List.mem_append_right _ ht
  have hperm : ((before ++ .made target source f :: after).filterMap Restart.target? ++
      s.copies.map Copied.target).Perm
      (target :: ((before ++ after).filterMap Restart.target? ++ s.copies.map Copied.target)) := by
    rw [List.filterMap_append, List.filterMap_append, filterMap_made, List.append_assoc,
      List.append_assoc, List.cons_append]
    exact List.perm_middle
  have hmem : ∀ x, x ∈ before ++ Restart.made target source f :: after →
      x = .made target source f ∨ x ∈ before ++ after := by
    intro x hx
    rcases List.mem_append.1 hx with hx | hx
    · exact .inr (List.mem_append_left _ hx)
    · rcases List.mem_cons.1 hx with rfl | hx
      · exact .inl rfl
      · exact .inr (List.mem_append_right _ hx)
  exact
    { valid := hrest.valid
      rooted := hrest.rooted
      known := hrest.known
      nodup := hperm.nodup_iff.2 (List.nodup_cons.2 ⟨hnot, hrest.nodup⟩)
      made := fun r hr => by
        rcases List.mem_cons.1 (hperm.subset hr) with rfl | hr
        · exact hk
        · exact hrest.made r hr
      run := fun r source' f' hm => by
        rcases hmem _ hm with he | hm
        · cases he
          exact hrun
        · exact hrest.run r source' f' hm
      filling := by
        rintro r ⟨source', f', hm⟩
        rcases hmem _ hm with he | hm
        · cases he
          exact ⟨fun hi => hunknown (hs.known _ hi), hu⟩
        · exact hrest.filling r ⟨source', f', hm⟩
      copies := hrest.copies }

theorem RaceInv.copied (hs : RaceInv s) {before after : List Restart} {target source : RunAttempt}
    {f : NodeCopyFilter} {store : σ} (h : s.restarts = before ++ .made target source f :: after)
    (hc : RestartableState.copyNodeStatesFrom s.system.store target source f = (.ok (), store)) :
    RaceInv
      { system := s.system.setStore store
        restarts := before ++ after
        copies := s.copies ++ [⟨target, source, f, s.system.store, store⟩] } := by
  have hfilling : s.Filling target := by
    refine ⟨source, f, ?_⟩
    rw [h]
    exact List.mem_append_right _ (.head _)
  have hsub : (before ++ after).Sublist s.restarts := by
    rw [h]
    exact (List.sublist_cons_self _ _).append_left _
  have hperm : ((before ++ after).filterMap Restart.target? ++
      (s.copies ++ [(⟨target, source, f, s.system.store, store⟩ : Copied σ)]).map
        Copied.target).Perm s.targets := by
    rw [Race.targets, h, List.filterMap_append, List.filterMap_append, filterMap_made,
      List.map_append, List.map_singleton, ← List.append_assoc]
    refine (List.perm_append_singleton _ _).trans ?_
    rw [List.append_assoc, List.append_assoc, List.cons_append]
    exact List.perm_middle.symm
  -- the other attempts that restarts have made are not the one that is copied into
  have hother : ∀ r ∈ (before ++ after).filterMap Restart.target? ++ s.copies.map Copied.target,
      r ≠ target := by
    have hnd := hperm.nodup_iff.2 hs.nodup
    rw [List.map_append, List.map_singleton, ← List.append_assoc] at hnd
    rintro r hr rfl
    exact (List.nodup_append.1 hnd).2.2 _ hr _ (.head _) rfl
  have hstore : store = (RestartableState.copyNodeStatesFrom s.system.store target source f).2 := by
    rw [hc]
  have hrest : RaceInv { s with system := s.system.setStore store, restarts := before ++ after } := by
    refine hs.call ?_ (fun c hm loc ho => ?_) hsub fun r source' f' hm hu => ?_
    · rw [hstore]
      exact RestartableState.copy_step _ target source f
    · rw [hstore]
      exact RestartableState.hasOutputs_copy source f
        (hother _ (List.mem_append_right _ (List.mem_map_of_mem hm))) ho
    · rw [hstore]
      refine RestartableState.untouched_copy source f (hother _ ?_) hu
      exact List.mem_append_left _ (List.mem_filterMap.2 ⟨_, hm, rfl⟩)
  obtain ⟨hi, hu⟩ := hs.filling target hfilling
  have hrun := hs.run target source f (by rw [h]; exact List.mem_append_right _ (.head _))
  refine
    { valid := hrest.valid
      rooted := hrest.rooted
      known := hrest.known
      nodup := hperm.nodup_iff.2 hs.nodup
      made := fun r hr => ?_
      run := hrest.run
      filling := hrest.filling
      copies := fun c hm => ?_ }
  · rw [Race.targets, List.map_append, ← List.append_assoc] at hr
    rcases List.mem_append.1 hr with hr | hr
    · exact hrest.made r hr
    · rw [List.mem_singleton.1 hr]
      have hk := hs.made target hfilling.mem
      rcases RestartableState.copy_step s.system.store target source f with he | he
      · rw [hc] at he
        exact he ▸ hk
      · rw [hc] at he
        exact LawfulRuntimeState.known_step he hk
  · rcases List.mem_append.1 hm with hm | hm
    · exact hrest.copies c hm
    · rw [List.mem_singleton.1 hm]
      refine ⟨?_, fun loc hr => ?_, fun ht => absurd (.inl ht) hi, fun task hd hr =>
        absurd (.inr (.inl ⟨task, .inr hd, hr⟩)) hi⟩
      · have := RestartableState.not_overwrites_copy source f hu
        rwa [hc] at this
      · exact RestartableState.hasOutputs_copied hrun hc hr.1 hr.2.1 hr.2.2

theorem RaceInv.step {label : RaceLabel} (hs : RaceInv s) (h : QuietStep R s label t) :
    RaceInv t := by
  obtain ⟨hstep, hq⟩ := id h
  cases hstep with
  | run hstep hl => exact hs.runStep hstep hl h
  | resolve source f =>
    have hmem : ∀ target source' f',
        Restart.made target source' f' ∈ s.restarts ++ [.resolved source f] →
        Restart.made target source' f' ∈ s.restarts := by
      intro target source' f' hm
      rcases List.mem_append.1 hm with hm | hm
      · exact hm
      · cases List.mem_singleton.1 hm
    have htargets : (s.restarts ++ [Restart.resolved source f]).filterMap Restart.target? =
        s.restarts.filterMap Restart.target? := by
      rw [List.filterMap_append]
      exact List.append_nil _
    exact
      { valid := hs.valid
        rooted := hs.rooted
        known := hs.known
        nodup := by
          rw [Race.targets, htargets]
          exact hs.nodup
        made := fun target ht => hs.made target (by rwa [Race.targets, htargets] at ht)
        run := fun target source' f' hm => hs.run target source' f' (hmem _ _ _ hm)
        filling := fun target ⟨source', f', hm⟩ => hs.filling target ⟨source', f', hmem _ _ _ hm⟩
        copies := hs.copies }
  | newAttempt _ _ hr hn => exact hs.made_new hr hn
  | @newAttemptFails before after source f now g store hr hn =>
    have hrest := hs.newAttempt now hr
    rwa [hn] at hrest
  | copy _ _ hr hc => exact hs.copied hr hc
  | copyFails _ _ _ _ => exact hq.elim

theorem RaceInv.steps {labels : List RaceLabel} (h : Steps (QuietStep R) s labels t)
    (hs : RaceInv s) : RaceInv t := by
  induction h with
  | nil => exact hs
  | cons h _ ih => exact ih (hs.step h)

theorem undisturbed_of_quiet {store : σ} {assets : Assets} {labels : List RaceLabel}
    (hv : LawfulRuntimeState.valid store)
    (h : Steps (QuietStep R) { system := { store := store, assets := assets } } labels s) :
    s.Undisturbed :=
  (RaceInv.steps h (.init hv assets)).undisturbed

/-! ## Runs of the runtime between the steps of restarts -/

section Lift

variable {u v : System σ} {labels : List Label}

theorem race_of_run (h : Steps (Step R) u labels v)
    (hl : ∀ label ∈ labels, label ≠ .admin ∧ label ≠ .restart) (restarts : List Restart)
    (copies : List (Copied σ)) :
    Steps (RaceStep R) ⟨u, restarts, copies⟩ (labels.map .run) ⟨v, restarts, copies⟩ := by
  induction h with
  | nil => exact .nil _
  | cons hs _ ih =>
    rw [List.forall_mem_cons] at hl
    exact .cons (.run hs hl.1) (ih hl.2)

/-- While no restart is under way every step is quiet. -/
theorem quiet_of_run (h : Steps (Step R) u labels v)
    (hl : ∀ label ∈ labels, label ≠ .admin ∧ label ≠ .restart) (copies : List (Copied σ)) :
    Steps (QuietStep R) ⟨u, [], copies⟩ (labels.map .run) ⟨v, [], copies⟩ := by
  induction h with
  | nil => exact .nil _
  | @cons u w v label labels hs _ ih =>
    rw [List.forall_mem_cons] at hl
    refine .cons ⟨.run hs hl.1, ?_⟩ (ih hl.2)
    have hno : ∀ target, ¬ (⟨u, [], copies⟩ : Race σ).Filling target := by
      rintro target ⟨source, f, hm⟩
      cases hm
    cases label with
    | wake _ => exact hno
    | unpause r _ _ | record r _ _ => exact hno r
    | _ => trivial

/-- A restart whose calls follow one another. -/
theorem quiet_restart {source target : RunAttempt} {f : NodeCopyFilter} {now : Time} {store store' : σ}
    (hn : RestartableState.newAttempt u.store now source.1 = (.ok target, store))
    (hc : RestartableState.copyNodeStatesFrom store target source f = (.ok (), store')) :
    Steps (QuietStep R) ⟨u, [], []⟩ [.resolve, .newAttempt, .copy]
      ⟨(u.setStore store).setStore store', [], [⟨target, source, f, store, store'⟩]⟩ := by
  have hmade : RaceStep R ⟨u, [.resolved source f], []⟩ .newAttempt
      ⟨u.setStore store, [.made target source f], []⟩ :=
    .newAttempt (s := ⟨u, [.resolved source f], []⟩) [] [] rfl hn
  have hcopy : RaceStep R ⟨u.setStore store, [.made target source f], []⟩ .copy
      ⟨(u.setStore store).setStore store', [], [⟨target, source, f, store, store'⟩]⟩ :=
    .copy (s := ⟨u.setStore store, [.made target source f], []⟩) [] [] rfl hc
  exact .cons ⟨.resolve source f, trivial⟩ (.cons ⟨hmade, trivial⟩ (.cons ⟨hcopy, trivial⟩ (.nil _)))

end Lift

end Quiet

end Tierkreis
