import Tierkreis.Executor.HpcAccount

/-!
# Reattaching to a job

A task that is dispatched again with the handle of its job goes back under watch
only while the job is queued, running or complete, and with outputs that were
reserved for it anew: the job of the handle writes to others.
-/

namespace Tierkreis

open Lib Lib.Run

def SchedulerStatus.isActive : SchedulerStatus → Bool
  | .queued | .running | .complete => true
  | _ => false

namespace HpcExecutor

/-! ## What reattaching should do -/

/-- The job is queued for the loop or watched. -/
def Pending (s : HpcExecutor) (task : BackgroundTaskPlan) : Prop :=
  task ∈ s.tasks ∨ ∃ key status, s.jobHandles.get? key = some (.watching task status)

/-- A job of an earlier executor is pending for the task. -/
def Reattached (s : HpcExecutor) (key : TaskKey) : Prop :=
  ∃ task, s.Pending task ∧ task.key = key ∧ task.reattached = true

/-- The task has left the table, with one terminal event. -/
structure Ended (s t : HpcExecutor) (key : TaskKey) (event : RuntimeEvent) : Prop where
  gone : ¬ t.Watches key
  once : terminals key t.events = terminals key s.events + 1
  sent : ∃ events, t.events = s.events ++ events ∧ event ∈ events

def transferEvent (key : TaskKey) : Result Specs → RuntimeEvent
  | .ok outputs => sendComplete key outputs
  | .error err => sendError key err

/-- The event of a reattached job agrees with what became of the job. -/
def Settled (s t : HpcExecutor) (key : TaskKey) (jobId : TaskHandle)
    (transfer : TaskKey → Specs → Result Specs) : Option SchedulerStatus → Prop
  | some .queued | some .running => True
  | some .complete => ∃ told, s.told.get? jobId = some told ∧
      Ended s t key (transferEvent key (transfer key told))
  | _ => Ended s t key (sendCancelled key) ∨ ∃ err, Ended s t key (sendError key err)

/-- The tasks with a handle are accounted for. `execute` hands such a task to the loop with the
outputs of its job, whatever became of the job, and goes on with the batch; a poll settles it. -/
def ReattachSound (s : HpcExecutor) (label : Label) (t : HpcExecutor) : Prop :=
  (∀ key, s.Reattached key → Accounted s t key) ∧
    match label with
    | .submit _ => ∀ next ∈ s.executing.head?, ∀ handle ∈ next.1.taskHandle,
        t.executing = s.executing.tail ∧
          ∃ task, t.tasks = s.tasks ++ [task] ∧ task.key = next.1.key ∧
            s.told.get? handle = some task.outputs
    | .poll (some statuses) transfer => ∀ key task status,
        s.jobHandles.get? key = some (.watching task status) → task.reattached = true →
          Settled s t key task.jobId transfer (statuses.get? task.jobId)
    | _ => True

/-! ## When it does -/

/-- A handle is that of a job which was told to write the outputs of the task. The scheduler
takes a new job under a new id, and new assets are reserved. -/
def Persisted (s : HpcExecutor) (label : Label) : Prop :=
  match label with
  | .submit a => ∀ next ∈ s.executing.head?,
      (∀ handle ∈ next.1.taskHandle, ∃ told, s.told.get? handle = some told ∧
        ∀ name, (told.get? name).isSome = true ↔ name ∈ next.1.outputs) ∧
      (next.1.taskHandle = none → ∀ jobId, a.submitted = .ok jobId → s.told.get? jobId = none) ∧
      ∀ specs, a.reserved = .ok specs → specs.length = next.1.outputs.length ∧
        ∀ spec ∈ specs, ∀ handle told name, s.told.get? handle = some told →
          told.get? name ≠ some spec
  | _ => True

/-- What is reserved for a task with a handle and the check of its job return, the job is active
and the task has no outputs. Polls find the job and requests leave it alone. -/
def Reattachable (s : HpcExecutor) (label : Label) : Prop :=
  (∀ key, s.Reattached key → CarefulAt s label key) ∧
    match label with
    | .submit a => ∀ next ∈ s.executing.head?, ∀ handle ∈ next.1.taskHandle, ∃ specs statuses,
        a.reserved = .ok specs ∧ a.checked = .ok statuses ∧
          next.1.outputs = [] ∧ ∃ status ∈ statuses.get? handle, status.isActive = true
    | .poll (some statuses) _ => ∀ key task status,
        s.jobHandles.get? key = some (.watching task status) → task.reattached = true →
          (statuses.get? task.jobId).isSome = true
    | _ => True

/-- Each pending job of an earlier executor stands with the outputs it was told to write. -/
def TasksTold (s : HpcExecutor) : Prop :=
  ∀ task, s.Pending task → task.reattached = true → s.told.get? task.jobId = some task.outputs

variable {s t : HpcExecutor} {label : Label} {key : TaskKey}

/-! ## The batch -/

theorem isJobActive_eq_ok {statuses : HashMap TaskHandle SchedulerStatus} {handle jobId : TaskHandle} :
    isJobActive (.ok statuses) handle = .ok jobId ↔
      jobId = handle ∧ ∃ status ∈ statuses.get? handle, status.isActive = true := by
  unfold isJobActive
  dsimp only [bind, Except.bind]
  cases statuses.get? handle with
  | none =>
    refine iff_of_false nofun ?_
    rintro ⟨-, status, hm, -⟩
    cases hm
  | some status =>
    simp only [Option.mem_some_iff, exists_eq_left']
    cases status with
    | queued | running | complete =>
      exact ⟨fun h => ⟨(Except.ok.inj h).symm, rfl⟩, fun h => congrArg Except.ok h.1.symm⟩
    | cancelled | error _ => exact iff_of_false nofun fun h => by cases h.2

/-- Outputs that are reserved anew are not those of a job, unless there are none. -/
theorem ofList_zip_ne {outputs : List String} {specs : List AssetSpec} {told : Specs}
    (hlen : specs.length = outputs.length) (hne : outputs ≠ [])
    (hfresh : ∀ spec ∈ specs, ∀ name, told.get? name ≠ some spec) :
    HashMap.ofList (outputs.zip specs) ≠ told := by
  rintro rfl
  obtain ⟨names, name, rfl⟩ := (List.eq_nil_or_concat outputs).resolve_left hne
  obtain ⟨init, spec, rfl⟩ := (List.eq_nil_or_concat specs).resolve_left fun h => by
    rw [h] at hlen
    simp at hlen
  have hinit : names.length = init.length := by simpa using hlen.symm
  refine hfresh spec (by simp) name ?_
  rw [List.concat_eq_append, List.concat_eq_append, List.zip_append hinit]
  exact HashMap.get?_ofList_concat _ _ _

theorem eq_empty_of_get? {m : Specs} (h : ∀ name, m.get? name = none) : m = ∅ := by
  refine AList.ext ?_
  cases he : m.entries with
  | nil => rfl
  | cons e l =>
    have hm : (e.1, e.2) ∈ m.toList := by
      rw [HashMap.toList, he]
      exact List.mem_cons_self
    rw [← HashMap.get?_eq_some_iff, h] at hm
    cases hm

/-- A round of `execute` for a task with a handle. -/
theorem backgroundTaskPlan_eq_ok (s : HpcExecutor) {plan : TaskPlan} (number : Nat) {a : Submission}
    {handle : TaskHandle} {specs : List AssetSpec} {statuses : HashMap TaskHandle SchedulerStatus}
    {task : BackgroundTaskPlan} (hh : plan.taskHandle = some handle) (hr : a.reserved = .ok specs)
    (hc : a.checked = .ok statuses) :
    s.backgroundTaskPlan plan number a = .ok task ↔
      (∃ status ∈ statuses.get? handle, status.isActive = true) ∧
        task = {
          key := plan.key
          outputs := .ofList (plan.outputs.zip specs)
          outputStorageName := s.outputStorageName
          jobId := handle
          number := number
          reattached := true } := by
  unfold backgroundTaskPlan jobOf
  rw [hr, hh, hc, Result.bind_eq_ok]
  constructor
  · rintro ⟨specs', h, hj⟩
    cases h
    obtain ⟨jobId, hactive, htask⟩ := Result.bind_eq_ok.1 hj
    obtain ⟨rfl, hst⟩ := isJobActive_eq_ok.1 hactive
    cases htask
    exact ⟨hst, rfl⟩
  · rintro ⟨hst, rfl⟩
    refine ⟨specs, rfl, ?_⟩
    rw [Result.bind_eq_ok]
    exact ⟨handle, isJobActive_eq_ok.2 ⟨rfl, hst⟩, rfl⟩

/-- The round hands over the task with the outputs of its job, and the batch goes on, exactly
when its calls return, the job is active and the task has no outputs. -/
theorem submit_sound_iff {a : Submission} {next : TaskPlan × Nat} {handle : TaskHandle}
    (h : Step s (.submit a) t) (hper : Persisted s (.submit a)) (hn : next ∈ s.executing.head?)
    (hh : handle ∈ next.1.taskHandle) :
    (t.executing = s.executing.tail ∧
        ∃ task, t.tasks = s.tasks ++ [task] ∧ task.key = next.1.key ∧
          s.told.get? handle = some task.outputs) ↔
      ∃ specs statuses, a.reserved = .ok specs ∧ a.checked = .ok statuses ∧
        next.1.outputs = [] ∧ ∃ status ∈ statuses.get? handle, status.isActive = true := by
  obtain ⟨hpersisted, -, hreserved⟩ := hper next hn
  obtain ⟨told, htold, hnames⟩ := hpersisted handle hh
  cases h with
  | @submit plan number rest task a h ht =>
    rw [h] at hn
    cases hn
    obtain ⟨specs, hr, hrest⟩ := Result.bind_eq_ok.1 ht
    obtain ⟨jobId, hjob, -⟩ := Result.bind_eq_ok.1 hrest
    clear hrest
    rw [jobOf, hh] at hjob
    obtain ⟨statuses, hc, -⟩ := Result.bind_eq_ok.1 hjob
    obtain ⟨hlen, hfresh⟩ := hreserved specs hr
    obtain ⟨hst, rfl⟩ := (backgroundTaskPlan_eq_ok s number hh hr hc).1 ht
    have hout : HashMap.ofList (plan.outputs.zip specs) = told ↔ plan.outputs = [] := by
      constructor
      · intro he
        by_contra hne
        exact ofList_zip_ne hlen hne (fun spec hs name => hfresh spec hs handle told name htold) he
      · intro he
        refine Eq.trans ?_ (eq_empty_of_get? fun name => ?_).symm
        · rw [he]
          rfl
        · have := hnames name
          rw [he] at this
          simpa using this
    constructor
    · rintro ⟨-, task, htasks, -, htask⟩
      have := List.append_cancel_left htasks
      cases this
      have hsame := (Option.some.inj (htold.symm.trans htask)).symm
      exact ⟨specs, statuses, hr, hc, hout.1 hsame, hst⟩
    · rintro ⟨-, -, -, -, he, -⟩
      refine ⟨by rw [h]; rfl, _, rfl, rfl, ?_⟩
      rw [htold, ← hout.2 he]
  | @submitFails plan number rest err a h ht =>
    rw [h] at hn
    cases hn
    constructor
    · rintro ⟨-, task, htasks, -⟩
      have := congrArg List.length htasks
      simp at this
    · rintro ⟨specs, statuses, hr, hc, -, hst⟩
      have := (backgroundTaskPlan_eq_ok s number hh hr hc).2 ⟨hst, rfl⟩
      cases ht.symm.trans this

/-! ## The polls -/

variable {statuses : HashMap TaskHandle SchedulerStatus} {transfer : TaskKey → Specs → Result Specs}

theorem settled_iff (hw : WellKeyed s) (htold : TasksTold s)
    (h : s.checkJobs (some statuses) transfer = .ok t) {task : BackgroundTaskPlan}
    {previous : Option SchedulerStatus}
    (hk : s.jobHandles.get? key = some (.watching task previous)) (hr : task.reattached = true) :
    Settled s t key task.jobId transfer (statuses.get? task.jobId) ↔
      (statuses.get? task.jobId).isSome = true := by
  have hkey : task.key = key := hw _ _ _ hk
  have hjob : (key, task.jobId) ∈ s.jobs := mem_jobs.2 ⟨task, previous, hk, rfl⟩
  have htask := htold task (.inr ⟨key, previous, hk⟩) hr
  have hacc := accounted_checkJobs hw h key
  obtain ⟨handles, hc, hin, -⟩ := checkJobs_some hw statuses transfer
  cases hc.symm.trans h
  have hentry := hin _ hjob
  have hevents : ∀ e ∈ polledEvents task previous (transfer key task.outputs)
      (statuses.get? task.jobId), e ∈ s.jobs.flatMap (jobEvents statuses transfer s) := fun e he => by
    refine List.mem_flatMap.2 ⟨_, hjob, ?_⟩
    rw [jobEvents, hk]
    exact he
  rw [jobEntry, hk] at hentry
  -- A job that a poll reports as over leaves the table with its event.
  have hended : ∀ {event}, polledEntry task previous (statuses.get? task.jobId) = none →
      event ∈ polledEvents task previous (transfer key task.outputs) (statuses.get? task.jobId) →
        Ended s { s with
          jobHandles := handles
          events := s.events ++ s.jobs.flatMap (jobEvents statuses transfer s) } key event :=
    fun {event} hn he => by
      have hgone : handles.get? key = none := hentry.trans hn
      refine ⟨?_, ?_, _, rfl, hevents event he⟩
      · rintro ⟨task', status, hk'⟩
        cases hgone.symm.trans hk'
      · simp only [Accounted, pending, hk, hgone, watchedIn] at hacc
        simp only
        omega
  cases hst : statuses.get? task.jobId with
  | none =>
    rw [hst] at hentry
    have hwatches : Watches { s with
        jobHandles := handles
        events := s.events ++ s.jobs.flatMap (jobEvents statuses transfer s) } key :=
      ⟨task, previous, hentry⟩
    refine iff_of_false ?_ fun h => by cases h
    rintro (h | ⟨err, h⟩) <;> exact h.gone hwatches
  | some status =>
    rw [hst] at hended
    refine iff_of_true ?_ rfl
    cases status with
    | queued | running => trivial
    | complete =>
      refine ⟨task.outputs, htask, hended rfl ?_⟩
      rw [← hkey]
      simp only [polledEvents]
      cases transfer task.key task.outputs <;> exact List.mem_singleton.2 rfl
    | cancelled => exact .inl (hended rfl (by rw [← hkey]; exact List.mem_singleton.2 rfl))
    | error message =>
      exact .inr ⟨_, hended rfl (by rw [← hkey]; exact List.mem_singleton.2 rfl)⟩

/-! ## One step -/

theorem reattachSound_iff (hw : WellKeyed s) (htold : TasksTold s) (h : Step s label t)
    (hper : Persisted s label) : ReattachSound s label t ↔ Reattachable s label := by
  refine and_congr (forall₂_congr fun key _ => accounted_iff hw h) ?_
  cases label with
  | submit a =>
    refine forall₂_congr fun next hn => forall₂_congr fun handle hh => ?_
    exact submit_sound_iff h hper hn hh
  | poll checked transfer =>
    cases checked with
    | none => exact Iff.rfl
    | some statuses =>
      refine forall₂_congr fun key task => forall₂_congr fun previous hk => forall_congr' fun hr => ?_
      cases h with
      | poll checked transfer hp ht => exact settled_iff hw htold ht hk hr
      | pollPanics checked transfer hp ht =>
        obtain ⟨t, hok⟩ := checkJobs_ok hw (some statuses) transfer
        cases hok.symm.trans ht
  | _ => exact Iff.rfl

/-- Apart from the job that `execute` hands over, a step only passes on jobs. -/
theorem pending_of_step (hw : WellKeyed s) (h : Step s label t) (hl : ∀ a, label ≠ .submit a) :
    t.told = s.told ∧ ∀ task, t.Pending task → s.Pending task := by
  cases h with
  | execute plans h => exact ⟨rfl, fun task h => h⟩
  | submit a h ht => exact absurd rfl (hl a)
  | submitFails a h ht => exact absurd rfl (hl a)
  | cancel key => exact ⟨rfl, fun task h => h⟩
  | @processCancelled key request cancels cancelled hp h =>
    have herase : ∀ task, (task ∈ s.tasks ∨ ∃ k status,
        (s.jobHandles.erase key).get? k = some (.watching task status)) → s.Pending task := by
      rintro task (ht | ⟨k, status, hk⟩)
      · exact .inl ht
      · rw [HashMap.get?_erase] at hk
        split_ifs at hk
        exact .inr ⟨k, status, hk⟩
    unfold processCancelledTask
    dsimp only
    split
    · exact ⟨rfl, herase⟩
    · exact ⟨rfl, herase⟩
    · refine ⟨rfl, ?_⟩
      rintro task (ht | ⟨k, status, hk⟩)
      · exact .inl ht
      · rw [HashMap.get?_insert] at hk
        split_ifs at hk
        · cases hk
        · exact .inr ⟨k, status, hk⟩
  | @monitor task tasks cancelled hp h =>
    have hinsert : ∀ task', (task' ∈ tasks ∨ ∃ k status,
        (s.jobHandles.insert task.key (.watching task none)).get? k = some (.watching task' status)) →
          s.Pending task' := by
      rintro task' (ht | ⟨k, status, hk⟩)
      · exact .inl (by rw [h]; exact List.mem_cons_of_mem task ht)
      · rw [HashMap.get?_insert] at hk
        split_ifs at hk
        · cases hk
          exact .inl (by rw [h]; exact List.mem_cons_self)
        · exact .inr ⟨k, status, hk⟩
    unfold monitorTask
    dsimp only
    split
    · cases cancelled <;> exact ⟨rfl, hinsert⟩
    · exact ⟨rfl, hinsert⟩
  | poll checked transfer hp ht =>
    cases checked with
    | none =>
      cases ht
      exact ⟨rfl, fun task h => h⟩
    | some statuses =>
      obtain ⟨handles, hc, hin, hout⟩ := checkJobs_some hw statuses transfer
      cases hc.symm.trans ht
      refine ⟨rfl, ?_⟩
      rintro task (ht | ⟨key, status, hk⟩)
      · exact .inl ht
      · change handles.get? key = _ at hk
        by_cases hkey : s.Watches key
        · obtain ⟨job, hj, rfl⟩ := List.mem_map.1 (watches_iff_mem_jobs.1 hkey)
          obtain ⟨task', previous, hget⟩ := hkey
          rw [hin job hj, jobEntry, hget] at hk
          dsimp only [polledEntry] at hk
          split at hk <;> cases hk <;> exact .inr ⟨_, _, hget⟩
        · rw [hout key hkey] at hk
          exact .inr ⟨key, status, hk⟩
  | pollPanics checked transfer hp ht => exact ⟨rfl, fun task h => h⟩

theorem TasksTold.step (hw : WellKeyed s) (htold : TasksTold s) (h : Step s label t)
    (hper : Persisted s label) (hr : Reattachable s label) : TasksTold t := by
  by_cases hl : ∀ a, label ≠ .submit a
  · obtain ⟨hsame, hpending⟩ := pending_of_step hw h hl
    intro task ht hre
    rw [hsame]
    exact htold task (hpending task ht) hre
  · push Not at hl
    obtain ⟨a, rfl⟩ := hl
    have hstep := h
    cases h with
    | submitFails a h ht => exact htold
    | @submit plan number rest task a h ht =>
      have hn : (plan, number) ∈ s.executing.head? := by rw [h]; rfl
      obtain ⟨specs, hreserved, hrest⟩ := Result.bind_eq_ok.1 ht
      obtain ⟨jobId, hjob, htask⟩ := Result.bind_eq_ok.1 hrest
      clear hrest
      have hpending : ∀ task', Pending ({ s with executing := rest }.enqueue task) task' →
          s.Pending task' ∨ task' = task := by
        rintro task' (h | h)
        · exact (List.mem_append.1 h).imp .inl List.mem_singleton.1
        · exact .inl (.inr h)
      unfold jobOf at hjob
      cases hh : plan.taskHandle with
      | none =>
        rw [hh] at hjob htask
        cases htask
        have hfresh : s.told.get? jobId = none := (hper _ hn).2.1 hh jobId hjob
        intro task' ht' hre
        rcases hpending task' ht' with hp | rfl
        · have hold := htold task' hp hre
          change (s.told.insert jobId _).get? _ = _
          rw [HashMap.get?_insert, if_neg, hold]
          intro he
          rw [he, hfresh] at hold
          cases hold
        · cases hre
      | some handle =>
        rw [hh] at hjob htask
        obtain ⟨-, task', htasks, -, htask'⟩ :=
          (submit_sound_iff hstep hper hn hh).2 (hr.2 _ hn handle hh)
        cases List.append_cancel_left htasks
        obtain ⟨statuses, hchecked, -⟩ := Result.bind_eq_ok.1 hjob
        rw [hchecked] at hjob
        obtain ⟨rfl, -⟩ := isJobActive_eq_ok.1 hjob
        cases htask
        intro task' ht' hre
        rcases hpending task' ht' with hp | rfl
        · exact htold task' hp hre
        · exact htask'

end HpcExecutor

/-- In a run of the HPC executor every step treats the tasks with a handle as their jobs demand
exactly when the calls for such a task return, it is dispatched with its job active and without
outputs, the polls find the job, and no request or registration upsets the account of its task. -/
theorem hpc_reattach_sound (name : String) (told : HashMap TaskHandle Specs)
    (labels : List HpcExecutor.Label) (s : HpcExecutor) :
    Steps (fun s label t => (HpcExecutor.Step s label t ∧ HpcExecutor.Persisted s label) ∧
        HpcExecutor.ReattachSound s label t) { outputStorageName := name, told := told } labels s ↔
      Steps (fun s label t => (HpcExecutor.Step s label t ∧ HpcExecutor.Persisted s label) ∧
        HpcExecutor.Reattachable s label) { outputStorageName := name, told := told } labels s := by
  refine steps_iff (fun s => s.WellKeyed ∧ s.TasksTold) (fun s label t hs => ?_)
    (fun s label t hs h => ?_) ⟨fun key task status h => (by cases h), ?_⟩
  · exact and_congr_right fun h => HpcExecutor.reattachSound_iff hs.1 hs.2 h.1 h.2
  · exact ⟨hs.1.step h.1.1, hs.2.step hs.1 h.1.1 h.1.2 h.2⟩
  · rintro task (h | ⟨key, status, h⟩) <;> cases h

/-! ## A job that failed, one that is complete and one that is forgotten -/

/-- The job was told to write the output to the first asset. -/
def oldJob : HashMap TaskHandle Specs := .ofList [("1", .ofList [("value", memorySpec)])]

def reattachedTask : TaskPlan := { workerTask with outputs := ["value"], taskHandle := some "1" }

/-- The second asset is reserved for the output. -/
def resubmission (status : SchedulerStatus) : Submission where
  reserved := .ok [{ memorySpec with assetKey := 1 }]
  checked := .ok (.ofList [("1", status)])
  submitted := .ok "2"

theorem persisted_resubmission {s : HpcExecutor} (status : SchedulerStatus) (number : Nat)
    (rest : List (TaskPlan × Nat)) (htold : s.told = oldJob)
    (h : s.executing = (reattachedTask, number) :: rest) :
    s.Persisted (.submit (resubmission status)) := by
  intro next hn
  rw [h] at hn
  cases hn
  refine ⟨fun handle hh => ?_, nofun, fun specs hs => ?_⟩
  · cases hh
    refine ⟨.ofList [("value", memorySpec)], by rw [htold]; rfl, fun name => ?_⟩
    rw [HashMap.ofList, List.foldl_cons, List.foldl_nil, HashMap.get?_insert]
    by_cases hname : name = "value"
    · simp [hname, reattachedTask]
    · simp [hname, reattachedTask]
  · cases hs
    refine ⟨rfl, fun spec hspec handle told name hh hv => ?_⟩
    rw [List.mem_singleton.1 hspec] at hv
    rw [htold, oldJob, HashMap.ofList, List.foldl_cons, List.foldl_nil, HashMap.get?_insert] at hh
    split_ifs at hh
    · cases hh
      rw [HashMap.ofList, List.foldl_cons, List.foldl_nil, HashMap.get?_insert] at hv
      split_ifs at hv
      · exact absurd hv (by decide)
      · cases hv
    · cases hh

/-- A task that has outputs is not handed over with those of its job, whatever became of the
job. A job that the scheduler has forgotten stays under watch. -/
theorem hpc_reattach_unsound :
    (∀ status, ¬ ∀ labels s t,
      Steps (fun s label t => HpcExecutor.Step s label t ∧ HpcExecutor.Persisted s label)
        { outputStorageName := "checkpoints", told := oldJob } labels s →
      HpcExecutor.Step s (.submit (resubmission status)) t →
      s.Persisted (.submit (resubmission status)) →
      s.ReattachSound (.submit (resubmission status)) t) ∧
    ¬ ∀ labels s t,
      Steps (fun s label t => HpcExecutor.Step s label t ∧ HpcExecutor.Persisted s label)
        { outputStorageName := "checkpoints", told := .ofList [("1", ∅)] } labels s →
      HpcExecutor.Step s (.poll (some ∅) fun _ => .ok) t →
      s.ReattachSound (.poll (some ∅) fun _ => .ok) t := by
  constructor
  · intro status hall
    let s : HpcExecutor := {
      outputStorageName := "checkpoints"
      told := oldJob
      executing := [(reattachedTask, 1)]
      dispatched := [reattachedTask.key] }
    have hper := persisted_resubmission (s := s) status 1 [] rfl rfl
    obtain ⟨t, ht⟩ : ∃ t, HpcExecutor.Step s (.submit (resubmission status)) t := by
      cases ht : s.backgroundTaskPlan reattachedTask 1 (resubmission status) with
      | ok task => exact ⟨_, .submit _ rfl ht⟩
      | error err => exact ⟨_, .submitFails _ rfl ht⟩
    have h := hall [.execute [reattachedTask]] s t
      (.cons ⟨.execute [reattachedTask] rfl, trivial⟩ (.nil _)) ht hper
    have hsound := h.2 (reattachedTask, 1) rfl "1" rfl
    have hn : (reattachedTask, 1) ∈ s.executing.head? := rfl
    obtain ⟨-, -, -, -, hempty, -⟩ := (HpcExecutor.submit_sound_iff ht hper hn rfl).1 hsound
    cases hempty
  · intro hall
    let task : TaskPlan := { workerTask with taskHandle := some "1" }
    have h := hall _ _ _ (
      .cons ⟨.execute [task] rfl, trivial⟩ <|
      .cons ⟨.submit (submission "1" .running) rfl rfl, ?_⟩ <|
      .cons ⟨.monitor (.ok ()) rfl rfl, trivial⟩ (.nil _))
      (.poll (some ∅) (fun _ => .ok) rfl rfl)
    · have hsettled := h.2 task.key _ none rfl rfl
      rcases hsettled with hended | ⟨err, hended⟩ <;> exact hended.gone ⟨_, none, rfl⟩
    · intro next hn
      cases hn
      refine ⟨fun handle hh => ?_, nofun, fun specs hs => ?_⟩
      · cases hh
        exact ⟨∅, rfl, fun name => iff_of_false (by simp) nofun⟩
      · cases hs
        exact ⟨rfl, fun spec h => by cases h⟩

end Tierkreis
