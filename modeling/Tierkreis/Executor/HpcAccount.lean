import Tierkreis.Executor.Hpc
import Tierkreis.Executor.Terminal

/-!
# The account of the HPC executor

A job is on its way to the loop, under its watch, or over. A poll moves each job
from the second state to the third with one terminal event. A cancel request may
take a watched job off the table without one, and a registration may meet a
watched job, a request for an earlier dispatch or a scheduler that does not
cancel: these are the steps that break the account.
-/

namespace Tierkreis

open Lib Lib.Run

namespace HpcExecutor

/-! ## The account -/

def Watches (s : HpcExecutor) (key : TaskKey) : Prop :=
  ∃ task status, s.jobHandles.get? key = some (.watching task status)

def watchedIn : Option TaskRegistration → Nat
  | some (.watching ..) => 1
  | _ => 0

/-- The jobs of a task that are queued for the loop or in its table. -/
def pending (s : HpcExecutor) (key : TaskKey) : Nat :=
  (s.tasks.map BackgroundTaskPlan.key).count key + watchedIn (s.jobHandles.get? key)

/-- No job has left the table without its one terminal event, no request has reached the job
of a later dispatch, and the loop runs on. -/
structure NeverLoses (s : HpcExecutor) : Prop where
  noPanic : s.panicked = false
  account : Balanced s.submitted s.pending s.events
  notLater : ∀ c ∈ s.cancelled, c.1 ≤ c.2

/-- The step keeps the account of a task. -/
def Accounted (s t : HpcExecutor) (key : TaskKey) : Prop :=
  t.submitted.count key + (s.pending key + terminals key s.events) =
    s.submitted.count key + (t.pending key + terminals key t.events)

/-- No request finds the job of the task watched, and its registration finds neither a watched
job nor a scheduler that does not cancel. -/
def CarefulAt (s : HpcExecutor) (label : Label) (key : TaskKey) : Prop :=
  match label with
  | .processCancelled _ => ∀ c ∈ s.cancels.head?, c.1 = key → ¬ s.Watches key
  | .monitor cancelled => ∀ task ∈ s.tasks.head?, task.key = key →
      ¬ s.Watches key ∧ ∀ request, s.jobHandles.get? key = some (.cancelBeforeRegistration request) →
        cancelled = .ok ()
  | _ => True

/-- A registration meets no request for an earlier dispatch. -/
def OwnRequest (s : HpcExecutor) (label : Label) : Prop :=
  match label with
  | .monitor _ => ∀ task ∈ s.tasks.head?, ∀ request,
      s.jobHandles.get? task.key = some (.cancelBeforeRegistration request) → task.number ≤ request
  | _ => True

def CarefulStep (s : HpcExecutor) (label : Label) (t : HpcExecutor) : Prop :=
  Step s label t ∧ (∀ key, CarefulAt s label key) ∧ OwnRequest s label

/-- Every task is watched under its own key. -/
def WellKeyed (s : HpcExecutor) : Prop :=
  ∀ key task status, s.jobHandles.get? key = some (.watching task status) → task.key = key

variable {s t u : HpcExecutor} {label : Label} {key : TaskKey}

theorem watches_iff : s.Watches key ↔ watchedIn (s.jobHandles.get? key) = 1 := by
  constructor
  · rintro ⟨task, status, hk⟩
    rw [hk]
    rfl
  · intro h
    unfold watchedIn at h
    split at h
    · rename_i task status hk
      exact ⟨task, status, hk⟩
    · cases h

theorem watchedIn_le_one (entry : Option TaskRegistration) : watchedIn entry ≤ 1 := by
  unfold watchedIn
  split <;> decide

theorem Accounted.refl (s : HpcExecutor) (key : TaskKey) : Accounted s s key := rfl

theorem balanced_iff_accounted (hs : Balanced s.submitted s.pending s.events) :
    Balanced t.submitted t.pending t.events ↔ ∀ key, Accounted s t key := by
  refine forall_congr' fun key => ?_
  have := hs key
  unfold Accounted
  omega

/-! ## One poll -/

/-- What a poll sends about a watched job. -/
def polledEvents (task : BackgroundTaskPlan) (previous : Option SchedulerStatus)
    (transferred : Result Specs) : Option SchedulerStatus → List RuntimeEvent
  | none | some .queued => []
  | some .running => if previous = some .running then [] else [sendRunning task.key]
  | some .complete =>
    match transferred with
    | .ok outputs => [sendComplete task.key outputs]
    | .error err => [sendError task.key err]
  | some .cancelled => [sendCancelled task.key]
  | some (.error message) => [sendError task.key (.miette message)]

/-- What a poll leaves of a watched job. -/
def polledEntry (task : BackgroundTaskPlan) (previous : Option SchedulerStatus) :
    Option SchedulerStatus → Option TaskRegistration
  | none => some (.watching task previous)
  | some .queued => some (.watching task (some .queued))
  | some .running => some (.watching task (some .running))
  | some _ => none

theorem terminals_polled (task : BackgroundTaskPlan) (previous : Option SchedulerStatus)
    (transferred : Result Specs) (status : Option SchedulerStatus) :
    terminals task.key (polledEvents task previous transferred status) +
      watchedIn (polledEntry task previous status) = 1 := by
  cases status with
  | none => rfl
  | some status =>
    cases status with
    | queued => rfl
    | running =>
      rw [polledEvents]
      split_ifs
      · rfl
      · rw [sendRunning, terminals_nodeEvent]
        simp [polledEntry, watchedIn, NodeStatus.isTerminal]
    | complete =>
      cases transferred <;>
        simp [polledEvents, polledEntry, watchedIn, sendComplete, sendError, terminals_nodeEvent,
          NodeStatus.isTerminal]
    | cancelled | error _ =>
      simp [polledEvents, polledEntry, watchedIn, sendCancelled, sendError, terminals_nodeEvent,
        NodeStatus.isTerminal]

theorem terminals_polled_ne {task : BackgroundTaskPlan} (h : task.key ≠ key)
    (previous : Option SchedulerStatus) (transferred : Result Specs)
    (status : Option SchedulerStatus) :
    terminals key (polledEvents task previous transferred status) = 0 := by
  have hn : ∀ st, terminals key [nodeEvent task.key st] = 0 := fun st => by
    rw [terminals_nodeEvent, if_neg fun hk => h hk.1]
  cases status with
  | none => rfl
  | some status =>
    cases status with
    | queued => rfl
    | running =>
      rw [polledEvents]
      split_ifs
      · rfl
      · exact hn _
    | complete =>
      cases transferred with
      | ok outputs => exact hn _
      | error err => exact hn _
    | cancelled | error _ => exact hn _

variable (statuses : HashMap TaskHandle SchedulerStatus) (transfer : TaskKey → Specs → Result Specs)

/-- One round of a poll. -/
theorem checkJob_of_watching {task : BackgroundTaskPlan} {previous : Option SchedulerStatus}
    (h : s.jobHandles.get? key = some (.watching task previous)) (hk : task.key = key)
    (jobId : TaskHandle) :
    ∃ handles, checkJob statuses transfer s (key, jobId) = .ok { s with
        jobHandles := handles
        events := s.events ++
          polledEvents task previous (transfer key task.outputs) (statuses.get? jobId) } ∧
      ∀ k, handles.get? k =
        if k = key then polledEntry task previous (statuses.get? jobId) else s.jobHandles.get? k := by
  subst hk
  unfold checkJob
  cases hst : statuses.get? jobId with
  | none =>
    refine ⟨s.jobHandles, ?_, fun k => ?_⟩
    · rw [polledEvents, List.append_nil]
      rfl
    · split_ifs with hk
      · rw [hk, h]
        rfl
      · rfl
  | some status =>
    have hgone : ∀ k, ((s.jobHandles.erase task.key).erase task.key).get? k =
        if k = task.key then none else s.jobHandles.get? k := fun k => by
      rw [HashMap.get?_erase, HashMap.get?_erase]
      split_ifs <;> rfl
    cases status with
    | queued =>
      refine ⟨_, ?_, fun k => HashMap.get?_insert _ _ k _⟩
      simp [checkActive, h, polledEvents, pure, Except.pure]
    | running =>
      refine ⟨_, ?_, fun k => HashMap.get?_insert _ _ k _⟩
      by_cases hp : previous = some .running <;>
        simp [checkActive, h, hp, polledEvents, pure, Except.pure]
    | complete =>
      refine ⟨_, ?_, hgone⟩
      simp only [checkFinished, h, processFinishedTask, finishedStatus, polledEvents]
      cases transfer task.key task.outputs <;> rfl
    | cancelled | error _ =>
      refine ⟨_, ?_, hgone⟩
      simp only [checkFinished, h]
      rfl

/-- The events of a poll about a job. -/
def jobEvents (statuses : HashMap TaskHandle SchedulerStatus)
    (transfer : TaskKey → Specs → Result Specs) (s : HpcExecutor) (job : TaskKey × TaskHandle) :
    List RuntimeEvent :=
  match s.jobHandles.get? job.1 with
  | some (.watching task previous) =>
    polledEvents task previous (transfer job.1 task.outputs) (statuses.get? job.2)
  | _ => []

/-- What a poll leaves of a job. -/
def jobEntry (statuses : HashMap TaskHandle SchedulerStatus) (s : HpcExecutor)
    (job : TaskKey × TaskHandle) : Option TaskRegistration :=
  match s.jobHandles.get? job.1 with
  | some (.watching task previous) => polledEntry task previous (statuses.get? job.2)
  | entry => entry

/-- A poll of jobs that are watched goes through, and each job is treated on its own. -/
theorem checkJobs_spec {l : List (TaskKey × TaskHandle)} :
    ∀ {s : HpcExecutor}, WellKeyed s → (l.map Prod.fst).Nodup → (∀ job ∈ l, s.Watches job.1) →
      ∃ handles, l.foldlM (checkJob statuses transfer) s = .ok { s with
          jobHandles := handles
          events := s.events ++ l.flatMap (jobEvents statuses transfer s) } ∧
        (∀ job ∈ l, handles.get? job.1 = jobEntry statuses s job) ∧
        ∀ k, k ∉ l.map Prod.fst → handles.get? k = s.jobHandles.get? k := by
  induction l with
  | nil =>
    intro s _ _ _
    refine ⟨s.jobHandles, ?_, fun job hj => (by cases hj), fun _ _ => rfl⟩
    rw [List.flatMap_nil, List.append_nil]
    rfl
  | cons job l ih =>
    intro s hw hl hjobs
    obtain ⟨key, jobId⟩ := job
    rw [List.map_cons, List.nodup_cons] at hl
    rw [List.forall_mem_cons] at hjobs
    obtain ⟨⟨task, previous, hget⟩, hjobs⟩ := hjobs
    obtain ⟨handles, hcheck, hhandles⟩ := checkJob_of_watching statuses
      transfer hget (hw _ _ _ hget) jobId
    have hne : ∀ job ∈ l, job.1 ≠ key := fun job hj h => hl.1 (List.mem_map.2 ⟨job, hj, h⟩)
    have hother : ∀ job ∈ l, handles.get? job.1 = s.jobHandles.get? job.1 := fun job hj => by
      rw [hhandles, if_neg (hne job hj)]
    obtain ⟨handles', hfold, hin, hout⟩ := ih (s := { s with
        jobHandles := handles
        events := s.events ++
          polledEvents task previous (transfer key task.outputs) (statuses.get? jobId) })
      (fun k task' status hk => by
        change handles.get? k = _ at hk
        rw [hhandles] at hk
        split_ifs at hk with heq
        · have hwk := hw _ _ _ hget
          unfold polledEntry at hk
          split at hk <;> cases hk <;> rw [hwk, heq]
        · exact hw _ _ _ hk)
      hl.2
      (fun job hj => by
        obtain ⟨task', status, hk⟩ := hjobs job hj
        exact ⟨task', status, (hother job hj).trans hk⟩)
    have hevents : l.flatMap (jobEvents statuses transfer { s with
        jobHandles := handles
        events := s.events ++
          polledEvents task previous (transfer key task.outputs) (statuses.get? jobId) }) =
        l.flatMap (jobEvents statuses transfer s) := by
      refine List.flatMap_congr fun job hj => ?_
      simp only [jobEvents, hother job hj]
    refine ⟨handles', ?_, ?_, fun k hk => ?_⟩
    · rw [List.foldlM_cons, hcheck]
      refine hfold.trans ?_
      rw [hevents, List.flatMap_cons, ← List.append_assoc]
      simp only [jobEvents, hget]
    · refine List.forall_mem_cons.2 ⟨?_, fun job hj => ?_⟩
      · rw [hout _ hl.1]
        change handles.get? key = _
        rw [hhandles, if_pos rfl, jobEntry, hget]
      · rw [hin job hj]
        simp only [jobEntry, hother job hj]
    · rw [List.map_cons, List.mem_cons, not_or] at hk
      rw [hout k hk.2]
      change handles.get? k = _
      rw [hhandles, if_neg hk.1]

theorem mem_jobs {job : TaskKey × TaskHandle} :
    job ∈ s.jobs ↔
      ∃ task status, s.jobHandles.get? job.1 = some (.watching task status) ∧ task.jobId = job.2 := by
  unfold jobs
  rw [List.mem_filterMap]
  constructor
  · rintro ⟨⟨key, entry⟩, he, hj⟩
    rw [← HashMap.get?_eq_some_iff] at he
    cases entry with
    | watching task status =>
      cases hj
      exact ⟨task, status, he, rfl⟩
    | cancelBeforeRegistration request => cases hj
  · rintro ⟨task, status, hk, hj⟩
    refine ⟨(job.1, .watching task status), HashMap.get?_eq_some_iff.1 hk, ?_⟩
    change some (job.1, task.jobId) = some job
    rw [hj]

theorem watches_iff_mem_jobs : s.Watches key ↔ key ∈ s.jobs.map Prod.fst := by
  rw [List.mem_map]
  constructor
  · rintro ⟨task, status, hk⟩
    exact ⟨(key, task.jobId), mem_jobs.2 ⟨task, status, hk, rfl⟩, rfl⟩
  · rintro ⟨job, hj, rfl⟩
    obtain ⟨task, status, hk, -⟩ := mem_jobs.1 hj
    exact ⟨task, status, hk⟩

theorem nodup_jobs (s : HpcExecutor) : (s.jobs.map Prod.fst).Nodup := by
  refine List.Nodup.sublist ?_ (HashMap.nodup_toList s.jobHandles)
  unfold jobs
  induction s.jobHandles.toList with
  | nil => exact .slnil
  | cons e l ih =>
    obtain ⟨key, entry⟩ := e
    cases entry with
    | watching task status => exact ih.cons_cons key
    | cancelBeforeRegistration request => exact ih.cons key

variable (key) in
/-- Of the events of a poll, those about a task are the ones about its job. -/
theorem terminals_jobEvents (hw : WellKeyed s) {l : List (TaskKey × TaskHandle)} :
    (l.map Prod.fst).Nodup →
      (∀ job ∈ l, job.1 = key → terminals key (l.flatMap (jobEvents statuses transfer s)) =
        terminals key (jobEvents statuses transfer s job)) ∧
      (key ∉ l.map Prod.fst → terminals key (l.flatMap (jobEvents statuses transfer s)) = 0) := by
  have hother : ∀ job : TaskKey × TaskHandle, job.1 ≠ key →
      terminals key (jobEvents statuses transfer s job) = 0 := fun job hne => by
    unfold jobEvents
    split
    · rename_i task previous hk
      exact terminals_polled_ne (fun h => hne ((hw _ _ _ hk).symm.trans h)) _ _ _
    · rfl
  induction l with
  | nil => exact fun _ => ⟨fun job hj => (by cases hj), fun _ => rfl⟩
  | cons job l ih =>
    intro hl
    rw [List.map_cons, List.nodup_cons] at hl
    obtain ⟨hin, hout⟩ := ih hl.2
    simp only [List.flatMap_cons, terminals_append]
    refine ⟨List.forall_mem_cons.2 ⟨fun h => ?_, fun job' hj h => ?_⟩, fun h => ?_⟩
    · rw [hout (h ▸ hl.1), Nat.add_zero]
    · rw [hother job fun he => hl.1 (List.mem_map.2 ⟨job', hj, h.trans he.symm⟩), Nat.zero_add,
        hin job' hj h]
    · rw [List.map_cons, List.mem_cons, not_or] at h
      rw [hother job fun he => h.1 he.symm, hout h.2]

/-- A poll ends, reports on each watched job and leaves the rest of the table as it was. -/
theorem checkJobs_some (hw : WellKeyed s) (statuses : HashMap TaskHandle SchedulerStatus)
    (transfer : TaskKey → Specs → Result Specs) :
    ∃ handles, s.checkJobs (some statuses) transfer = .ok { s with
        jobHandles := handles
        events := s.events ++ s.jobs.flatMap (jobEvents statuses transfer s) } ∧
      (∀ job ∈ s.jobs, handles.get? job.1 = jobEntry statuses s job) ∧
      ∀ k, ¬ s.Watches k → handles.get? k = s.jobHandles.get? k := by
  obtain ⟨handles, hfold, hin, hout⟩ := checkJobs_spec statuses transfer
    hw s.nodup_jobs fun job hj => watches_iff_mem_jobs.2 (List.mem_map_of_mem hj)
  exact ⟨handles, hfold, hin, fun k hk => hout k fun h => hk (watches_iff_mem_jobs.2 h)⟩

theorem checkJobs_ok (hw : WellKeyed s) (checked : Option (HashMap TaskHandle SchedulerStatus))
    (transfer : TaskKey → Specs → Result Specs) :
    ∃ t, s.checkJobs checked transfer = .ok t := by
  cases checked with
  | none => exact ⟨s, rfl⟩
  | some statuses =>
    obtain ⟨handles, h, -⟩ := checkJobs_some hw statuses transfer
    exact ⟨_, h⟩

theorem watchedIn_jobEntry (hw : WellKeyed s) {job : TaskKey × TaskHandle}
    (h : s.Watches job.1) :
    terminals job.1 (jobEvents statuses transfer s job) + watchedIn (jobEntry statuses s job) = 1 := by
  obtain ⟨task, previous, hk⟩ := h
  have hkey := hw _ _ _ hk
  rw [jobEvents, jobEntry, hk]
  have := terminals_polled task previous (transfer job.1 task.outputs) (statuses.get? job.2)
  rw [hkey] at this
  exact this

variable {statuses} {transfer}

/-! ## One step -/

theorem WellKeyed.insert_watching (hw : WellKeyed s) (task : BackgroundTaskPlan)
    (status : Option SchedulerStatus) :
    ∀ key task' status', (s.jobHandles.insert task.key (.watching task status)).get? key =
      some (.watching task' status') → task'.key = key := by
  intro key task' status' h
  rw [HashMap.get?_insert] at h
  split_ifs at h with hk
  · cases h
    exact hk.symm
  · exact hw _ _ _ h

theorem WellKeyed.checkJobs (hw : WellKeyed s)
    {checked : Option (HashMap TaskHandle SchedulerStatus)}
    (h : s.checkJobs checked transfer = .ok t) : WellKeyed t := by
  cases checked with
  | none =>
    cases h
    exact hw
  | some statuses =>
    obtain ⟨handles, hc, hin, hout⟩ := checkJobs_some hw statuses transfer
    cases hc.symm.trans h
    intro key task status hk
    change handles.get? key = _ at hk
    by_cases hkey : s.Watches key
    · obtain ⟨job, hj, rfl⟩ := List.mem_map.1 (watches_iff_mem_jobs.1 hkey)
      obtain ⟨task', previous, hget⟩ := hkey
      rw [hin job hj, jobEntry, hget] at hk
      have hkey' := hw _ _ _ hget
      dsimp only [polledEntry] at hk
      split at hk <;> cases hk <;> exact hkey'
    · rw [hout key hkey] at hk
      exact hw _ _ _ hk

theorem WellKeyed.step (hw : WellKeyed s) (h : Step s label t) : WellKeyed t := by
  cases h with
  | execute plans h => exact hw
  | submit a h ht => exact hw
  | submitFails a h ht => exact hw
  | cancel key => exact hw
  | @processCancelled key request cancels cancelled hp h =>
    have herase : ∀ k task status, (s.jobHandles.erase key).get? k = some (.watching task status) →
        task.key = k := fun k task status hk => by
      rw [HashMap.get?_erase] at hk
      split_ifs at hk
      exact hw _ _ _ hk
    unfold processCancelledTask
    dsimp only
    split
    · exact herase
    · exact herase
    · intro k task status hk
      rw [HashMap.get?_insert] at hk
      split_ifs at hk
      · cases hk
      · exact hw _ _ _ hk
  | @monitor task tasks cancelled hp h =>
    unfold monitorTask
    dsimp only
    split
    · cases cancelled <;> exact hw.insert_watching task none
    · exact hw.insert_watching task none
  | poll checked transfer hp ht => exact hw.checkJobs ht
  | pollPanics checked transfer hp ht => exact hw

theorem accounted_checkJobs (hw : WellKeyed s)
    {checked : Option (HashMap TaskHandle SchedulerStatus)}
    (h : s.checkJobs checked transfer = .ok t) (key : TaskKey) : Accounted s t key := by
  cases checked with
  | none =>
    cases h
    exact .refl s key
  | some statuses =>
    obtain ⟨handles, hc, hin, hout⟩ := checkJobs_some hw statuses transfer
    cases hc.symm.trans h
    obtain ⟨hjob, hnone⟩ := terminals_jobEvents key statuses
      transfer hw s.nodup_jobs
    simp only [Accounted, pending, terminals_append]
    by_cases hkey : s.Watches key
    · obtain ⟨job, hj, rfl⟩ := List.mem_map.1 (watches_iff_mem_jobs.1 hkey)
      have := watchedIn_jobEntry statuses transfer hw hkey
      rw [hjob job hj rfl, hin job hj, watches_iff.1 hkey]
      omega
    · rw [hnone fun h => hkey (watches_iff_mem_jobs.2 h), hout key hkey]
      omega

theorem accounted_processCancelled {cancels : List (TaskKey × Nat)} (key' : TaskKey) (request : Nat)
    (cancelled : Result Unit) :
    Accounted s ({ s with cancels := cancels }.processCancelledTask key' request cancelled) key ↔
      (key' = key → ¬ s.Watches key) := by
  have hcount : ∀ entries : HashMap TaskKey TaskRegistration, ∀ c p,
      Accounted s { s with cancels := cancels, jobHandles := entries, cancelled := c, panicked := p }
        key ↔ watchedIn (s.jobHandles.get? key) = watchedIn (entries.get? key) := fun entries c p => by
    simp only [Accounted, pending]
    omega
  have hother : key' ≠ key → ∀ v : Prop, (v ↔ (key' = key → ¬ s.Watches key)) ↔ v := fun h v =>
    ⟨fun hv => hv.2 fun h' => absurd h' h, fun hv => ⟨fun _ h' => absurd h' h, fun _ => hv⟩⟩
  unfold processCancelledTask
  dsimp only
  by_cases h : key' = key
  · subst h
    rw [watches_iff]
    split
    · rename_i task status hk
      rw [hcount, HashMap.get?_erase, if_pos rfl, hk]
      simp [watchedIn]
    · rename_i q hk
      rw [hcount, HashMap.get?_erase, if_pos rfl, hk]
      simp [watchedIn]
    · rename_i hk
      rw [hcount, HashMap.get?_insert, if_pos rfl, hk]
      simp [watchedIn]
  · rw [hother h]
    split
    · rw [hcount, HashMap.get?_erase, if_neg (Ne.symm h)]
    · rw [hcount, HashMap.get?_erase, if_neg (Ne.symm h)]
    · rw [hcount, HashMap.get?_insert, if_neg (Ne.symm h)]

theorem accounted_monitor {task : BackgroundTaskPlan} {tasks : List BackgroundTaskPlan}
    (h : s.tasks = task :: tasks) (cancelled : Result Unit) :
    Accounted s ({ s with tasks := tasks }.monitorTask task cancelled) key ↔
      (task.key = key → ¬ s.Watches key ∧
        ∀ request, s.jobHandles.get? key = some (.cancelBeforeRegistration request) →
          cancelled = .ok ()) := by
  have hqueued : ∀ st, terminals key [nodeEvent task.key st] =
      if task.key = key ∧ st.isTerminal = true then 1 else 0 := terminals_nodeEvent key task.key
  have hcount : (s.tasks.map BackgroundTaskPlan.key).count key =
      (tasks.map BackgroundTaskPlan.key).count key + if task.key = key then 1 else 0 := by
    rw [h]
    exact count_of_perm_cons (.refl _) key
  have hentry : watchedIn ((s.jobHandles.insert task.key (.watching task none)).get? key) =
      if task.key = key then 1 else watchedIn (s.jobHandles.get? key) := by
    rw [HashMap.get?_insert]
    by_cases hk : task.key = key
    · rw [if_pos hk, if_pos hk.symm]
      rfl
    · rw [if_neg hk, if_neg (Ne.symm hk)]
  rw [watches_iff]
  unfold monitorTask
  dsimp only
  by_cases hk : task.key = key
  · subst hk
    rw [if_pos rfl] at hcount hentry
    split
    · rename_i request hget
      have hzero : watchedIn (s.jobHandles.get? task.key) = 0 := by
        rw [hget]
        rfl
      cases cancelled with
      | ok =>
        refine iff_of_true ?_ fun _ => ⟨by rw [hzero]; exact Nat.zero_ne_one, fun _ _ => rfl⟩
        simp only [Accounted, pending, hentry, hcount, hzero, terminals_append, sendQueued, hqueued,
          NodeStatus.isTerminal]
        simp
      | error err =>
        refine iff_of_false ?_ fun h => by cases (h rfl).2 request hget
        simp only [Accounted, pending, hentry, hcount, hzero, terminals_append, sendQueued,
          sendError, hqueued, NodeStatus.isTerminal]
        simp
    · rename_i hget
      have hrecord : ∀ request, s.jobHandles.get? task.key = some (.cancelBeforeRegistration request) →
          cancelled = .ok () := fun request hr => absurd hr (hget request)
      have hle := watchedIn_le_one (s.jobHandles.get? task.key)
      have hacc : Accounted s { s with
            tasks := tasks
            events := s.events ++ [sendQueued task.key (some task.jobId)]
            jobHandles := s.jobHandles.insert task.key (.watching task none) } task.key ↔
          watchedIn (s.jobHandles.get? task.key) = 0 := by
        simp only [Accounted, pending, hentry, hcount, terminals_append, sendQueued, hqueued,
          NodeStatus.isTerminal, Bool.false_eq_true, and_false, if_false]
        omega
      rw [hacc]
      constructor
      · exact fun h _ => ⟨by omega, hrecord⟩
      · intro h
        have := (h rfl).1
        omega
  · rw [if_neg hk, Nat.add_zero] at hcount
    rw [if_neg hk] at hentry
    refine iff_of_true ?_ fun h => absurd h hk
    split
    · cases cancelled <;>
        simp only [Accounted, pending, hentry, hcount, terminals_append, sendQueued, sendError,
          hqueued, hk, false_and, if_false, Nat.add_zero]
    · simp only [Accounted, pending, hentry, hcount, terminals_append, sendQueued, hqueued, hk,
        false_and, if_false, Nat.add_zero]

/-- A step keeps the account of a task exactly when it is careful with it. -/
theorem accounted_iff (hw : WellKeyed s) (h : Step s label t) :
    Accounted s t key ↔ CarefulAt s label key := by
  cases h with
  | execute plans h => exact iff_of_true (.refl s key) trivial
  | @submit plan number rest task a h ht =>
    refine iff_of_true ?_ trivial
    simp only [Accounted, pending, enqueue, List.map_append, List.map_cons, List.map_nil,
      List.count_append]
    omega
  | submitFails a h ht => exact iff_of_true (.refl s key) trivial
  | cancel key => exact iff_of_true (.refl s _) trivial
  | @processCancelled key' request cancels cancelled hp h =>
    rw [accounted_processCancelled]
    unfold CarefulAt
    rw [h]
    simp
  | @monitor task tasks cancelled hp h =>
    rw [accounted_monitor h]
    unfold CarefulAt
    rw [h]
    simp
  | poll checked transfer hp ht => exact iff_of_true (accounted_checkJobs hw ht key) trivial
  | pollPanics checked transfer hp ht => exact iff_of_true (.refl s key) trivial

/-! ## Careful steps -/

theorem cancelled_monitorTask (task : BackgroundTaskPlan) (cancelled : Result Unit) :
    (s.monitorTask task cancelled).cancelled = s.cancelled ++
      match s.jobHandles.get? task.key with
      | some (.cancelBeforeRegistration request) => [(task.number, request)]
      | _ => [] := by
  unfold monitorTask
  rcases s.jobHandles.get? task.key with _ | ⟨task', status⟩ | request
  · exact (List.append_nil _).symm
  · exact (List.append_nil _).symm
  · cases cancelled <;> rfl

theorem panicked_monitorTask (task : BackgroundTaskPlan) (cancelled : Result Unit) :
    (s.monitorTask task cancelled).panicked = s.panicked := by
  unfold monitorTask
  dsimp only
  split
  · cases cancelled <;> rfl
  · rfl

theorem processCancelledTask_of_not_watches (request : Nat) (cancelled : Result Unit)
    (h : ¬ s.Watches key) :
    (s.processCancelledTask key request cancelled).panicked = s.panicked ∧
      (s.processCancelledTask key request cancelled).cancelled = s.cancelled := by
  unfold processCancelledTask
  split
  · rename_i task status hk
    exact absurd ⟨task, status, hk⟩ h
  · exact ⟨rfl, rfl⟩
  · exact ⟨rfl, rfl⟩

theorem checkJobs_same (hw : WellKeyed s)
    {checked : Option (HashMap TaskHandle SchedulerStatus)}
    (h : s.checkJobs checked transfer = .ok t) :
    t.panicked = s.panicked ∧ t.cancelled = s.cancelled := by
  cases checked with
  | none =>
    cases h
    exact ⟨rfl, rfl⟩
  | some statuses =>
    obtain ⟨handles, hc, -⟩ := checkJobs_some hw statuses transfer
    cases hc.symm.trans h
    exact ⟨rfl, rfl⟩

/-- With every account kept, the loop goes on and only a registration adds to what has met at
the scheduler. -/
theorem step_of_careful (hw : WellKeyed s) (h : Step s label t) (hp : s.panicked = false)
    (hc : ∀ key, CarefulAt s label key) :
    t.panicked = false ∧
      ((∀ c ∈ s.cancelled, c.1 ≤ c.2) → ((∀ c ∈ t.cancelled, c.1 ≤ c.2) ↔ OwnRequest s label)) := by
  have hsame : t.cancelled = s.cancelled → OwnRequest s label →
      ((∀ c ∈ s.cancelled, c.1 ≤ c.2) → ((∀ c ∈ t.cancelled, c.1 ≤ c.2) ↔ OwnRequest s label)) :=
    fun h ho hs => iff_of_true (h ▸ hs) ho
  cases h with
  | execute plans h => exact ⟨hp, hsame rfl trivial⟩
  | submit a h ht => exact ⟨hp, hsame rfl trivial⟩
  | submitFails a h ht => exact ⟨hp, hsame rfl trivial⟩
  | cancel key => exact ⟨hp, hsame rfl trivial⟩
  | @processCancelled key request cancels cancelled hp h =>
    have hk : ¬ Watches { s with cancels := cancels } key := hc key (key, request) (by rw [h]; rfl) rfl
    obtain ⟨hpt, hct⟩ := processCancelledTask_of_not_watches request
      cancelled hk
    exact ⟨hpt.trans hp, hsame hct trivial⟩
  | @monitor task tasks cancelled hp h =>
    refine ⟨(panicked_monitorTask task cancelled).trans hp, fun hs => ?_⟩
    rw [cancelled_monitorTask]
    simp only [OwnRequest, h, List.head?_cons, Option.mem_some_iff, forall_eq']
    rcases s.jobHandles.get? task.key with _ | ⟨task', status⟩ | request
    · exact iff_of_true (by rwa [List.append_nil]) nofun
    · exact iff_of_true (by rwa [List.append_nil]) nofun
    · simp only [List.forall_mem_append, List.forall_mem_singleton, Option.some.injEq,
        TaskRegistration.cancelBeforeRegistration.injEq, forall_eq']
      exact ⟨fun h => h.2, fun h => ⟨hs, h⟩⟩
  | poll checked transfer hp ht =>
    obtain ⟨hpt, hct⟩ := checkJobs_same hw ht
    exact ⟨hpt.trans hp, hsame hct trivial⟩
  | pollPanics checked transfer hp ht =>
    obtain ⟨t, hok⟩ := checkJobs_ok hw checked transfer
    cases hok.symm.trans ht

theorem neverLoses_iff (hw : WellKeyed s) (hs : NeverLoses s) (h : Step s label t) :
    NeverLoses t ↔ (∀ key, CarefulAt s label key) ∧ OwnRequest s label := by
  have hacc := balanced_iff_accounted (t := t) hs.account
  constructor
  · intro ht
    have hc : ∀ key, CarefulAt s label key := fun key =>
      (accounted_iff hw h).1 (hacc.1 ht.account key)
    exact ⟨hc, ((step_of_careful hw h hs.noPanic hc).2 hs.notLater).1 ht.notLater⟩
  · rintro ⟨hc, ho⟩
    obtain ⟨hp, hcancelled⟩ := step_of_careful hw h hs.noPanic hc
    exact ⟨hp, hacc.2 fun key => (accounted_iff hw h).2 (hc key), (hcancelled hs.notLater).2 ho⟩

end HpcExecutor

/-- In a run of the HPC executor every state accounts for every job exactly when no cancel
request finds a watched job, and no registration finds a watched job, a request for an earlier
dispatch or a scheduler that does not cancel. -/
theorem hpc_never_loses_task (name : String) (told : HashMap TaskHandle Specs)
    (labels : List HpcExecutor.Label) (s : HpcExecutor) :
    Steps (fun s label t => HpcExecutor.Step s label t ∧ HpcExecutor.NeverLoses t)
        { outputStorageName := name, told := told } labels s ↔
      Steps HpcExecutor.CarefulStep { outputStorageName := name, told := told } labels s := by
  refine steps_iff (fun s => s.WellKeyed ∧ s.NeverLoses) (fun s label t hs => ?_)
    (fun s label t hs h => ?_)
    ⟨fun key task status h => (by cases h), rfl, .nil, fun c h => (by cases h)⟩
  · exact and_congr_right fun h => HpcExecutor.neverLoses_iff hs.1 hs.2 h
  · exact ⟨hs.1.step h.1, (HpcExecutor.neverLoses_iff hs.1 hs.2 h.1).2 h.2⟩

/-- The scheduler knows job `jobId` and takes new ones under this id. -/
def submission (jobId : TaskHandle) (status : SchedulerStatus) : Submission where
  reserved := .ok []
  checked := .ok (.ofList [(jobId, status)])
  submitted := .ok jobId

/-- A watched task is taken off the table by a request and no event follows, or the loop ends
when the scheduler fails. A request that comes after the end of a job cancels the next job. -/
theorem hpc_loses_task :
    (¬ ∀ labels s, Steps HpcExecutor.Step { outputStorageName := "checkpoints", told := ∅ } labels s →
      ∀ key, s.submitted.count key = s.pending key + terminals key s.events) ∧
    (¬ ∀ labels s, Steps HpcExecutor.Step { outputStorageName := "checkpoints", told := ∅ } labels s →
      s.panicked = false) ∧
    ¬ ∀ labels s, Steps HpcExecutor.Step { outputStorageName := "checkpoints", told := ∅ } labels s →
      ∀ c ∈ s.cancelled, c.1 ≤ c.2 := by
  refine ⟨fun hall => ?_, fun hall => ?_, fun hall => ?_⟩
  · have h := hall _ _ (
      .cons (.execute [workerTask] rfl) <|
      .cons (.submit (submission "1" .running) rfl rfl) <|
      .cons (.monitor (.ok ()) rfl rfl) <|
      .cons (.cancel workerTask.key) <|
      .cons (.processCancelled (.ok ()) rfl rfl) (.nil _))
    exact absurd (h workerTask.key) (by decide)
  · have h := hall _ _ (
      .cons (.execute [workerTask] rfl) <|
      .cons (.submit (submission "1" .running) rfl rfl) <|
      .cons (.monitor (.ok ()) rfl rfl) <|
      .cons (.cancel workerTask.key) <|
      .cons (.processCancelled (.error (.miette "Failed to cancel")) rfl rfl) (.nil _))
    cases h
  · have h := hall _ _ (
      .cons (.execute [workerTask] rfl) <|
      .cons (.submit (submission "1" .running) rfl rfl) <|
      .cons (.monitor (.ok ()) rfl rfl) <|
      .cons (.poll (some (.ofList [("1", .complete)])) (fun _ outputs => .ok outputs) rfl rfl) <|
      .cons (.cancel workerTask.key) <|
      .cons (.processCancelled (.ok ()) rfl rfl) <|
      .cons (.execute [workerTask] rfl) <|
      .cons (.submit (submission "2" .running) rfl rfl) <|
      .cons (.monitor (.ok ()) rfl rfl) (.nil _))
    exact absurd (h (2, 1) (List.mem_singleton.2 rfl)) (by decide)

end Tierkreis
