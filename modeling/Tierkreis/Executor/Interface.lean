import Tierkreis.Orchestrator.Perform

/-!
# Executors

What the executors share: the events with which they report on a task, and the
account of the tasks that were handed to them. Every task has to leave the
account through one terminal event.
-/

namespace Tierkreis

abbrev TaskKey := RunAttempt × Location

/-- The event of one node. -/
def nodeEvent (key : TaskKey) (status : NodeStatus) : RuntimeEvent where
  workflowRunId := key.1.1
  attempt := key.1.2
  event := .nodeEvents [{ loc := key.2, name := none, status := status }]

def sendQueued (key : TaskKey) (handle : Option TaskHandle) : RuntimeEvent :=
  nodeEvent key (.queued handle)

def sendRunning (key : TaskKey) : RuntimeEvent := nodeEvent key (.running none)

def sendCancelled (key : TaskKey) : RuntimeEvent := nodeEvent key .cancelled

def sendComplete (key : TaskKey) (outputs : Specs) : RuntimeEvent := nodeEvent key (.complete outputs)

/-- The texts of an error, from the outermost on. -/
def Failure.chain : Failure → List String
  | err report => report
  | panic text => [text]
  | outOfFuel => []

def sendError (key : TaskKey) (err : Failure) : RuntimeEvent :=
  nodeEvent key (.error (err.chain.headD "")
    (some ("\n\nWhich was caused by:\n\n".intercalate err.chain)))

/-! ## The account of the tasks -/

/-- How many of the events say that the task is over. -/
def terminals (key : TaskKey) (events : List RuntimeEvent) : Nat :=
  (events.map fun e =>
    match e.event with
    | .nodeEvents nodes =>
      if (e.workflowRunId, e.attempt) = key.1 then
        nodes.countP fun n => decide (n.loc = key.2) && n.status.isTerminal
      else 0
    | _ => 0).sum

@[simp] theorem terminals_nil (key : TaskKey) : terminals key [] = 0 := rfl

theorem terminals_append (key : TaskKey) (events events' : List RuntimeEvent) :
    terminals key (events ++ events') = terminals key events + terminals key events' := by
  rw [terminals, terminals, terminals, List.map_append, List.sum_append]

theorem terminals_nodeEvent (key key' : TaskKey) (status : NodeStatus) :
    terminals key [nodeEvent key' status] = if key' = key ∧ status.isTerminal = true then 1 else 0 := by
  obtain ⟨r, loc⟩ := key
  obtain ⟨r', loc'⟩ := key'
  simp only [terminals, nodeEvent, List.map_cons, List.map_nil, List.sum_cons, List.sum_nil,
    Nat.add_zero, List.countP_singleton, Prod.mk.injEq, Bool.and_eq_true, decide_eq_true_eq]
  by_cases hr : r' = r
  · subst hr
    simp
  · rw [if_neg hr, if_neg fun h => hr h.1.1]

/-- Each task that was handed over is still pending or has had one terminal event. -/
def Balanced (submitted : List TaskKey) (pending : TaskKey → Nat) (events : List RuntimeEvent) : Prop :=
  ∀ key, submitted.count key = pending key + terminals key events

namespace Balanced

variable {submitted : List TaskKey} {pending pending' : TaskKey → Nat} {events : List RuntimeEvent}
  {key : TaskKey}

theorem nil : Balanced [] (fun _ => 0) [] := fun _ => rfl

theorem congr (h : Balanced submitted pending events) (hp : ∀ k, pending' k = pending k) :
    Balanced submitted pending' events := by
  intro k
  rw [h k, hp]

theorem submit (h : Balanced submitted pending events)
    (hp : ∀ k, pending' k = pending k + if key = k then 1 else 0) :
    Balanced (submitted ++ [key]) pending' events := by
  intro k
  have := h k
  rw [List.count_append, List.count_singleton, hp]
  simp only [beq_iff_eq]
  omega

theorem report (h : Balanced submitted pending events) {status : NodeStatus}
    (hs : status.isTerminal = false) :
    Balanced submitted pending (events ++ [nodeEvent key status]) := by
  intro k
  rw [terminals_append, terminals_nodeEvent, if_neg (by simp [hs]), Nat.add_zero]
  exact h k

/-- The terminal event of a pending task. -/
theorem finish (h : Balanced submitted pending events)
    (hp : ∀ k, pending k = pending' k + if key = k then 1 else 0) {status : NodeStatus}
    (hs : status.isTerminal = true) :
    Balanced submitted pending' (events ++ [nodeEvent key status]) := by
  intro k
  have := h k
  rw [hp] at this
  rw [terminals_append, terminals_nodeEvent]
  simp only [hs, and_true]
  omega

/-- A terminal event of a task that stays pending. -/
theorem not_report (h : Balanced submitted pending events) {status : NodeStatus}
    (hs : status.isTerminal = true) :
    ¬ Balanced submitted pending (events ++ [nodeEvent key status]) := by
  intro h'
  have h₁ := h key
  have h₂ := h' key
  rw [terminals_append, terminals_nodeEvent, if_pos ⟨rfl, hs⟩] at h₂
  omega

end Balanced

/-- The loop of an executor runs on, and every task is pending or has had its one terminal event. -/
structure EndsOnce (submitted : List TaskKey) (pending : TaskKey → Nat) (events : List RuntimeEvent)
    (panicked blocked : Bool) : Prop where
  noPanic : panicked = false
  notBlocked : blocked = false
  account : Balanced submitted pending events

/-- An executor whose loops run on. No task has had more terminal events than submissions, and
once it has come to rest each has had as many. -/
structure ExactlyOnce (submitted : List TaskKey) (events : List RuntimeEvent) (panicked : Bool)
    (atRest : Prop) : Prop where
  noPanic : panicked = false
  atMostOnce : ∀ key, terminals key events ≤ submitted.count key
  exactlyOnce : atRest → ∀ key, terminals key events = submitted.count key

theorem Balanced.exactlyOnce {submitted : List TaskKey} {pending : TaskKey → Nat}
    {events : List RuntimeEvent} {panicked : Bool} {atRest : Prop}
    (h : Balanced submitted pending events) (hp : panicked = false)
    (hr : atRest → ∀ key, pending key = 0) :
    ExactlyOnce submitted events panicked atRest where
  noPanic := hp
  atMostOnce key := by
    rw [h key]
    exact Nat.le_add_left _ _
  exactlyOnce ha key := by
    rw [h key, hr ha, Nat.zero_add]

section Lists

variable {α β : Type} {l : List α} {index : Nat} {a b : α}

theorem map_set_eq (f : α → β) (h : l[index]? = some a) (hb : f b = f a) :
    (l.set index b).map f = l.map f := by
  obtain ⟨hi, rfl⟩ := List.getElem?_eq_some_iff.1 h
  rw [List.map_set, hb, ← List.getElem_map f (h := by simpa using hi), List.set_getElem_self]

theorem map_eraseIdx_perm (f : α → β) (h : l[index]? = some a) :
    (l.map f).Perm (f a :: (l.eraseIdx index).map f) := by
  obtain ⟨hi, rfl⟩ := List.getElem?_eq_some_iff.1 h
  exact (List.getElem_cons_eraseIdx_perm hi).symm.map f

theorem count_of_perm_cons {l l' : List TaskKey} {a : TaskKey} (h : l.Perm (a :: l'))
    (b : TaskKey) : l.count b = l'.count b + if a = b then 1 else 0 := by
  rw [h.count_eq, List.count_cons]
  simp only [beq_iff_eq]

theorem sum_map_eraseIdx (f : α → Nat) (h : l[index]? = some a) :
    (l.map f).sum = f a + ((l.eraseIdx index).map f).sum := by
  rw [← List.sum_cons]
  exact (map_eraseIdx_perm f h).sum_nat

theorem sum_map_set (f : α → Nat) (h : l[index]? = some a) :
    ((l.set index b).map f).sum + f a = (l.map f).sum + f b := by
  obtain ⟨hi, -⟩ := List.getElem?_eq_some_iff.1 h
  have hset : (l.set index b)[index]? = some b := List.getElem?_set_self hi
  have h₁ := sum_map_eraseIdx f h
  have h₂ := sum_map_eraseIdx f hset
  rw [List.eraseIdx_set_eq] at h₂
  omega

end Lists

end Tierkreis
