import Tierkreis.Runtime.System

/-!
# Running the system

`System.turn` takes one step where the label leaves nothing open: a pass sees
the store as it is when it ends, and its actions are performed as they were
built. What it computes are steps of the system.
-/

namespace Tierkreis

open Lib Lib.Run

inductive Turn where
  | wake (todo : List RunAttempt)
  | plan
  | process (now : Time)
  | processReport (index : Nat) (now : Time)
  | report (index : Nat) (status : NodeStatus)
  | unpause (r : RunAttempt) (locations : List Location) (now : Time)

namespace System

variable {σ : Type} [RuntimeState σ] (R : Runtime) (fuel : Nat)

/-- Plan the next attempt of the round. -/
def planTurn (s : System σ) : Option (Label × System σ) :=
  match s.todo with
  | [] => none
  | r :: _ =>
    match s.contextFor R r, RuntimeState.loadWorkflow s.store r with
    | .ok c, .ok g =>
      match buildActions R.orchestrator (s.pass r fun _ => 0) fuel c.context g
          ⟨c.scheduled, c.cache, s.assets⟩ with
      | .ok (actions, t) =>
        some (.plan (fun _ => 0) actions (fun _ => none), perform R r (fun _ => none)
          (ActionPlan.ofActions R.orchestrator r actions).effects (s.planned r c t))
      | .error _ => none
    | _, _ => none

def turn (s : System σ) : Turn → Option (Label × System σ)
  | .wake todo =>
    if s.planning = true ∧ s.todo.isEmpty = true ∧ todo.toFinset = RuntimeState.activeRuns s.store ∧
        todo.Nodup then
      some (.wake todo, { s with
        todo := todo
        contexts := s.contexts.filterMap fun r c =>
          if r ∈ RuntimeState.activeRuns s.store then some c else none
        seen := [] })
    else none
  | .plan => if s.planning = true then planTurn R fuel s else none
  | .process now =>
    match s.orchestratorEvents with
    | e :: es =>
      if s.processing = true then
        some (.process now, { s with orchestratorEvents := es }.deliver now e)
      else none
    | [] => none
  | .processReport index now =>
    match s.executorEvents[index]? with
    | some e =>
      if s.processing = true then
        some (.processReport index now,
          { s with executorEvents := s.executorEvents.eraseIdx index }.deliver now e)
      else none
    | none => none
  | .report index status =>
    match s.inFlight[index]? with
    | some task =>
      if status.isReport = true then
        some (.report index status s.assets, s.reported index task status s.assets)
      else none
    | none => none
  | .unpause r locations now =>
    some (.unpause r locations now,
      s.setStore (RuntimeState.unpause s.store r now locations).2)

/-- Take turns, and keep the labels of the steps. -/
def turns : List Turn → System σ → Option (List Label × System σ)
  | [], s => some ([], s)
  | a :: as, s => do
    let (label, t) ← turn R fuel s a
    let (labels, u) ← turns as t
    pure (label :: labels, u)

variable {R fuel}

theorem step_of_planTurn {s t : System σ} {label : Label} (hp : s.planning = true)
    (h : planTurn R fuel s = some (label, t)) :
    Step R s label t ∧ ∃ actions, label = .plan (fun _ => 0) actions fun _ => none := by
  unfold planTurn at h
  split at h
  · cases h
  · rename_i r rs htodo
    split at h
    · rename_i c g hc hg
      split at h
      · rename_i actions u hb
        cases h
        exact ⟨.plan hp htodo ⟨hc, hg, fuel, hb⟩ (.refl _), actions, rfl⟩
      · cases h
    · cases h

/-- A turn is a step of the process, if executors may report anything and leave the assets. -/
theorem step_of_turn {s t : System σ} {label : Label} {a : Turn}
    (he : ∀ task A status, R.executes task A status A) (h : turn R fuel s a = some (label, t)) :
    Step R s label t ∧ label ≠ .admin ∧ label ≠ .restart := by
  cases a with
  | wake todo =>
    simp only [turn] at h
    split_ifs at h with hc
    obtain ⟨hp, ht, ha, hn⟩ := hc
    cases h
    exact ⟨.wake hp (List.isEmpty_iff.1 ht) (fun r => by rw [← ha, List.mem_toFinset]) hn, nofun, nofun⟩
  | plan =>
    simp only [turn] at h
    split_ifs at h with hp
    obtain ⟨hs, actions, rfl⟩ := step_of_planTurn hp h
    exact ⟨hs, nofun, nofun⟩
  | process now =>
    simp only [turn] at h
    split at h
    · rename_i e es hq
      split_ifs at h with hp
      cases h
      exact ⟨.process hp hq, nofun, nofun⟩
    · cases h
  | processReport index now =>
    simp only [turn] at h
    split at h
    · rename_i e hq
      split_ifs at h with hp
      cases h
      exact ⟨.processReport hp hq, nofun, nofun⟩
    · cases h
  | report index status =>
    simp only [turn] at h
    split at h
    · rename_i task hq
      split_ifs at h with hs
      cases h
      exact ⟨.report hq hs (he _ _ _), nofun, nofun⟩
    · cases h
  | unpause r locations now =>
    cases h
    exact ⟨.unpause, nofun, nofun⟩

theorem steps_of_turns {as : List Turn} (he : ∀ task A status, R.executes task A status A) :
    ∀ {s t : System σ} {labels : List Label}, turns R fuel as s = some (labels, t) →
      Steps (Step R) s labels t ∧ ∀ label ∈ labels, label ≠ .admin ∧ label ≠ .restart := by
  induction as with
  | nil =>
    intro s t labels h
    cases h
    exact ⟨.nil s, nofun⟩
  | cons a as ih =>
    intro s t labels h
    rw [turns] at h
    obtain ⟨⟨label, s₁⟩, ha, h⟩ := Option.bind_eq_some_iff.1 h
    obtain ⟨⟨rest, u⟩, hr, h⟩ := Option.bind_eq_some_iff.1 h
    cases h
    obtain ⟨hs, hn⟩ := step_of_turn he ha
    obtain ⟨hl, hm⟩ := ih hr
    exact ⟨.cons hs hl, List.forall_mem_cons.2 ⟨hn, hm⟩⟩

end System

/-! ## A plain runtime -/

/-- Values as their texts, and graphs by a table. -/
def Codec.ofTable (graphs : List (Bytes × WorkflowGraph)) : Codec where
  toVec
    | .null => [110, 117, 108, 108]
    | .bool true => btrue
    | .bool false => [102, 97, 108, 115, 101]
    | _ => []
  fromSlice bytes := if bytes = [110, 117, 108, 108] then .ok .null else .error "expected value"
  graphFromSlice bytes :=
    match graphs.find? fun e => e.1 = bytes with
    | some e => .ok e.2
    | none => .error "expected value"
  legacyFromSlice _ := .error (.miette "expected value")

def Orchestrator.plain (graphs : List (Bytes × WorkflowGraph)) : Orchestrator where
  codec := .ofTable graphs
  portgraph := .byClosure
  defaultExecutorName := "local"
  defaultStorageName := "memory"

def Assets.plain : Assets where
  registry := .ofList [("memory", { kind := .memory, store := ∅ })]
  fresh := 0

/-- One executor, which may report anything and writes no assets. -/
def Runtime.plain (graphs : List (Bytes × WorkflowGraph)) : Runtime where
  orchestrator := .plain graphs
  executors := ["local"]
  profiles _ := .ok none
  executes _ A _ A' := A' = A

end Tierkreis
