import Tierkreis.Orchestrator.Plan

/-!
# Ready nodes

What `findReadyNodes` yields: the nodes that are demanded from the output and
whose inputs are there.
-/

namespace Tierkreis

open Lib

section Ready

variable {W : Portgraph} {g : WorkflowGraph} {nodeStates : NodeStates} {parentLoc : Location}
  {scheduled : List Location} {ready : List NodeIndex} {n : NodeIndex}

theorem filterReady_spec {l : List NodeIndex} :
    ∀ {ready : List NodeIndex}, filterReady g nodeStates parentLoc l = .ok ready →
      ready.Sublist l ∧
        (∀ n ∈ ready, nodeReady g nodeStates parentLoc n = .ok true) ∧
        ∀ n ∈ l, n ∉ ready → nodeReady g nodeStates parentLoc n = .ok false := by
  induction l with
  | nil =>
    intro ready h
    cases h
    simp
  | cons m l ih =>
    intro ready h
    rw [filterReady] at h
    cases hm : nodeReady g nodeStates parentLoc m with
    | error e => simp [hm, bind, Except.bind] at h
    | ok b =>
      cases hl : filterReady g nodeStates parentLoc l with
      | error e => simp [hm, hl, bind, Except.bind] at h
      | ok rest =>
        obtain ⟨hs, hr, hn⟩ := ih hl
        simp only [hm, hl, bind, Except.bind, pure, Except.pure, Except.ok.injEq] at h
        cases b with
        | true =>
          subst h
          refine ⟨hs.cons_cons m, ?_, fun k hk hkr => ?_⟩
          · rintro k (_ | ⟨_, hk⟩)
            · exact hm
            · exact hr k hk
          · rw [if_pos rfl, List.mem_cons, not_or] at hkr
            exact hn k ((List.mem_cons.1 hk).resolve_left hkr.1) hkr.2
        | false =>
          subst h
          refine ⟨hs.cons m, hr, fun k hk hkr => ?_⟩
          rcases List.mem_cons.1 hk with rfl | hk
          · exact hm
          · exact hn k hk hkr

/-- The nodes that a pass looks at in a level. -/
abbrev DemandedNode (g : WorkflowGraph) (nodeStates : NodeStates) (parentLoc : Location)
    (scheduled : List Location) (n : NodeIndex) : Prop :=
  g.Demanded (traverseNode g nodeStates parentLoc scheduled) (traversePort g nodeStates parentLoc) n

theorem findReadyNodes_spec (h : findReadyNodes W g nodeStates parentLoc scheduled = .ok ready) :
    ready.Nodup ∧
      ∀ n, n ∈ ready ↔ DemandedNode g nodeStates parentLoc scheduled n ∧
        nodeReady g nodeStates parentLoc n = .ok true := by
  unfold findReadyNodes at h
  dsimp only at h
  split_ifs at h
  obtain ⟨hs, hr, hn⟩ := filterReady_spec h
  refine ⟨hs.nodup (W.nodup_toposort _ _ _), fun n => ?_⟩
  rw [DemandedNode, ← W.mem_toposort]
  constructor
  · exact fun hm => ⟨hs.subset hm, hr n hm⟩
  · rintro ⟨hd, ht⟩
    by_contra hm
    rw [hn n hd hm] at ht
    cases ht

/-- Why a node is demanded: it has no outputs, is not paused, and is not scheduled for good. -/
theorem traverse_of_demanded (h : DemandedNode g nodeStates parentLoc scheduled n) :
    (stateAt nodeStates (parentLoc.withNode n)).outputs = none ∧
      (stateAt nodeStates (parentLoc.withNode n)).isPaused = false ∧
      ((g.nodeDefinition n).any alwaysRun = true → parentLoc.withNode n ∉ scheduled) := by
  have := h.filter
  simp only [traverseNode, Bool.and_eq_true, Option.isNone_iff_eq_none, Bool.not_eq_true',
    Bool.and_eq_false_iff, List.contains_eq_mem, decide_eq_false_iff_not] at this
  obtain ⟨⟨ho, hp⟩, hs⟩ := this
  exact ⟨ho, hp, fun ha => hs.resolve_left (by rw [ha]; simp)⟩

theorem demanded_of_ready (h : findReadyNodes W g nodeStates parentLoc scheduled = .ok ready)
    (hn : n ∈ ready) : DemandedNode g nodeStates parentLoc scheduled n :=
  (((findReadyNodes_spec h).2 n).1 hn).1

end Ready

end Tierkreis
