import Tierkreis.Lib.Commute
import Tierkreis.Restart.Restarted
import Tierkreis.Restart.Sqlite

/-!
# Merging filters

Merging is associative, commutative and idempotent, if bits that are not set do
not count, and a copy does not count them either. So the filters of several
locations may be merged in any order.
-/

namespace Tierkreis

open Lib Lib.Commute

namespace NodeCopyFilter

theorem get?_mergeLoopIndex (m : HashMap Location Nat) (e : Location × Nat) (loc : Location) :
    (mergeLoopIndex m e).get? loc =
      if loc = e.1 then (m.get? e.1).merge min (some e.2) else m.get? loc := by
  rw [mergeLoopIndex, HashMap.get?_modify]
  split
  · cases m.get? e.1 with
    | none => simp
    | some index => rfl
  · rfl

/-- The smaller index of the two filters. -/
theorem get?_resetLoopIndex_merge (f other : NodeCopyFilter) (loc : Location) :
    (f.merge other).resetLoopIndex.get? loc =
      (f.resetLoopIndex.get? loc).merge min (other.resetLoopIndex.get? loc) := by
  obtain ⟨hin, hout⟩ := HashMap.get?_foldl_put mergeLoopIndex Prod.fst
    (fun m e => (m.get? e.1).merge min (some e.2)) (fun _ => True) (fun _ => trivial)
    get?_mergeLoopIndex (fun m m' e hk _ => by rw [hk]) (m := f.resetLoopIndex)
    other.resetLoopIndex.nodup_toList
  unfold merge
  cases hg : other.resetLoopIndex.get? loc with
  | none =>
    rw [Option.merge_none_right]
    refine hout loc fun hm => ?_
    obtain ⟨e, he, rfl⟩ := List.mem_map.1 hm
    rw [HashMap.get?_eq_some_iff.2 he] at hg
    cases hg
  | some index => exact hin (loc, index) (HashMap.get?_eq_some_iff.1 hg)

/-- Filters that are equal but for bits that are not set. -/
structure Same (f g : NodeCopyFilter) : Prop where
  clearRoots : f.clearRoots = g.clearRoots
  resetLoopIndex : ∀ loc, f.resetLoopIndex.get? loc = g.resetLoopIndex.get? loc
  resets : ∀ loc, (f.resetMapElems.get? loc).isSome = true ↔
    (g.resetMapElems.get? loc).isSome = true
  resetsElem : ∀ loc i, f.ResetsElem loc i ↔ g.ResetsElem loc i
  truncateExact : f.truncateExact = g.truncateExact

theorem same_equivalence : Equivalence Same where
  refl _ := ⟨rfl, fun _ => rfl, fun _ => .rfl, fun _ _ => .rfl, rfl⟩
  symm h := ⟨h.clearRoots.symm, fun loc => (h.resetLoopIndex loc).symm,
    fun loc => (h.resets loc).symm, fun loc i => (h.resetsElem loc i).symm, h.truncateExact.symm⟩
  trans h h' := ⟨h.clearRoots.trans h'.clearRoots,
    fun loc => (h.resetLoopIndex loc).trans (h'.resetLoopIndex loc),
    fun loc => (h.resets loc).trans (h'.resets loc),
    fun loc i => (h.resetsElem loc i).trans (h'.resetsElem loc i),
    h.truncateExact.trans h'.truncateExact⟩

theorem merge_comm (f g : NodeCopyFilter) : (f.merge g).Same (g.merge f) where
  clearRoots := Finset.union_comm _ _
  resetLoopIndex loc := by
    rw [get?_resetLoopIndex_merge, get?_resetLoopIndex_merge]
    exact Std.Commutative.comm _ _
  resets loc := by rw [isSome_resetMapElems_merge, isSome_resetMapElems_merge, or_comm]
  resetsElem loc i := by rw [resetsElem_merge, resetsElem_merge, or_comm]
  truncateExact := Finset.union_comm _ _

theorem merge_assoc (f g h : NodeCopyFilter) : ((f.merge g).merge h).Same (f.merge (g.merge h)) where
  clearRoots := Finset.union_assoc _ _ _
  resetLoopIndex loc := by
    simp only [get?_resetLoopIndex_merge]
    exact Std.Associative.assoc _ _ _
  resets loc := by simp only [isSome_resetMapElems_merge, or_assoc]
  resetsElem loc i := by simp only [resetsElem_merge, or_assoc]
  truncateExact := Finset.union_assoc _ _ _

theorem merge_self (f : NodeCopyFilter) : (f.merge f).Same f where
  clearRoots := Finset.union_self _
  resetLoopIndex loc := by
    rw [get?_resetLoopIndex_merge]
    exact Std.IdempotentOp.idempotent _
  resets loc := by rw [isSome_resetMapElems_merge, or_self]
  resetsElem loc i := by rw [resetsElem_merge, or_self]
  truncateExact := Finset.union_self _

theorem Same.merge_right {f g : NodeCopyFilter} (h : f.Same g) (other : NodeCopyFilter) :
    (f.merge other).Same (g.merge other) where
  clearRoots := congrArg (· ∪ other.clearRoots) h.clearRoots
  resetLoopIndex loc := by
    rw [get?_resetLoopIndex_merge, get?_resetLoopIndex_merge, h.resetLoopIndex]
  resets loc := by rw [isSome_resetMapElems_merge, isSome_resetMapElems_merge, h.resets]
  resetsElem loc i := by rw [resetsElem_merge, resetsElem_merge, h.resetsElem]
  truncateExact := congrArg (· ∪ other.truncateExact) h.truncateExact

theorem respects_merge : Respects merge Same where
  equiv := same_equivalence
  step other h := h.merge_right other

theorem commutes_merge (f g : NodeCopyFilter) : Commutes merge Same f g := by
  intro invalidated
  have hleft : ((invalidated.merge f).merge g).Same (invalidated.merge (f.merge g)) :=
    merge_assoc _ _ _
  have hswap : (invalidated.merge (f.merge g)).Same (invalidated.merge (g.merge f)) :=
    same_equivalence.trans (merge_comm _ _)
      (same_equivalence.trans ((merge_comm f g).merge_right _) (merge_comm _ _))
  exact same_equivalence.trans hleft
    (same_equivalence.trans hswap (same_equivalence.symm (merge_assoc _ _ _)))

/-- What filters come to when they are merged one after another, starting from `{}`. -/
def mergeAll (fs : List NodeCopyFilter) : NodeCopyFilter := fs.foldl merge {}

theorem mergeAll_perm {fs fs' : List NodeCopyFilter} (h : fs.Perm fs') :
    (mergeAll fs).Same (mergeAll fs') :=
  respects_merge.foldl_perm h (fun f _ g _ => commutes_merge f g) {}

/-- A merged filter clears what one of them clears. -/
theorem clears_foldl_merge {loc : Location} (fs : List NodeCopyFilter) :
    ∀ f : NodeCopyFilter, (fs.foldl merge f).clears loc = true ↔
      f.clears loc = true ∨ ∃ g ∈ fs, g.clears loc = true := by
  induction fs with
  | nil => simp
  | cons g fs ih =>
    intro f
    rw [List.foldl_cons, ih, clears_merge, or_assoc]
    simp only [List.exists_mem_cons_iff]

theorem clears_mergeAll {loc : Location} {fs : List NodeCopyFilter} :
    (mergeAll fs).clears loc = true ↔ ∃ f ∈ fs, f.clears loc = true := by
  have hnone : ¬ ({} : NodeCopyFilter).clears loc = true := by
    rw [clears_iff]
    rintro ⟨a, ha, -⟩
    cases ha
  rw [mergeAll, clears_foldl_merge]
  exact or_iff_right hnone

/-! ## Copies do not tell such filters apart -/

variable {f g : NodeCopyFilter}

theorem Same.clears (h : f.Same g) (loc : Location) : f.clears loc = g.clears loc := by
  unfold NodeCopyFilter.clears
  rw [h.clearRoots]

/-- Bits that are not set reset nothing. -/
theorem bitxorAssign_congr {reset reset' : List Bool}
    (h : ∀ i : Nat, reset[i]? = some true ↔ reset'[i]? = some true) (bits : List Bool) :
    bitxorAssign bits reset = bitxorAssign bits reset' := by
  refine List.ext_getElem? fun i => ?_
  rw [getElem?_bitxorAssign, getElem?_bitxorAssign]
  have hi : reset[i]?.getD false = reset'[i]?.getD false := by
    rw [Bool.eq_iff_iff]
    have := h i
    cases hr : reset[i]? <;> cases hr' : reset'[i]? <;> simp_all
  rw [hi]

/-- The bits to reset at a location: none, or bits with the same ones set. -/
theorem Same.bits (h : f.Same g) (loc : Location) :
    (f.resetMapElems.get? loc = none ∧ g.resetMapElems.get? loc = none) ∨
      ∃ reset reset', f.resetMapElems.get? loc = some reset ∧
        g.resetMapElems.get? loc = some reset' ∧
        ∀ i : Nat, reset[i]? = some true ↔ reset'[i]? = some true := by
  have hs := h.resets loc
  have he := h.resetsElem loc
  unfold ResetsElem at he
  cases hf : f.resetMapElems.get? loc with
  | none =>
    refine .inl ⟨rfl, ?_⟩
    rw [hf] at hs
    cases hg : g.resetMapElems.get? loc with
    | none => rfl
    | some reset' =>
      rw [hg] at hs
      exact absurd (hs.2 rfl) Bool.false_ne_true
  | some reset =>
    rw [hf] at hs
    obtain ⟨reset', hg⟩ := Option.isSome_iff_exists.1 (hs.1 rfl)
    rw [hf, hg] at he
    exact .inr ⟨reset, reset', rfl, hg, he⟩

theorem Same.copyState (h : f.Same g) (loc : Location) (s : NodeState) :
    f.copyState loc s = g.copyState loc s := by
  unfold NodeCopyFilter.copyState
  rw [h.truncateExact, h.resetLoopIndex]
  rcases h.bits loc with ⟨hf, hg⟩ | ⟨reset, reset', hf, hg, hbits⟩
  · rw [hf, hg]
  · rw [hf, hg]
    simp only [bitxorAssign_congr hbits]

end NodeCopyFilter

variable {f g : NodeCopyFilter}

theorem InMemoryRuntimeState.copyNodeStatesFrom_congr (h : f.Same g) (st : InMemoryRuntimeState)
    (target source : RunAttempt) :
    st.copyNodeStatesFrom target source f = st.copyNodeStatesFrom target source g := by
  have hnodes : ∀ run, InMemoryRuntimeState.copiedNodes run f =
      InMemoryRuntimeState.copiedNodes run g := by
    intro run
    unfold InMemoryRuntimeState.copiedNodes
    simp only [h.clears, h.copyState]
  have hinputs : ∀ run, InMemoryRuntimeState.copiedInputs run f =
      InMemoryRuntimeState.copiedInputs run g := by
    intro run
    unfold InMemoryRuntimeState.copiedInputs
    simp only [h.clears]
  unfold InMemoryRuntimeState.copyNodeStatesFrom
  simp only [hnodes, hinputs]

namespace Sql

theorem copiedRow_congr (h : f.Same g) (K : Crates) (loc : Location) (row : NodeRow) :
    copiedRow K f loc row = copiedRow K g loc row := by
  unfold copiedRow
  rw [h.truncateExact, h.resetLoopIndex]
  rcases h.bits loc with ⟨hf, hg⟩ | ⟨reset, reset', hf, hg, hbits⟩
  · rw [hf, hg]
  · rw [hf, hg]
    simp only [NodeCopyFilter.bitxorAssign_congr hbits, Option.bind_some]

theorem copyRow_congr (h : f.Same g) (K : Crates) (run : Uuid) (source dest : Int) :
    copyRow K run source dest f = copyRow K run source dest g := by
  funext e
  unfold copyRow copyOutputs
  simp only [h.clears, h.resetLoopIndex, h.truncateExact, copiedRow_congr h]

end Sql

theorem SqliteRuntimeState.copyNodeStatesFrom_congr (h : f.Same g) (K : Sql.Crates)
    (st : SqliteRuntimeState) (faults : Nat → Option Failure) (target : RunAttempt) (source : Nat) :
    st.copyNodeStatesFrom K faults target source f =
      st.copyNodeStatesFrom K faults target source g := by
  unfold SqliteRuntimeState.copyNodeStatesFrom Sql.copyNodeStatesProg
  simp only [Sql.copyRow_congr h]

end Tierkreis
