import Mathlib.Data.List.Dedup
import Mathlib.Data.Finset.Card
import Mathlib.Data.Finset.Dedup
import Mathlib.Logic.Relation

/-!
# Reachability in a finite graph

`closure succ k start` adds successors to `start` for `k` rounds. When every
successor lies in a list `univ`, `univ.length` rounds collect exactly what is
reachable: each round that adds nothing leaves a closed set, and every other
round uses up an element of `univ`.
-/

namespace Lib.Closure

variable {α : Type} [DecidableEq α] (succ : α → List α)

abbrev Reach (a b : α) : Prop := Relation.ReflTransGen (fun x y => y ∈ succ x) a b

/-- One round: the successors of `seen` that are not in it yet, appended. -/
def grow (seen : List α) : List α :=
  seen ++ ((seen.flatMap succ).dedup.filter fun a => a ∉ seen)

def closure : Nat → List α → List α
  | 0, seen => seen
  | k + 1, seen => closure k (grow succ seen)

variable {succ}

theorem mem_grow {seen : List α} {b : α} :
    b ∈ grow succ seen ↔ b ∈ seen ∨ ∃ a ∈ seen, b ∈ succ a := by
  simp only [grow, List.mem_append, List.mem_filter, List.mem_dedup, List.mem_flatMap,
    decide_eq_true_eq]
  constructor
  · rintro (h | ⟨h, -⟩)
    · exact .inl h
    · exact .inr h
  · rintro (h | h)
    · exact .inl h
    · by_cases hb : b ∈ seen
      · exact .inl hb
      · exact .inr ⟨h, hb⟩

theorem nodup_grow {seen : List α} (h : seen.Nodup) : (grow succ seen).Nodup := by
  refine List.Nodup.append h ((List.nodup_dedup _).filter _) ?_
  intro a ha hf
  exact of_decide_eq_true (List.mem_filter.1 hf).2 ha

theorem nodup_closure : ∀ {k : Nat} {seen : List α}, seen.Nodup → (closure succ k seen).Nodup
  | 0, _, h => h
  | k + 1, _, h => nodup_closure (k := k) (nodup_grow h)

theorem subset_closure : ∀ {k : Nat} {seen : List α} {b : α}, b ∈ seen → b ∈ closure succ k seen
  | 0, _, _, h => h
  | k + 1, _, _, h => subset_closure (k := k) (mem_grow.2 (.inl h))

theorem reach_of_mem_closure :
    ∀ {k : Nat} {seen : List α} {b : α}, b ∈ closure succ k seen → ∃ a ∈ seen, Reach succ a b
  | 0, _, b, h => ⟨b, h, .refl⟩
  | k + 1, seen, b, h => by
    obtain ⟨a, ha, hr⟩ := reach_of_mem_closure (k := k) h
    rcases mem_grow.1 ha with ha | ⟨a', ha', he⟩
    · exact ⟨a, ha, hr⟩
    · exact ⟨a', ha', .head he hr⟩

omit [DecidableEq α] in
/-- A set closed under successors keeps what is reachable from it. -/
theorem mem_of_reach {s : List α} (hs : ∀ a ∈ s, ∀ b ∈ succ a, b ∈ s) {a b : α} (ha : a ∈ s)
    (h : Reach succ a b) : b ∈ s := by
  induction h with
  | refl => exact ha
  | tail _ he ih => exact hs _ ih _ he

theorem closure_closed {univ : List α} (hu : ∀ a, ∀ b ∈ succ a, b ∈ univ) :
    ∀ {k : Nat} {seen : List α}, (univ.toFinset \ seen.toFinset).card ≤ k →
      ∀ a ∈ closure succ k seen, ∀ b ∈ succ a, b ∈ closure succ k seen
  | 0, seen, hk, a, ha, b, hb => by
    by_contra hn
    have : b ∈ univ.toFinset \ seen.toFinset := by
      rw [Finset.mem_sdiff, List.mem_toFinset, List.mem_toFinset]
      exact ⟨hu a b hb, hn⟩
    have := Finset.card_pos.2 ⟨b, this⟩
    omega
  | k + 1, seen, hk, a, ha, b, hb => by
    by_cases hc : ∀ x ∈ seen, ∀ y ∈ succ x, y ∈ seen
    · -- nothing left to add: the closure is `seen`
      obtain ⟨x, hx, hr⟩ := reach_of_mem_closure ha
      exact subset_closure (hc _ (mem_of_reach hc hx hr) _ hb)
    · simp only [not_forall] at hc
      obtain ⟨x, hx, y, hy, hn⟩ := hc
      refine closure_closed hu (k := k) ?_ a ha b hb
      have hlt : (univ.toFinset \ (grow succ seen).toFinset).card <
          (univ.toFinset \ seen.toFinset).card := by
        refine Finset.card_lt_card (Finset.ssubset_iff_subset_ne.2 ⟨?_, fun e => ?_⟩)
        · intro z hz
          simp only [Finset.mem_sdiff, List.mem_toFinset, mem_grow, not_or] at hz ⊢
          exact ⟨hz.1, hz.2.1⟩
        · have hm : y ∈ univ.toFinset \ seen.toFinset := by
            simpa using And.intro (hu x y hy) hn
          rw [← e] at hm
          simp only [Finset.mem_sdiff, List.mem_toFinset, mem_grow, not_or] at hm
          exact hm.2.2 ⟨x, hx, hy⟩
      omega

/-- As many rounds as `univ` has elements collect everything reachable. -/
theorem mem_closure (univ : List α) (hu : ∀ a, ∀ b ∈ succ a, b ∈ univ) {seen : List α} {b : α} :
    b ∈ closure succ univ.length seen ↔ ∃ a ∈ seen, Reach succ a b := by
  refine ⟨reach_of_mem_closure, fun ⟨a, ha, hr⟩ => ?_⟩
  refine mem_of_reach (closure_closed hu ?_) (subset_closure ha) hr
  calc (univ.toFinset \ seen.toFinset).card ≤ univ.toFinset.card :=
        Finset.card_le_card Finset.sdiff_subset
    _ ≤ univ.length := List.toFinset_card_le _

end Lib.Closure
