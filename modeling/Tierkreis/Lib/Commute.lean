import Mathlib.Data.List.Perm.Basic

/-!
# Steps that commute

A list of steps is folded over a state. Where two steps commute up to an
equivalence that every step respects, they may be exchanged anywhere in the
list: neighbouring permutations for steps that all commute, interleavings for
two lists whose steps commute with each other.
-/

namespace Lib.Commute

variable {σ ι : Type} {step : σ → ι → σ} {R : σ → σ → Prop}

/-- An equivalence of states that the steps respect. -/
structure Respects (step : σ → ι → σ) (R : σ → σ → Prop) : Prop where
  equiv : Equivalence R
  step : ∀ {s t : σ} (a : ι), R s t → R (step s a) (step t a)

/-- Two steps may be taken in either order. -/
def Commutes (step : σ → ι → σ) (R : σ → σ → Prop) (a b : ι) : Prop :=
  ∀ s, R (step (step s a) b) (step (step s b) a)

theorem Respects.foldl (h : Respects step R) (l : List ι) :
    ∀ {s t : σ}, R s t → R (l.foldl step s) (l.foldl step t) := by
  induction l with
  | nil => exact fun hst => hst
  | cons a l ih => exact fun hst => ih (h.step a hst)

/-- Steps that all commute may come in any order. -/
theorem Respects.foldl_perm (h : Respects step R) {l l' : List ι} (hp : l.Perm l')
    (hc : ∀ a ∈ l, ∀ b ∈ l, Commutes step R a b) (s : σ) :
    R (l.foldl step s) (l'.foldl step s) := by
  induction hp generalizing s with
  | nil => exact h.equiv.refl s
  | cons a _ ih => exact ih (fun x hx y hy => hc x (.tail _ hx) y (.tail _ hy)) (step s a)
  | swap a b l => exact h.foldl l (hc b (.head _) a (.tail _ (.head _)) s)
  | trans hp _ ih ih' =>
    refine h.equiv.trans (ih hc s) (ih' ?_ s)
    exact fun x hx y hy => hc x (hp.mem_iff.2 hx) y (hp.mem_iff.2 hy)

/-- `n` is `l` and `m`, each in its own order. -/
inductive Interleaves : List ι → List ι → List ι → Prop
  | nil : Interleaves [] [] []
  | left {l m n : List ι} (a : ι) (h : Interleaves l m n) : Interleaves (a :: l) m (a :: n)
  | right {l m n : List ι} (b : ι) (h : Interleaves l m n) : Interleaves l (b :: m) (b :: n)

namespace Interleaves

variable {l l' m m' n n' : List ι}

theorem left_alone : ∀ l : List ι, Interleaves l [] l
  | [] => .nil
  | a :: l => .left a (left_alone l)

theorem right_alone : ∀ m : List ι, Interleaves [] m m
  | [] => .nil
  | b :: m => .right b (right_alone m)

theorem append (h : Interleaves l m n) (h' : Interleaves l' m' n') :
    Interleaves (l ++ l') (m ++ m') (n ++ n') := by
  induction h with
  | nil => exact h'
  | left a _ ih => exact .left a ih
  | right b _ ih => exact .right b ih

theorem symm (h : Interleaves l m n) : Interleaves m l n := by
  induction h with
  | nil => exact .nil
  | left a _ ih => exact .right a ih
  | right b _ ih => exact .left b ih

theorem eq_of_nil_right (h : Interleaves l [] n) : n = l := by
  generalize hm : ([] : List ι) = m at h
  induction h with
  | nil => rfl
  | left a _ ih => rw [ih hm]
  | right b _ _ => cases hm

theorem mem_iff (h : Interleaves l m n) {a : ι} : a ∈ n ↔ a ∈ l ∨ a ∈ m := by
  induction h with
  | nil => simp
  | left b _ ih => simp [ih, or_assoc]
  | right b _ ih => simp [ih, or_left_comm]

/-- Each step turned into a list of steps. -/
theorem flatMap {κ : Type} (f : ι → List κ) (h : Interleaves l m n) :
    Interleaves (l.flatMap f) (m.flatMap f) (n.flatMap f) := by
  induction h with
  | nil => exact .nil
  | left a _ ih => exact (left_alone (f a)).append ih
  | right b _ ih => exact (right_alone (f b)).append ih

/-- An interleaving begins as one of its lists does. -/
theorem head?_eq (h : Interleaves l m n) : n.head? = l.head? ∨ n.head? = m.head? := by
  cases h with
  | nil => exact .inl rfl
  | left a _ => exact .inl rfl
  | right b _ => exact .inr rfl

/-- Steps that change nothing may be left out. -/
theorem foldl_idle (h : Interleaves l m n) (hm : ∀ b ∈ m, ∀ s, step s b = s) (s : σ) :
    n.foldl step s = l.foldl step s := by
  induction h generalizing s with
  | nil => rfl
  | left a _ ih => exact ih hm (step s a)
  | right b _ ih =>
    rw [List.foldl_cons, hm b (.head _), ih fun c hc => hm c (.tail _ hc)]

/-- Cut an interleaving at a step of the first list. -/
theorem cut {l₁ l₂ : List ι} {a : ι} (h : Interleaves (l₁ ++ a :: l₂) m n) :
    ∃ m₁ m₂ n₁ n₂, m = m₁ ++ m₂ ∧ n = n₁ ++ a :: n₂ ∧ Interleaves l₁ m₁ n₁ := by
  generalize hl : l₁ ++ a :: l₂ = l at h
  induction h generalizing l₁ with
  | nil => simp at hl
  | @left l m n b h ih =>
    cases l₁ with
    | nil =>
      obtain ⟨rfl, rfl⟩ := List.cons.inj hl
      exact ⟨[], m, [], n, rfl, rfl, .nil⟩
    | cons c l₁ =>
      obtain ⟨rfl, htail⟩ := List.cons.inj hl
      obtain ⟨m₁, m₂, n₁, n₂, rfl, rfl, h₁⟩ := ih htail
      exact ⟨m₁, m₂, c :: n₁, n₂, rfl, rfl, .left c h₁⟩
  | right b h ih =>
    obtain ⟨m₁, m₂, n₁, n₂, rfl, rfl, h₁⟩ := ih hl
    exact ⟨b :: m₁, m₂, b :: n₁, n₂, rfl, rfl, .right b h₁⟩

end Interleaves

/-- A step that commutes with those of a list may be taken before or after them. -/
theorem Respects.foldl_move (h : Respects step R) {b : ι} {l : List ι}
    (hc : ∀ a ∈ l, Commutes step R a b) (s : σ) :
    R (l.foldl step (step s b)) (step (l.foldl step s) b) := by
  induction l generalizing s with
  | nil => exact h.equiv.refl _
  | cons a l ih =>
    have hswap : R (step (step s b) a) (step (step s a) b) := h.equiv.symm (hc a (.head _) s)
    exact h.equiv.trans (h.foldl l hswap) (ih (fun x hx => hc x (.tail _ hx)) (step s a))

/-- Every interleaving of two lists whose steps commute comes to the same as one after the
other. -/
theorem Respects.foldl_interleaves (h : Respects step R) {l m n : List ι}
    (hi : Interleaves l m n) (hc : ∀ a ∈ l, ∀ b ∈ m, Commutes step R a b) (s : σ) :
    R (n.foldl step s) (m.foldl step (l.foldl step s)) := by
  induction hi generalizing s with
  | nil => exact h.equiv.refl s
  | left a _ ih => exact ih (fun x hx y hy => hc x (.tail _ hx) y hy) (step s a)
  | @right l m n b _ ih =>
    have hmove : R (l.foldl step (step s b)) (step (l.foldl step s) b) :=
      h.foldl_move (fun a ha => hc a ha b (.head _)) s
    exact h.equiv.trans (ih (fun x hx y hy => hc x hx y (.tail _ hy)) (step s b))
      (h.foldl m hmove)

end Lib.Commute
