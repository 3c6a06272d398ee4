import Mathlib.Data.List.Forall2
import Mathlib.Tactic.Common

/-!
# Computations with state and failure

A run of a `StateT σ (Except ε)` computation that succeeds is taken apart by
one lemma for each way to build it. `Collect` is what a loop that appends the
results of its turns does, turn by turn.
-/

namespace Lib.StateExcept

variable {σ ε α β : Type} {s s' : σ}

theorem ok_bind (a : α) (f : α → Except ε β) : (.ok a >>= f) = f a := rfl

theorem toOption_eq_some_iff {x : Except ε α} {a : α} : x.toOption = some a ↔ x = .ok a := by
  cases x with
  | error e => simp [Except.toOption]
  | ok b => simp [Except.toOption]

theorem except_bind_eq_ok {x : Except ε α} {f : α → Except ε β} {b : β} :
    (x >>= f) = .ok b ↔ ∃ a, x = .ok a ∧ f a = .ok b := by
  cases x with
  | error e => simp [bind, Except.bind]
  | ok a => simp [bind, Except.bind]

theorem bind_eq_ok {x : StateT σ (Except ε) α} {f : α → StateT σ (Except ε) β} {b : β} :
    (x >>= f) s = .ok (b, s') ↔ ∃ a t, x s = .ok (a, t) ∧ f a t = .ok (b, s') := by
  change (x s >>= fun p => f p.1 p.2) = _ ↔ _
  cases h : x s with
  | error e => simp [bind, Except.bind]
  | ok p =>
    obtain ⟨a, t⟩ := p
    simp [bind, Except.bind]

theorem bind_of_ok {x : StateT σ (Except ε) α} {f : α → StateT σ (Except ε) β} {a : α} {t : σ}
    (h : x s = .ok (a, t)) : (x >>= f) s = f a t := by
  change (x s >>= fun p => f p.1 p.2) = _
  rw [h]
  rfl

theorem bind_of_error {x : StateT σ (Except ε) α} {f : α → StateT σ (Except ε) β} {e : ε}
    (h : x s = .error e) : (x >>= f) s = .error e := by
  change (x s >>= fun p => f p.1 p.2) = _
  rw [h]
  rfl

theorem lift_bind (x : Except ε α) (f : α → StateT σ (Except ε) β) :
    ((liftM x : StateT σ (Except ε) α) >>= f) s = x.bind fun a => f a s := by
  cases x with
  | error e => rfl
  | ok a => rfl

theorem pure_eq_ok {a b : α} :
    (pure a : StateT σ (Except ε) α) s = .ok (b, s') ↔ b = a ∧ s' = s := by
  change (Except.ok (a, s) : Except ε (α × σ)) = _ ↔ _
  simp [eq_comm]

theorem lift_eq_ok {x : Except ε α} {a : α} :
    (liftM x : StateT σ (Except ε) α) s = .ok (a, s') ↔ x = .ok a ∧ s' = s := by
  change (x >>= fun a => pure (a, s)) = _ ↔ _
  cases x with
  | error e => simp [bind, Except.bind]
  | ok b => simp [bind, Except.bind, pure, Except.pure, eq_comm]

theorem lift_bind_eq_ok {x : Except ε α} {f : α → StateT σ (Except ε) β} {b : β} :
    ((liftM x : StateT σ (Except ε) α) >>= f) s = .ok (b, s') ↔
      ∃ a, x = .ok a ∧ f a s = .ok (b, s') := by
  rw [bind_eq_ok]
  constructor
  · rintro ⟨a, t, hx, hf⟩
    obtain ⟨ha, rfl⟩ := lift_eq_ok.1 hx
    exact ⟨a, ha, hf⟩
  · rintro ⟨a, hx, hf⟩
    exact ⟨a, s, lift_eq_ok.2 ⟨hx, rfl⟩, hf⟩

theorem get_bind_eq_ok {f : σ → StateT σ (Except ε) β} {b : β} :
    ((get : StateT σ (Except ε) σ) >>= f) s = .ok (b, s') ↔ f s s = .ok (b, s') := Iff.rfl

theorem modify_bind_eq_ok {f : σ → σ} {k : Unit → StateT σ (Except ε) β} {b : β} :
    ((modify f : StateT σ (Except ε) Unit) >>= k) s = .ok (b, s') ↔
      k () (f s) = .ok (b, s') := Iff.rfl

theorem lift_bind_of_ok {x : Except ε α} {f : α → StateT σ (Except ε) β} {a : α} (h : x = .ok a) :
    ((liftM x : StateT σ (Except ε) α) >>= f) s = f a s := by
  rw [lift_bind, h]
  rfl

theorem get_bind (f : σ → StateT σ (Except ε) β) :
    ((get : StateT σ (Except ε) σ) >>= f) s = f s s := rfl

theorem modify_bind (f : σ → σ) (k : Unit → StateT σ (Except ε) β) :
    ((modify f : StateT σ (Except ε) Unit) >>= k) s = k () (f s) := rfl

theorem throw_ne_ok {e : ε} {a : α} :
    (throw e : StateT σ (Except ε) α) s ≠ .ok (a, s') := by
  change (Except.error e : Except ε (α × σ)) ≠ _
  simp

/-- The turns of a loop over a list, each from the state that the one before it left. -/
inductive Collect {ι : Type} (step : ι → σ → List β → σ → Prop) : List ι → σ → List β → σ → Prop
  | nil (s : σ) : Collect step [] s [] s
  | cons {i : ι} {l : List ι} {s t u : σ} {bs rest : List β} (h : step i s bs t)
      (hl : Collect step l t rest u) : Collect step (i :: l) s (bs ++ rest) u

namespace Collect

variable {ι : Type} {step step' : ι → σ → List β → σ → Prop} {l : List ι} {bs : List β}

theorem mono (h : ∀ i s bs t, i ∈ l → step i s bs t → step' i s bs t)
    (hc : Collect step l s bs s') : Collect step' l s bs s' := by
  induction hc with
  | nil s => exact .nil s
  | cons hi _ ih =>
    exact .cons (h _ _ _ _ (.head _) hi) (ih fun i s bs t hm => h i s bs t (.tail _ hm))

end Collect

/-! ## Lists -/

/-- Lists related elementwise through a third. -/
theorem forall₂_comp {γ : Type} {R : α → β → Prop} {S : β → γ → Prop} {T : α → γ → Prop}
    (h : ∀ a b c, R a b → S b c → T a c) {l : List α} {m : List β} (hl : List.Forall₂ R l m) :
    ∀ {n : List γ}, List.Forall₂ S m n → List.Forall₂ T l n := by
  induction hl with
  | nil =>
    intro n hm
    cases hm
    exact .nil
  | cons hab _ ih =>
    intro n hm
    cases hm with
    | cons hbc hm => exact .cons (h _ _ _ hab hbc) (ih hm)

theorem forall₂_map_eq {γ : Type} {R : α → β → Prop} {f : α → γ} {g : β → γ}
    (h : ∀ a b, R a b → f a = g b) {l : List α} {m : List β} (hl : List.Forall₂ R l m) :
    l.map f = m.map g := by
  induction hl with
  | nil => rfl
  | cons hab _ ih => rw [List.map_cons, List.map_cons, h _ _ hab, ih]

theorem forall₂_mem_left {R : α → β → Prop} {l : List α} {m : List β} (hl : List.Forall₂ R l m)
    {a : α} (ha : a ∈ l) : ∃ b ∈ m, R a b := by
  induction hl with
  | nil => cases ha
  | cons hab _ ih =>
    rcases List.mem_cons.1 ha with rfl | ha
    · exact ⟨_, .head _, hab⟩
    · obtain ⟨b, hb, hR⟩ := ih ha
      exact ⟨b, .tail _ hb, hR⟩

theorem forall₂_mem_right {R : α → β → Prop} {l : List α} {m : List β} (hl : List.Forall₂ R l m)
    {b : β} (hb : b ∈ m) : ∃ a ∈ l, R a b :=
  forall₂_mem_left (List.Forall₂.flip hl) hb

theorem forall₂_unique {R S : α → β → Prop} (h : ∀ a b c, R a b → S a c → b = c) {l : List α}
    {m n : List β} (hm : List.Forall₂ R l m) (hn : List.Forall₂ S l n) : m = n := by
  induction hm generalizing n with
  | nil =>
    cases hn
    rfl
  | cons hab _ ih =>
    cases hn with
    | cons hac hn => rw [h _ _ _ hab hac, ih hn]

section MapM

variable {f : α → Except ε β} {l : List α}

theorem mapM_eq_ok_iff {ys : List β} :
    l.mapM f = .ok ys ↔ List.Forall₂ (fun a b => f a = .ok b) l ys := by
  induction l generalizing ys with
  | nil =>
    constructor
    · intro h
      cases h
      exact .nil
    · intro h
      cases h
      rfl
  | cons a l ih =>
    rw [List.mapM_cons, except_bind_eq_ok]
    constructor
    · rintro ⟨b, hb, h⟩
      obtain ⟨bs, hbs, h⟩ := except_bind_eq_ok.1 h
      cases h
      exact .cons hb (ih.1 hbs)
    · intro h
      cases h with
      | cons hb hbs => exact ⟨_, hb, except_bind_eq_ok.2 ⟨_, ih.2 hbs, rfl⟩⟩

theorem exists_mapM_iff : (∃ ys, l.mapM f = .ok ys) ↔ ∀ a ∈ l, ∃ b, f a = .ok b := by
  induction l with
  | nil => exact iff_of_true ⟨[], rfl⟩ nofun
  | cons a l ih =>
    rw [List.forall_mem_cons, ← ih]
    constructor
    · rintro ⟨ys, h⟩
      rw [List.mapM_cons, except_bind_eq_ok] at h
      obtain ⟨b, hb, h⟩ := h
      obtain ⟨bs, hbs, -⟩ := except_bind_eq_ok.1 h
      exact ⟨⟨b, hb⟩, bs, hbs⟩
    · rintro ⟨⟨b, hb⟩, bs, hbs⟩
      refine ⟨b :: bs, ?_⟩
      rw [List.mapM_cons, hb, hbs]
      rfl

/-- The first element that fails decides. -/
theorem mapM_eq_error_iff {e : ε} : l.mapM f = .error e ↔
    ∃ before a after, l = before ++ a :: after ∧ (∀ b ∈ before, ∃ y, f b = .ok y) ∧
      f a = .error e := by
  induction l with
  | nil =>
    refine iff_of_false nofun ?_
    rintro ⟨before, a, after, h, -⟩
    exact absurd h (by simp)
  | cons a l ih =>
    rw [List.mapM_cons]
    constructor
    · intro h
      cases ha : f a with
      | error e' =>
        rw [ha] at h
        cases h
        exact ⟨[], a, l, rfl, nofun, ha⟩
      | ok b =>
        rw [ha] at h
        change (l.mapM f >>= fun bs => pure (b :: bs)) = _ at h
        cases hl : l.mapM f with
        | ok bs =>
          rw [hl] at h
          cases h
        | error e' =>
          rw [hl] at h
          cases h
          obtain ⟨before, a', after, rfl, hbefore, ha'⟩ := ih.1 hl
          exact ⟨a :: before, a', after, rfl, List.forall_mem_cons.2 ⟨⟨b, ha⟩, hbefore⟩, ha'⟩
    · rintro ⟨before, a', after, h, hbefore, ha'⟩
      cases before with
      | nil =>
        obtain ⟨rfl, -⟩ := List.cons.inj h
        rw [ha']
        rfl
      | cons c before =>
        obtain ⟨rfl, hl⟩ := List.cons.inj h
        obtain ⟨⟨b, hb⟩, hbefore⟩ := List.forall_mem_cons.1 hbefore
        rw [hb, ih.2 ⟨before, a', after, hl, hbefore, ha'⟩]
        rfl

end MapM

end Lib.StateExcept
