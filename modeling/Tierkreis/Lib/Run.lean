import Mathlib.Tactic.Common

/-!
# Runs

A run of a machine with a total step function is the list of its inputs.
`Along step P s l` says that `P` holds of every turn of the run, of the state
before it and its input. `Steps` is the reflexive transitive closure of a
labelled step relation, and `Reachable` what it reaches from an initial state.
-/

namespace Lib.Run

variable {σ τ ι : Type}

section Total

variable (step : σ → ι → σ)

def Along (P : σ → ι → Prop) : σ → List ι → Prop
  | _, [] => True
  | s, i :: l => P s i ∧ Along P (step s i) l

variable {step}

theorem along_split {P : σ → ι → Prop} {l : List ι} :
    ∀ {s : σ}, Along step P s l ↔
      ∀ before i after, l = before ++ i :: after → P (before.foldl step s) i := by
  induction l with
  | nil => exact fun {s} => ⟨fun _ before i after h => by simp at h, fun _ => trivial⟩
  | cons j l ih =>
    intro s
    simp only [Along, ih]
    constructor
    · rintro ⟨h, hl⟩ before i after e
      cases before with
      | nil =>
        obtain ⟨rfl, -⟩ := List.cons.inj e
        exact h
      | cons k before =>
        obtain ⟨rfl, hl'⟩ := List.cons.inj e
        exact hl before i after hl'
    · intro h
      exact ⟨h [] j l rfl, fun before i after e => h (j :: before) i after (by rw [e]; rfl)⟩

/-- Two conditions on turns that agree wherever `inv` holds, and of which the second
carries `inv` over, hold along the same runs. -/
theorem along_iff {P Q : σ → ι → Prop} (inv : σ → Prop)
    (hpq : ∀ s i, inv s → (P s i ↔ Q s i)) (hinv : ∀ s i, inv s → Q s i → inv (step s i))
    {l : List ι} : ∀ {s : σ}, inv s → (Along step P s l ↔ Along step Q s l) := by
  induction l with
  | nil => exact fun _ => Iff.rfl
  | cons i l ih =>
    intro s hs
    simp only [Along]
    constructor
    · rintro ⟨h, hl⟩
      have hq := (hpq s i hs).1 h
      exact ⟨hq, (ih (hinv s i hs hq)).1 hl⟩
    · rintro ⟨h, hl⟩
      exact ⟨(hpq s i hs).2 h, (ih (hinv s i hs h)).2 hl⟩

/-- What every turn that meets `Q` preserves, a run of such turns preserves. -/
theorem Along.invariant {Q : σ → ι → Prop} (inv : σ → Prop)
    (hinv : ∀ s i, inv s → Q s i → inv (step s i)) {l : List ι} :
    ∀ {s : σ}, inv s → Along step Q s l → inv (l.foldl step s) := by
  induction l with
  | nil => exact fun h _ => h
  | cons i l ih => exact fun hs h => ih (hinv _ i hs h.1) h.2

end Total

section Labelled

variable (Step : σ → ι → σ → Prop)

inductive Steps : σ → List ι → σ → Prop
  | nil (s : σ) : Steps s [] s
  | cons {s t u : σ} {i : ι} {l : List ι} (h : Step s i t) (hl : Steps t l u) : Steps s (i :: l) u

variable {Step}

theorem Steps.append {s t u : σ} {l l' : List ι} (h : Steps Step s l t) (h' : Steps Step t l' u) :
    Steps Step s (l ++ l') u := by
  induction h with
  | nil => exact h'
  | cons hs _ ih => exact .cons hs (ih h')

theorem Steps.mono {Step' : σ → ι → σ → Prop} {s t : σ} {l : List ι}
    (hmono : ∀ {s i t}, Step s i t → Step' s i t) (h : Steps Step s l t) : Steps Step' s l t := by
  induction h with
  | nil => exact .nil _
  | cons hs _ ih => exact .cons (hmono hs) ih

/-- Two step relations that agree wherever `inv` holds, and of which the second carries `inv`
over, have the same runs. -/
theorem steps_iff {R R' : σ → ι → σ → Prop} (inv : σ → Prop)
    (hiff : ∀ s i t, inv s → (R s i t ↔ R' s i t)) (hinv : ∀ s i t, inv s → R' s i t → inv t)
    {l : List ι} {s t : σ} (hs : inv s) : Steps R s l t ↔ Steps R' s l t := by
  constructor
  · intro h
    induction h with
    | nil => exact .nil _
    | cons h _ ih =>
      have h' := (hiff _ _ _ hs).1 h
      exact .cons h' (ih (hinv _ _ _ hs h'))
  · intro h
    induction h with
    | nil => exact .nil _
    | cons h _ ih => exact .cons ((hiff _ _ _ hs).2 h) (ih (hinv _ _ _ hs h))

end Labelled

end Lib.Run
