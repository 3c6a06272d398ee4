import Tierkreis.Controller.Location
import Tierkreis.Lib.PyInt
import Tierkreis.Python.Types

/-!
# Locations as strings

A `Loc` is a `str`. Its methods take it apart at the dots and put it together again,
and any string may be taken for one.
-/

namespace Tierkreis.Controller.LocString

open Lib

/-- `Literal["-"] | tuple[Literal["N", "L", "M"], NodeIndex]`. -/
inductive NodeStep
  | dash
  | step (s : Step)
  deriving DecidableEq, Repr

inductive StepsError
  | tierkreisError (text : PyStr)
  /-- The `IndexError` of `step_str[0]`. -/
  | indexError
  /-- The `ValueError` of `int` and of a format string. -/
  | valueError
  deriving DecidableEq, Repr

/-- `Loc()`. -/
def root : PyStr := pyStr "-"

def code (kind : StepKind) : Nat := kind.letter.toNat

section Methods

variable (U : PyInt.Unicode)

/-- The step as it is appended to the string, but for the dot. -/
def stepStr (s : Step) : Except StepsError PyStr :=
  match PyInt.str U s.idx with
  | some idx => .ok (code s.kind :: idx)
  | none => .error .valueError

def append (loc : PyStr) (s : Step) : Except StepsError PyStr := do
  pure (loc ++ pyStr "." ++ (← stepStr U s))

def N (loc : PyStr) (idx : NodeIndex) : Except StepsError PyStr := append U loc ⟨.N, idx⟩

def L (loc : PyStr) (idx : NodeIndex) : Except StepsError PyStr := append U loc ⟨.L, idx⟩

def M (loc : PyStr) (idx : NodeIndex) : Except StepsError PyStr := append U loc ⟨.M, idx⟩

def fromSteps (steps : List NodeStep) : Except StepsError PyStr :=
  steps.foldlM (fun loc step =>
    match step with
    | .dash => pure (loc ++ pyStr "-")
    | .step s => append U loc s) []

def kind? (c : Nat) : Option StepKind :=
  if c = code .N then some .N
  else if c = code .L then some .L
  else if c = code .M then some .M
  else none

/-- A part of `loc` between dots. -/
def readStep (loc : PyStr) : PyStr → Except StepsError NodeStep
  | [] => .error .indexError
  | c :: idxStr =>
    if c = '-'.toNat then .ok .dash
    else
      match kind? c with
      | some kind =>
        match PyInt.int U idxStr with
        | some idx => .ok (.step ⟨kind, idx⟩)
        | none => .error .valueError
      | none => .error (.tierkreisError (pyStr "Invalid Loc: " ++ loc))

def steps (loc : PyStr) : Except StepsError (List NodeStep) :=
  if loc = [] then .ok [] else (loc.splitOn '.'.toNat).mapM (readStep U loc)

def parent (loc : PyStr) : Except StepsError (Option PyStr) := do
  let steps ← steps U loc
  match steps.getLast? with
  | none => pure none
  | some .dash => pure (some (← fromSteps U []))
  | some (.step ⟨.L, idx⟩) =>
    let before ← fromSteps U steps.dropLast
    if idx = 0 then pure (some before) else pure (some (← L U before (idx - 1)))
  | some (.step _) => pure (some (← fromSteps U steps.dropLast))

def malformed : StepsError := .tierkreisError (pyStr "Malformed Loc")

def popFirst (loc : PyStr) : Except StepsError (NodeStep × PyStr) :=
  if loc = root then .ok (.dash, [])
  else do
    match ← steps U loc with
    | before :: first :: after =>
      if first = .dash then .error malformed
      else pure (first, ← fromSteps U (before :: after))
    | _ => .error malformed

def popLast (loc : PyStr) : Except StepsError (NodeStep × PyStr) :=
  if loc = root then .ok (.dash, [])
  else do
    let steps ← steps U loc
    match steps.getLast? with
    | some last =>
      if steps.length < 2 ∨ last = .dash then .error malformed
      else pure (last, ← fromSteps U steps.dropLast)
    | none => .error malformed

def partialLocs (loc : PyStr) : Except StepsError (List PyStr) := do
  let steps ← steps U loc
  (List.range steps.length).mapM fun i => fromSteps U (steps.take (i + 1))

/-- A location built from the root. -/
def build (path : List Step) : Except StepsError PyStr := path.foldlM (append U) root

/-- The last step put back. -/
def putLast (rest : PyStr) (last : NodeStep) : Except StepsError PyStr := do
  fromSteps U ((← steps U rest) ++ [last])

/-- The first step put back, behind the dash if there is one. -/
def putFirst (rest : PyStr) (first : NodeStep) : Except StepsError PyStr := do
  let steps ← steps U rest
  fromSteps U (steps.take 1 ++ first :: steps.drop 1)

end Methods

variable {U : PyInt.Unicode}

/-! ## Texts -/

/-- The indices of the steps have texts. -/
def Writable (U : PyInt.Unicode) (path : List Step) : Prop :=
  ∀ s ∈ path, (PyInt.str U s.idx).isSome

/-- What stands between the dots. -/
def part (U : PyInt.Unicode) (s : Step) : PyStr := code s.kind :: (PyInt.str U s.idx).getD []

def textOf (U : PyInt.Unicode) (path : List Step) : PyStr :=
  root ++ path.flatMap fun s => '.'.toNat :: part U s

theorem append_of_isSome {s : Step} (h : (PyInt.str U s.idx).isSome) (loc : PyStr) :
    append U loc s = .ok (loc ++ '.'.toNat :: part U s) := by
  obtain ⟨idx, hidx⟩ := Option.isSome_iff_exists.1 h
  unfold append stepStr part
  rw [hidx]
  exact congrArg Except.ok (List.append_assoc _ _ _)

theorem append_eq_error {s : Step} (h : ¬ (PyInt.str U s.idx).isSome) (loc : PyStr) :
    append U loc s = .error .valueError := by
  unfold append stepStr
  rw [Option.not_isSome_iff_eq_none.1 h]
  rfl

theorem foldlM_append {path : List Step} (h : Writable U path) :
    ∀ loc, path.foldlM (append U) loc =
      .ok (loc ++ path.flatMap fun s => '.'.toNat :: part U s) := by
  induction path with
  | nil => exact fun loc => congrArg Except.ok (List.append_nil loc).symm
  | cons s path ih =>
    intro loc
    obtain ⟨hs, hpath⟩ := List.forall_mem_cons.1 h
    rw [List.foldlM_cons, append_of_isSome hs]
    change path.foldlM (append U) (loc ++ '.'.toNat :: part U s) = _
    rw [ih hpath, List.append_assoc, List.flatMap_cons]

theorem build_of_writable {path : List Step} (h : Writable U path) :
    build U path = .ok (textOf U path) := foldlM_append h root

theorem writable_of_foldlM {path : List Step} {l : PyStr} :
    ∀ {loc : PyStr}, path.foldlM (append U) loc = .ok l → Writable U path := by
  induction path with
  | nil => exact nofun
  | cons s path ih =>
    intro loc h
    rw [List.foldlM_cons] at h
    by_cases hs : (PyInt.str U s.idx).isSome
    · rw [append_of_isSome hs] at h
      exact List.forall_mem_cons.2 ⟨hs, ih h⟩
    · rw [append_eq_error hs] at h
      cases h

theorem build_eq_ok_iff {path : List Step} {l : PyStr} :
    build U path = .ok l ↔ Writable U path ∧ l = textOf U path := by
  constructor
  · intro h
    have hw := writable_of_foldlM h
    exact ⟨hw, Except.ok.inj (h.symm.trans (build_of_writable hw))⟩
  · rintro ⟨hw, rfl⟩
    exact build_of_writable hw

theorem fromSteps_dash (path : List Step) : fromSteps U (.dash :: path.map .step) = build U path := by
  unfold fromSteps build
  rw [List.foldlM_cons]
  change (path.map NodeStep.step).foldlM _ root = _
  rw [List.foldlM_map]

/-! ## Steps -/

theorem plain_of_mem_part {s : Step} {c : Nat} (h : c ∈ part U s) :
    c = code s.kind ∨ PyInt.Plain c := by
  rcases List.mem_cons.1 h with h | h
  · exact .inl h
  · cases hidx : PyInt.str U s.idx with
    | none =>
      rw [hidx] at h
      cases h
    | some idx =>
      rw [hidx] at h
      exact .inr (PyInt.plain_of_str hidx c h)

theorem dot_notMem_part (s : Step) : '.'.toNat ∉ part U s := by
  intro h
  rcases plain_of_mem_part h with h | h
  · cases hk : s.kind with
    | N => exact absurd (hk ▸ h) (by decide)
    | L => exact absurd (hk ▸ h) (by decide)
    | M => exact absurd (hk ▸ h) (by decide)
  · rcases h with h | h
    · exact absurd h (by decide)
    · exact absurd h (by decide)

theorem splitOn_parts {l : PyStr} (hl : '.'.toNat ∉ l) (path : List Step) :
    (l ++ path.flatMap fun s => '.'.toNat :: part U s).splitOn '.'.toNat =
      l :: path.map (part U) := by
  have htext : ∀ l, (l ++ path.flatMap fun s => '.'.toNat :: part U s) =
      ['.'.toNat].intercalate (l :: path.map (part U)) := by
    induction path with
    | nil => simp
    | cons s path ih =>
      intro l
      rw [List.map_cons, List.flatMap_cons, List.intercalate_cons_cons, ← ih]
      simp
  rw [htext]
  refine List.splitOn_intercalate _ (List.forall_mem_cons.2 ⟨hl, ?_⟩) (List.cons_ne_nil _ _)
  intro p hp
  obtain ⟨s, -, rfl⟩ := List.mem_map.1 hp
  exact dot_notMem_part s

theorem splitOn_textOf (path : List Step) :
    (textOf U path).splitOn '.'.toNat = root :: path.map (part U) := splitOn_parts (by decide) path

theorem readStep_part {s : Step} (h : (PyInt.str U s.idx).isSome) (loc : PyStr) :
    readStep U loc (part U s) = .ok (.step s) := by
  obtain ⟨idx, hidx⟩ := Option.isSome_iff_exists.1 h
  obtain ⟨kind, n⟩ := s
  have hint := PyInt.int_str hidx
  have hdash : code kind ≠ '-'.toNat := by
    cases kind <;> decide
  have hkind : kind? (code kind) = some kind := by
    cases kind <;> decide
  rw [part, hidx, readStep, if_neg hdash]
  simp only [hkind, Option.getD_some, hint]

theorem steps_textOf {path : List Step} (h : Writable U path) :
    steps U (textOf U path) = .ok (.dash :: path.map .step) := by
  have hne : textOf U path ≠ [] := by
    unfold textOf root
    exact List.append_ne_nil_of_left_ne_nil (by decide) _
  have hmap : ∀ (path : List Step) (loc : PyStr), Writable U path →
      (path.map (part U)).mapM (readStep U loc) = .ok (path.map NodeStep.step) := by
    intro path loc
    induction path with
    | nil => exact fun _ => rfl
    | cons s path ih =>
      intro h
      obtain ⟨hs, hpath⟩ := List.forall_mem_cons.1 h
      rw [List.map_cons, List.mapM_cons, readStep_part hs, ih hpath]
      rfl
  rw [steps, if_neg hne, splitOn_textOf, List.mapM_cons, hmap path _ h]
  rfl

end Tierkreis.Controller.LocString
