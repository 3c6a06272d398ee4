import Mathlib.Data.List.Basic

/-!
# Locations of the Python controller

A `Loc` is a string, made from `"-"` by appending steps. It is kept here as what
its `steps` are: whether it starts with the dash, and the steps after it. The
empty string is a location too, the parent of the root.
-/

namespace Tierkreis.Controller

abbrev NodeIndex := Int

inductive StepKind
  | N
  | L
  | M
  deriving DecidableEq, Repr

def StepKind.letter : StepKind → Char
  | N => 'N'
  | L => 'L'
  | M => 'M'

/-- `tuple[Literal["N", "L", "M"], NodeIndex]`. -/
structure Step where
  kind : StepKind
  idx : NodeIndex
  deriving DecidableEq, Repr

structure Loc where
  dash : Bool
  tail : List Step
  deriving DecidableEq, Repr

/-- The `IndexError` of `step_str[0]` at an empty step. -/
inductive LocError
  | indexError
  deriving DecidableEq, Repr

namespace Loc

/-- `Loc()`. -/
def root : Loc := ⟨true, []⟩

/-- `Loc("")`. -/
def empty : Loc := ⟨false, []⟩

def append (loc : Loc) (s : Step) : Loc := { loc with tail := loc.tail ++ [s] }

def N (loc : Loc) (idx : NodeIndex) : Loc := loc.append ⟨.N, idx⟩

def L (loc : Loc) (idx : NodeIndex) : Loc := loc.append ⟨.L, idx⟩

def M (loc : Loc) (idx : NodeIndex) : Loc := loc.append ⟨.M, idx⟩

/-- The steps after the dash, none for the empty string. -/
def steps : Loc → Except LocError (Option (List Step))
  | ⟨true, tail⟩ => .ok (some tail)
  | ⟨false, []⟩ => .ok none
  | ⟨false, _ :: _⟩ => .error .indexError

def parent (loc : Loc) : Except LocError (Option Loc) := do
  match ← loc.steps with
  | none => return none
  | some steps =>
    let before : Loc := ⟨true, steps.dropLast⟩
    match steps.getLast? with
    | none => return some empty
    | some ⟨.L, idx⟩ => return some (if idx = 0 then before else before.L (idx - 1))
    | some ⟨_, _⟩ => return some before

/-! ## Steps -/

theorem append_eq_append {loc loc' : Loc} {a b : Step} (h : loc.append a = loc'.append b) :
    loc = loc' ∧ a = b := by
  obtain ⟨dash, tail⟩ := loc
  obtain ⟨dash', tail'⟩ := loc'
  obtain ⟨rfl, htail⟩ := Loc.mk.inj h
  obtain ⟨rfl, hstep⟩ := List.append_inj' htail rfl
  exact ⟨rfl, (List.cons.inj hstep).1⟩

theorem N_eq_N {loc loc' : Loc} {i j : Int} (h : loc.N i = loc'.N j) : loc = loc' ∧ i = j := by
  obtain ⟨hloc, hstep⟩ := append_eq_append h
  exact ⟨hloc, congrArg Step.idx hstep⟩

theorem M_inj {loc : Loc} {i j : Int} (h : loc.M i = loc.M j) : i = j :=
  congrArg Step.idx (append_eq_append h).2

theorem length_append (loc : Loc) (s : Step) : (loc.append s).tail.length = loc.tail.length + 1 := by
  simp [append]

theorem M_N_inj {loc : Loc} {i j : Int} (h : (loc.M i).N (-1) = (loc.M j).N (-1)) : i = j := by
  have htail := congrArg Loc.tail h
  have hstep : loc.tail ++ [⟨.M, i⟩] = loc.tail ++ [⟨.M, j⟩] := List.append_cancel_right htail
  exact congrArg Step.idx (List.cons.inj (List.append_cancel_left hstep)).1

/-- The nodes of a graph are no inputs of an element of one of its maps. -/
theorem N_ne_input (parent : Loc) (i idx j : Int) : parent.N i ≠ ((parent.N idx).M j).N (-1) := by
  intro h
  have hlen := congrArg (fun l : Loc => l.tail.length) h
  simp only [N, M, length_append] at hlen
  omega

theorem parent_N {parent : Loc} (h : parent.dash = true) (i : Int) :
    (parent.N i).parent = .ok (some parent) := by
  obtain ⟨dash, tail⟩ := parent
  cases h
  simp [Loc.parent, N, append, steps, bind, Except.bind, pure, Except.pure]

end Loc

end Tierkreis.Controller
