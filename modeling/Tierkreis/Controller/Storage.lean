import Tierkreis.Asset
import Tierkreis.Controller.GraphData

/-!
# The storage of the Python controller

What a `ControllerStorage` holds of each location, behind the paths: the outputs
by port, the node definition that marks a node as started, and the mark of a
finished node.
-/

namespace Tierkreis.Controller

open Lib

/-- What the controller raises. -/
inductive PyError
  | entryNotFound
  | stopIteration
  | valueError
  | indexError
  /-- `TierkreisError`. -/
  | tierkreis (msg : String)
  /-- `TierkreisError`, for a node that should be the output of its graph. -/
  | notOutput (idx : Int)
  /-- What the decoder of a value raises. -/
  | decode (msg : String)
  deriving DecidableEq, Repr

structure Storage (V : Type) where
  outputs : HashMap (Loc × PortID) Bytes := ∅
  nodeDefs : HashMap Loc (NodeDef V) := ∅
  finished : Finset Loc := ∅

/-- A computation of the controller. What was written before an error is not kept. -/
abbrev Ctl (V : Type) := StateT (Storage V) (Except PyError)

namespace Storage

variable {V : Type}

def writeNodeDef (s : Storage V) (loc : Loc) (node : NodeDef V) : Storage V :=
  { s with nodeDefs := s.nodeDefs.insert loc node }

def markNodeFinished (s : Storage V) (loc : Loc) : Storage V :=
  { s with finished := insert loc s.finished }

def isNodeFinished (s : Storage V) (loc : Loc) : Bool := loc ∈ s.finished

def readOutput (s : Storage V) (loc : Loc) (port : PortID) : Except PyError Bytes :=
  match s.outputs.get? (loc, port) with
  | some bs => .ok bs
  | none => .error .entryNotFound

/-- A missing entry is left out, with a warning. -/
def linkOutputs (s : Storage V) (newLoc : Loc) (newPort : PortID) (oldLoc : Loc)
    (oldPort : PortID) : Storage V :=
  match s.outputs.get? (oldLoc, oldPort) with
  | some bs => { s with outputs := s.outputs.insert (newLoc, newPort) bs }
  | none => s

/-- The ports that have an output, sorted. -/
def readOutputPorts (s : Storage V) (loc : Loc) : List PortID :=
  ((s.outputs.toList.filter fun e => e.1.1 = loc).map fun e => e.1.2).insertionSort (· ≤ ·)

/-- The links to one location, one after the other. -/
def pipe (s : Storage V) (loc : Loc) (l : List (PortID × Loc × PortID)) : Storage V :=
  l.foldl (fun s e => s.linkOutputs loc e.1 e.2.1 e.2.2) s

/-- `_pipe_inputs_to_output_location`. -/
def pipeInputs (s : Storage V) (outputLoc : Loc) (inputs : HashMap PortID (Loc × PortID)) :
    Storage V :=
  s.pipe outputLoc inputs.toList

/-! ## Links -/

section

variable (s : Storage V)

theorem get?_linkOutputs (newLoc : Loc) (newPort : PortID) (oldLoc : Loc) (oldPort : PortID)
    (k : Loc × PortID) :
    (s.linkOutputs newLoc newPort oldLoc oldPort).outputs.get? k =
      if k = (newLoc, newPort) then (s.outputs.get? (oldLoc, oldPort)).or (s.outputs.get? k)
      else s.outputs.get? k := by
  unfold linkOutputs
  cases h : s.outputs.get? (oldLoc, oldPort) with
  | none => simp
  | some bs => rw [HashMap.get?_insert]; simp

@[simp] theorem nodeDefs_linkOutputs (newLoc : Loc) (newPort : PortID) (oldLoc : Loc)
    (oldPort : PortID) :
    (s.linkOutputs newLoc newPort oldLoc oldPort).nodeDefs = s.nodeDefs := by
  unfold linkOutputs
  split
  · rfl
  · rfl

@[simp] theorem finished_linkOutputs (newLoc : Loc) (newPort : PortID) (oldLoc : Loc)
    (oldPort : PortID) :
    (s.linkOutputs newLoc newPort oldLoc oldPort).finished = s.finished := by
  unfold linkOutputs
  split
  · rfl
  · rfl

@[simp] theorem outputs_writeNodeDef (loc : Loc) (node : NodeDef V) :
    (s.writeNodeDef loc node).outputs = s.outputs := rfl

@[simp] theorem finished_writeNodeDef (loc : Loc) (node : NodeDef V) :
    (s.writeNodeDef loc node).finished = s.finished := rfl

@[simp] theorem outputs_markNodeFinished (loc : Loc) :
    (s.markNodeFinished loc).outputs = s.outputs := rfl

@[simp] theorem nodeDefs_markNodeFinished (loc : Loc) :
    (s.markNodeFinished loc).nodeDefs = s.nodeDefs := rfl

theorem mem_readOutputPorts {loc : Loc} {p : PortID} :
    p ∈ s.readOutputPorts loc ↔ (s.outputs.get? (loc, p)).isSome := by
  rw [readOutputPorts, List.mem_insertionSort, List.mem_map, Option.isSome_iff_exists]
  constructor
  · rintro ⟨e, he, rfl⟩
    obtain ⟨he, hloc⟩ := List.mem_filter.1 he
    exact ⟨e.2, HashMap.get?_eq_some_iff.2 (of_decide_eq_true hloc ▸ he)⟩
  · rintro ⟨bs, hbs⟩
    exact ⟨((loc, p), bs), List.mem_filter.2 ⟨HashMap.get?_eq_some_iff.1 hbs, by simp⟩, rfl⟩

theorem nodup_readOutputPorts (loc : Loc) : (s.readOutputPorts loc).Nodup := by
  rw [readOutputPorts, (List.perm_insertionSort _ _).nodup_iff]
  refine List.Nodup.map_on ?_ ((List.Nodup.of_map Prod.fst s.outputs.nodup_toList).filter _)
  intro a ha b hb hab
  obtain ⟨ha, hla⟩ := List.mem_filter.1 ha
  obtain ⟨hb, hlb⟩ := List.mem_filter.1 hb
  have hkey : a.1 = b.1 :=
    Prod.ext ((of_decide_eq_true hla).trans (of_decide_eq_true hlb).symm) hab
  have hva := HashMap.get?_eq_some_iff.2 ha
  rw [hkey, HashMap.get?_eq_some_iff.2 hb] at hva
  exact Prod.ext hkey (Option.some.inj hva).symm

end

section

variable {loc : Loc} {l : List (PortID × Loc × PortID)}

@[simp] theorem nodeDefs_pipe (s : Storage V) (loc : Loc) (l : List (PortID × Loc × PortID)) :
    (s.pipe loc l).nodeDefs = s.nodeDefs := by
  unfold pipe
  induction l generalizing s with
  | nil => rfl
  | cons e l ih => rw [List.foldl_cons, ih, nodeDefs_linkOutputs]

@[simp] theorem finished_pipe (s : Storage V) (loc : Loc) (l : List (PortID × Loc × PortID)) :
    (s.pipe loc l).finished = s.finished := by
  unfold pipe
  induction l generalizing s with
  | nil => rfl
  | cons e l ih => rw [List.foldl_cons, ih, finished_linkOutputs]

@[simp] theorem nodeDefs_pipeInputs (s : Storage V) (loc : Loc)
    (inputs : HashMap PortID (Loc × PortID)) : (s.pipeInputs loc inputs).nodeDefs = s.nodeDefs :=
  s.nodeDefs_pipe _ _

@[simp] theorem finished_pipeInputs (s : Storage V) (loc : Loc)
    (inputs : HashMap PortID (Loc × PortID)) : (s.pipeInputs loc inputs).finished = s.finished :=
  s.finished_pipe _ _

theorem linkPorts_eq (s : Storage V) (loc newLoc : Loc) (ports : List PortID) :
    ports.foldl (fun s k => s.linkOutputs loc k newLoc k) s =
      s.pipe loc (ports.map fun k => (k, newLoc, k)) := by
  rw [pipe, List.foldl_map]

/-- The values that links find, by the port that they are linked to: a later one takes the place
of an earlier. -/
def found (s : Storage V) (l : List (PortID × Loc × PortID)) : HashMap PortID Bytes :=
  .ofList (l.filterMap fun e => (s.outputs.get? e.2).map fun bs => (e.1, bs))

theorem found_cons (s : Storage V) (e : PortID × Loc × PortID) (l : List (PortID × Loc × PortID))
    (p : PortID) : (s.found (e :: l)).get? p =
      ((s.found l).get? p).or (if p = e.1 then s.outputs.get? e.2 else none) := by
  unfold found
  cases hv : s.outputs.get? e.2 with
  | none => rw [List.filterMap_cons_none (by rw [hv, Option.map_none]), ite_self, Option.or_none]
  | some bs => rw [List.filterMap_cons_some (by rw [hv, Option.map_some]), HashMap.get?_ofList_cons]

/-- Links from other locations write what they find, and nothing else. -/
theorem get?_pipe : ∀ {s : Storage V}, (∀ e ∈ l, e.2.1 ≠ loc) →
    (∀ k : Loc × PortID, k.1 ≠ loc → (s.pipe loc l).outputs.get? k = s.outputs.get? k) ∧
      ∀ p, (s.pipe loc l).outputs.get? (loc, p) =
        ((s.found l).get? p).or (s.outputs.get? (loc, p)) := by
  induction l with
  | nil => exact fun _ => ⟨fun _ _ => rfl, fun _ => rfl⟩
  | cons e l ih =>
    intro s h
    have hother : ∀ k : Loc × PortID, k.1 ≠ loc →
        (s.linkOutputs loc e.1 e.2.1 e.2.2).outputs.get? k = s.outputs.get? k := by
      intro k hk
      rw [get?_linkOutputs, if_neg fun heq => hk (congrArg Prod.fst heq)]
    obtain ⟨hout, hin⟩ := @ih (s.linkOutputs loc e.1 e.2.1 e.2.2) fun e' he' => h e' (.tail _ he')
    have hfound : (s.linkOutputs loc e.1 e.2.1 e.2.2).found l = s.found l := by
      refine congrArg HashMap.ofList (List.filterMap_congr fun e' he' => ?_)
      rw [hother _ (h e' (.tail _ he'))]
    refine ⟨fun k hk => (hout k hk).trans (hother k hk), fun p => (hin p).trans ?_⟩
    rw [hfound, found_cons, Option.or_assoc, get?_linkOutputs]
    by_cases hp : p = e.1
    · rw [if_pos hp, if_pos (congrArg (Prod.mk loc) hp)]
    · rw [if_neg hp, if_neg fun heq => hp (congrArg Prod.snd heq), Option.none_or]

theorem found_of_notMem (s : Storage V) {p : PortID} (hp : p ∉ l.map Prod.fst) :
    (s.found l).get? p = none := by
  induction l with
  | nil => rfl
  | cons e l ih =>
    rw [List.map_cons, List.mem_cons, not_or] at hp
    rw [found_cons, ih hp.2, if_neg hp.1, Option.or_none]

/-- Of links to distinct ports each one finds what its source has. -/
theorem found_of_mem (s : Storage V) (hnodup : (l.map Prod.fst).Nodup) {e : PortID × Loc × PortID}
    (he : e ∈ l) : (s.found l).get? e.1 = s.outputs.get? e.2 := by
  induction l with
  | nil => cases he
  | cons e' l ih =>
    rw [List.map_cons, List.nodup_cons] at hnodup
    rw [found_cons]
    rcases List.mem_cons.1 he with rfl | he
    · rw [s.found_of_notMem hnodup.1, if_pos rfl, Option.none_or]
    · have hne : e.1 ≠ e'.1 := fun heq => hnodup.1 (heq ▸ List.mem_map_of_mem he)
      rw [ih hnodup.2 he, if_neg hne, Option.or_none]

theorem get?_pipeInputs (s : Storage V) {inputs : HashMap PortID (Loc × PortID)}
    (h : ∀ e ∈ inputs.toList, e.2.1 ≠ loc) :
    (∀ p src, inputs.get? p = some src → (s.pipeInputs loc inputs).outputs.get? (loc, p) =
      (s.outputs.get? src).or (s.outputs.get? (loc, p))) ∧
      (∀ k : Loc × PortID, k.1 ≠ loc →
        (s.pipeInputs loc inputs).outputs.get? k = s.outputs.get? k) ∧
      (s.pipeInputs loc inputs).nodeDefs = s.nodeDefs ∧
      (s.pipeInputs loc inputs).finished = s.finished := by
  obtain ⟨hout, hin⟩ := get?_pipe (s := s) h
  refine ⟨fun p src hp => ?_, hout, nodeDefs_pipe _ _ _, finished_pipe _ _ _⟩
  have hmem := HashMap.get?_eq_some_iff.1 hp
  exact (hin p).trans (congrArg (Option.or · _) (s.found_of_mem inputs.nodup_toList hmem))

end

end Storage

end Tierkreis.Controller
