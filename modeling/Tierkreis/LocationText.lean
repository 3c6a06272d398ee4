import Tierkreis.Asset
import Tierkreis.Lib.Decimal
import Tierkreis.Location

/-!
# The text of a location

A location is written as its components with dots between them, and read back
component by component. The text comes from the database, where it was written by
the code, and from the routes of the server, where anything may stand.
-/

namespace Tierkreis

open Lib.Decimal

/-- The largest node number of the `portgraph` crate. -/
def maxNodeIndex : Nat := 2 ^ 31 - 2

def maxU32 : Nat := 2 ^ 32 - 1

def maxUsize : Nat := 2 ^ 64 - 1

/-- `NodeIndex::new` of the `portgraph` crate. -/
def nodeIndexNew (n : Nat) : Result NodeIndex :=
  if n ≤ maxNodeIndex then .ok n else .error (.panic s!"invalid node index: {n}")

/-- `str::parse` with its error as a report. -/
def parseNumber (max : Nat) (digits : List Char) : Result Nat :=
  (parseUnsigned max digits).mapError fun e => .miette e.toText

/-- The first byte and the rest; neither is there when the first character takes more. -/
def splitTag : List Char → Option (List Char) × Option (List Char)
  | [] => (none, none)
  | c :: cs => if c.utf8Size = 1 then (some [c], some cs) else (none, none)

def debugText : Option (List Char) → String
  | some cs => s!"Some({(String.ofList cs).quote})"
  | none => "None"

namespace LocationComponent

def new (step : List Char) : Result LocationComponent :=
  match splitTag step with
  | (some ['N'], some idx) => do
    let n ← parseNumber maxUsize idx
    let n ← nodeIndexNew n
    pure (.node n)
  | (some ['L'], some idx) => do
    let i ← parseNumber maxU32 idx
    pure (.loopIndex i)
  | (some ['M'], some idx) => do
    let i ← parseNumber maxU32 idx
    pure (.mapIndex i)
  | (tag, index) => .error (.miette (s!"Could not parse Loc: {String.ofList step} with tag " ++
      s!"{debugText tag} and index {debugText index}"))

/-- The range of the types of its numbers. -/
def InRange : LocationComponent → Prop
  | node n => n ≤ maxNodeIndex
  | loopIndex i => i ≤ maxU32
  | mapIndex i => i ≤ maxU32

theorem toList_toText (c : LocationComponent) :
    c.toText.toList = match c with
      | .node n => 'N' :: n.repr.toList
      | .loopIndex i => 'L' :: i.repr.toList
      | .mapIndex i => 'M' :: i.repr.toList := by
  cases c <;> simp [toText, toString]

theorem toText_inj {c c' : LocationComponent} (h : c.toText.toList = c'.toText.toList) :
    c = c' := by
  rw [toList_toText, toList_toText] at h
  cases c with
  | node n =>
    cases c' with
    | node n' => rw [repr_inj (String.toList_inj.1 (List.cons.inj h).2)]
    | _ => simp at h
  | loopIndex i =>
    cases c' with
    | loopIndex i' => rw [repr_inj (String.toList_inj.1 (List.cons.inj h).2)]
    | _ => simp at h
  | mapIndex i =>
    cases c' with
    | mapIndex i' => rw [repr_inj (String.toList_inj.1 (List.cons.inj h).2)]
    | _ => simp at h

theorem splitTag_ascii {c : Char} {cs : List Char} (h : c.utf8Size = 1) :
    splitTag (c :: cs) = (some [c], some cs) := by
  rw [splitTag, if_pos h]

theorem parseNumber_repr {max n : Nat} (h : n ≤ max) : parseNumber max n.repr.toList = .ok n := by
  rw [parseNumber, parseUnsigned_repr h]
  rfl

theorem new_toText {c : LocationComponent} (h : c.InRange) : new c.toText.toList = .ok c := by
  rw [toList_toText]
  cases c with
  | node n =>
    have hn : n ≤ maxUsize := Nat.le_trans h (by decide)
    simp only [new, splitTag_ascii (c := 'N') rfl, parseNumber_repr hn]
    simp only [bind, Except.bind, nodeIndexNew, if_pos (show n ≤ maxNodeIndex from h), pure,
      Except.pure]
  | loopIndex i =>
    simp only [new, splitTag_ascii (c := 'L') rfl, parseNumber_repr (show i ≤ maxU32 from h)]
    rfl
  | mapIndex i =>
    simp only [new, splitTag_ascii (c := 'M') rfl, parseNumber_repr (show i ≤ maxU32 from h)]
    rfl

theorem dot_notMem_toText (c : LocationComponent) : '.' ∉ c.toText.toList := by
  have hdigits : ∀ n : Nat, '.' ∉ Nat.toDigits 10 n := by
    intro n h
    exact absurd (Nat.isDigit_of_mem_toDigits (by decide) (by decide) h) (by decide)
  rw [toList_toText]
  cases c <;> simp [hdigits]

theorem toText_ne_nil (c : LocationComponent) : c.toText.toList ≠ [] := by
  rw [toList_toText]
  cases c <;> simp

/-- A node number that the text can hold and a graph cannot. -/
def Overflows (step : List Char) : Prop :=
  ∃ idx n, step = 'N' :: idx ∧ parseUnsigned maxUsize idx = .ok n ∧ maxNodeIndex < n

theorem new_panic_iff {step : List Char} :
    (∃ text, new step = .error (.panic text)) ↔ Overflows step := by
  constructor
  · rintro ⟨text, h⟩
    unfold new at h
    split at h
    · rename_i idx he
      cases hn : parseUnsigned maxUsize idx with
      | error e => simp [parseNumber, hn, Except.mapError, bind, Except.bind, Failure.miette] at h
      | ok n =>
        simp only [parseNumber, hn, Except.mapError, bind, Except.bind, nodeIndexNew] at h
        split at h
        · rename_i hm
          split at hm
          · cases hm
          · rename_i hlt
            refine ⟨idx, n, ?_, hn, Nat.lt_of_not_le hlt⟩
            cases step with
            | nil => simp [splitTag] at he
            | cons c cs =>
              simp only [splitTag] at he
              split at he
              · cases he
                rfl
              · simp at he
        · cases h
    · rename_i idx he
      cases hn : parseUnsigned maxU32 idx with
      | error e => simp [parseNumber, hn, Except.mapError, bind, Except.bind, Failure.miette] at h
      | ok n => simp [parseNumber, hn, Except.mapError, bind, Except.bind, pure, Except.pure] at h
    · rename_i idx he
      cases hn : parseUnsigned maxU32 idx with
      | error e => simp [parseNumber, hn, Except.mapError, bind, Except.bind, Failure.miette] at h
      | ok n => simp [parseNumber, hn, Except.mapError, bind, Except.bind, pure, Except.pure] at h
    · simp [Failure.miette] at h
  · rintro ⟨idx, n, rfl, hn, hlt⟩
    refine ⟨s!"invalid node index: {n}", ?_⟩
    simp only [new, splitTag_ascii (c := 'N') rfl, parseNumber, hn, Except.mapError, bind,
      Except.bind, nodeIndexNew, if_neg (Nat.not_le.2 hlt)]

end LocationComponent

namespace Location

/-- The parts between dots, less an empty last one. -/
def splitTerminator (text : List Char) : List (List Char) :=
  let parts := text.splitOn '.'
  if parts.getLast? = some [] then parts.dropLast else parts

def new (text : String) : Result Location :=
  (splitTerminator text.toList).mapM LocationComponent.new

/-- The location in a path of the server, where the root may be written as a dash. -/
def parseLocation (text : String) : Result Location :=
  if text = "" ∨ text = "-" then .ok root else new text

def InRange (loc : Location) : Prop := ∀ c ∈ loc, c.InRange

theorem splitTerminator_toText (loc : Location) :
    splitTerminator loc.toText.toList = loc.map fun c => c.toText.toList := by
  have htext : loc.toText.toList = ['.'].intercalate (loc.map fun c => c.toText.toList) := by
    rw [toText, String.toList_intercalate, List.map_map]
    rfl
  by_cases hnil : loc = []
  · subst hnil
    rfl
  have hparts : loc.toText.toList.splitOn '.' = loc.map fun c => c.toText.toList := by
    rw [htext]
    refine List.splitOn_intercalate '.' ?_ (by simpa using hnil)
    intro part hp
    obtain ⟨c, -, rfl⟩ := List.mem_map.1 hp
    exact c.dot_notMem_toText
  have hlast : (loc.map fun c => c.toText.toList).getLast? ≠ some [] := by
    intro h
    obtain ⟨c, -, hc⟩ := List.mem_map.1 (List.mem_of_getLast? h)
    exact c.toText_ne_nil hc
  rw [splitTerminator, hparts, if_neg hlast]

/-- Locations differ in their texts. -/
theorem toText_inj {loc loc' : Location} (h : loc.toText = loc'.toText) : loc = loc' := by
  have hparts := splitTerminator_toText loc
  rw [h, splitTerminator_toText] at hparts
  exact (List.map_injective_iff.2 fun c c' hc => LocationComponent.toText_inj hc) hparts.symm

theorem new_toText {loc : Location} (h : loc.InRange) : new loc.toText = .ok loc := by
  rw [new, splitTerminator_toText]
  refine mapM_of_forall₂ ?_
  rw [List.forall₂_map_left_iff, List.forall₂_same]
  exact fun c hc => LocationComponent.new_toText (h c hc)

theorem toText_injective {loc loc' : Location} (h : loc.InRange) (h' : loc'.InRange)
    (he : loc.toText = loc'.toText) : loc = loc' := by
  have hl := new_toText h
  rw [he, new_toText h'] at hl
  exact (Except.ok.inj hl).symm

/-- The first part that is no component is a node number that is too large. -/
def OverflowsAt (text : String) : Prop :=
  ∃ before step rest, splitTerminator text.toList = before ++ step :: rest ∧
    (∀ part ∈ before, ∃ c, LocationComponent.new part = .ok c) ∧ LocationComponent.Overflows step

theorem mapM_panic_iff {parts : List (List Char)} :
    (∃ text, parts.mapM LocationComponent.new = .error (.panic text)) ↔
      ∃ before step rest, parts = before ++ step :: rest ∧
        (∀ part ∈ before, ∃ c, LocationComponent.new part = .ok c) ∧
        LocationComponent.Overflows step := by
  induction parts with
  | nil =>
    constructor
    · rintro ⟨text, h⟩
      cases h
    · rintro ⟨before, step, rest, h, -⟩
      simp at h
  | cons part parts ih =>
    rw [List.mapM_cons]
    cases hp : LocationComponent.new part with
    | error e =>
      constructor
      · rintro ⟨text, h⟩
        cases h
        exact ⟨[], part, parts, rfl, by simp, LocationComponent.new_panic_iff.1 ⟨text, hp⟩⟩
      · rintro ⟨before, step, rest, he, hok, hs⟩
        cases before with
        | nil =>
          cases he
          obtain ⟨text, ht⟩ := LocationComponent.new_panic_iff.2 hs
          cases hp.symm.trans ht
          exact ⟨text, rfl⟩
        | cons q before =>
          cases he
          obtain ⟨c, hc⟩ := hok part (.head _)
          cases hp.symm.trans hc
    | ok c =>
      have hstep : (∃ text, (do
          let cs ← parts.mapM LocationComponent.new
          pure (c :: cs) : Result Location) = .error (.panic text)) ↔
          ∃ text, parts.mapM LocationComponent.new = .error (.panic text) := by
        cases parts.mapM LocationComponent.new with
        | error e => exact Iff.rfl
        | ok cs =>
          constructor
          · rintro ⟨text, h⟩
            cases h
          · rintro ⟨text, h⟩
            cases h
      refine Iff.trans hstep (ih.trans ?_)
      constructor
      · rintro ⟨before, step, rest, rfl, hok, hs⟩
        refine ⟨part :: before, step, rest, rfl, ?_, hs⟩
        intro q hq
        rcases List.mem_cons.1 hq with rfl | hq
        · exact ⟨c, hp⟩
        · exact hok q hq
      · rintro ⟨before, step, rest, he, hok, hs⟩
        cases before with
        | nil =>
          cases he
          obtain ⟨text, ht⟩ := LocationComponent.new_panic_iff.2 hs
          cases hp.symm.trans ht
        | cons q before =>
          cases he
          exact ⟨before, step, rest, rfl, fun q hq => hok q (.tail _ hq), hs⟩

theorem new_panic_iff {text : String} :
    (∃ message, new text = .error (.panic message)) ↔ OverflowsAt text := mapM_panic_iff

/-- A path of the server panics as its text does. -/
theorem parseLocation_panic_iff {text : String} :
    (∃ message, parseLocation text = .error (.panic message)) ↔ OverflowsAt text := by
  unfold parseLocation
  split
  · rename_i h
    rw [← new_panic_iff]
    rcases h with rfl | rfl
    · constructor
      · rintro ⟨message, h⟩
        cases h
      · rintro ⟨message, h⟩
        cases h
    · constructor
      · rintro ⟨message, h⟩
        cases h
      · rintro ⟨message, h⟩
        cases h
  · exact new_panic_iff

/-- Locations are read back and told apart by their texts; reading a text does not panic
as long as no node number in it is too large for a graph. -/
theorem location_codec_iff (text : String) :
    ((∀ loc : Location, loc.InRange → new loc.toText = .ok loc) ∧
      (∀ loc loc' : Location, loc.InRange → loc'.InRange → loc.toText = loc'.toText → loc = loc') ∧
      ∀ message, new text ≠ .error (.panic message)) ↔ ¬ OverflowsAt text := by
  rw [← new_panic_iff]
  constructor
  · rintro ⟨-, -, h⟩ ⟨message, hm⟩
    exact h message hm
  · intro h
    exact ⟨fun _ => new_toText, fun _ _ => toText_injective, fun message hm => h ⟨message, hm⟩⟩

/-- A node number just above the largest. -/
theorem location_new_panics :
    ∃ message, new "N2147483647" = .error (.panic message) :=
  new_panic_iff.2 ⟨[], "N2147483647".toList, [], by decide, by simp, "2147483647".toList,
    2147483647, by decide, by decide, by decide⟩

end Location

end Tierkreis
