import Mathlib.Data.List.Infix
import Mathlib.Data.List.Basic

/-!
# Locations

A location is a path of components from the root graph into nested graphs: a
node, an iteration of a `Loop` node or an element of a `Map` node. The empty
path is the root graph itself.
-/

namespace Tierkreis

abbrev NodeIndex := Nat

inductive LocationComponent where
  | node (node : NodeIndex)
  | loopIndex (index : Nat)
  | mapIndex (index : Nat)
  deriving DecidableEq, Repr

def LocationComponent.toText : LocationComponent → String
  | node n => s!"N{n}"
  | loopIndex i => s!"L{i}"
  | mapIndex i => s!"M{i}"

abbrev Location := List LocationComponent

instance : LawfulBEq Location := List.instLawfulBEq

namespace Location

def root : Location := []

def toText (loc : Location) : String := ".".intercalate (loc.map LocationComponent.toText)

def withNode (loc : Location) (node : NodeIndex) : Location := loc ++ [.node node]

def withLoopIndex (loc : Location) (index : Nat) : Location := loc ++ [.loopIndex index]

def withMapIndex (loc : Location) (index : Nat) : Location := loc ++ [.mapIndex index]

def isRoot (loc : Location) : Bool := loc.isEmpty

def fromNodeIndexIter (nodes : List NodeIndex) : Location := nodes.map .node

/-- The prefixes scanned while walking `components` from `pre`. -/
def ancestorsFrom (pre : Location) : List LocationComponent → List Location
  | [] => []
  | c :: cs => pre :: ancestorsFrom (pre ++ [c]) cs

/-- The proper prefixes of a location, shortest first. -/
def nodeAncestors (loc : Location) : List Location := ancestorsFrom root loc

theorem mem_ancestorsFrom {loc : List LocationComponent} :
    ∀ {pre a : Location}, a ∈ ancestorsFrom pre loc ↔
      ∃ b, a = pre ++ b ∧ b <+: loc ∧ b ≠ loc := by
  induction loc with
  | nil =>
    intro pre a
    simp only [ancestorsFrom, List.not_mem_nil, List.prefix_nil, false_iff]
    rintro ⟨b, -, h, hn⟩
    exact hn h
  | cons c cs ih =>
    intro pre a
    simp only [ancestorsFrom, List.mem_cons, ih]
    constructor
    · rintro (rfl | ⟨b, rfl, hb, hn⟩)
      · exact ⟨[], by simp, List.nil_prefix, by simp⟩
      · exact ⟨c :: b, by simp, List.cons_prefix_cons.2 ⟨rfl, hb⟩, by simpa using hn⟩
    · rintro ⟨b, rfl, hb, hn⟩
      cases b with
      | nil => exact .inl (by simp)
      | cons d b =>
        obtain ⟨rfl, hpre⟩ := List.cons_prefix_cons.1 hb
        exact .inr ⟨b, by simp, hpre, fun e => hn (by rw [e])⟩

theorem mem_nodeAncestors {loc a : Location} : a ∈ nodeAncestors loc ↔ a <+: loc ∧ a ≠ loc := by
  simp [nodeAncestors, mem_ancestorsFrom, root]

/-- A location or one of its ancestors satisfies `p` exactly when some prefix does. -/
theorem self_or_ancestor {loc : Location} {p : Location → Prop} :
    (p loc ∨ ∃ a ∈ nodeAncestors loc, p a) ↔ ∃ a, a <+: loc ∧ p a := by
  constructor
  · rintro (h | ⟨a, ha, h⟩)
    · exact ⟨loc, List.prefix_refl _, h⟩
    · exact ⟨a, (mem_nodeAncestors.1 ha).1, h⟩
  · rintro ⟨a, ha, h⟩
    by_cases e : a = loc
    · exact .inl (e ▸ h)
    · exact .inr ⟨a, mem_nodeAncestors.2 ⟨ha, e⟩, h⟩

@[simp] theorem withNode_inj {p q : Location} {m n : NodeIndex} :
    p.withNode m = q.withNode n ↔ p = q ∧ m = n := by
  simp [withNode]

@[simp] theorem withLoopIndex_inj {p q : Location} {i j : Nat} :
    p.withLoopIndex i = q.withLoopIndex j ↔ p = q ∧ i = j := by
  simp [withLoopIndex]

@[simp] theorem withMapIndex_inj {p q : Location} {i j : Nat} :
    p.withMapIndex i = q.withMapIndex j ↔ p = q ∧ i = j := by
  simp [withMapIndex]

@[simp] theorem withNode_ne_root (p : Location) (n : NodeIndex) : p.withNode n ≠ [] := by
  simp [withNode]

@[simp] theorem length_withNode (p : Location) (n : NodeIndex) :
    (p.withNode n).length = p.length + 1 := by simp [withNode]

@[simp] theorem length_withLoopIndex (p : Location) (i : Nat) :
    (p.withLoopIndex i).length = p.length + 1 := by simp [withLoopIndex]

@[simp] theorem length_withMapIndex (p : Location) (i : Nat) :
    (p.withMapIndex i).length = p.length + 1 := by simp [withMapIndex]

@[simp] theorem withNode_ne_withLoopIndex (p q : Location) (n i : Nat) :
    p.withNode n ≠ q.withLoopIndex i := by
  intro h
  have := congrArg List.getLast? h
  simp [withNode, withLoopIndex] at this

@[simp] theorem withNode_ne_withMapIndex (p q : Location) (n i : Nat) :
    p.withNode n ≠ q.withMapIndex i := by
  intro h
  have := congrArg List.getLast? h
  simp [withNode, withMapIndex] at this

@[simp] theorem withLoopIndex_ne_withMapIndex (p q : Location) (i j : Nat) :
    p.withLoopIndex i ≠ q.withMapIndex j := by
  intro h
  have := congrArg List.getLast? h
  simp [withLoopIndex, withMapIndex] at this

theorem prefix_withNode_iff {a loc : Location} {n : NodeIndex} :
    a <+: loc.withNode n ↔ a = loc.withNode n ∨ a <+: loc := List.prefix_concat_iff

theorem prefix_withLoopIndex_iff {a loc : Location} {i : Nat} :
    a <+: loc.withLoopIndex i ↔ a = loc.withLoopIndex i ∨ a <+: loc := List.prefix_concat_iff

theorem prefix_withMapIndex_iff {a loc : Location} {i : Nat} :
    a <+: loc.withMapIndex i ↔ a = loc.withMapIndex i ∨ a <+: loc := List.prefix_concat_iff

end Location

end Tierkreis
