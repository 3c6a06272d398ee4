import Mathlib.Data.List.Nodup
import Mathlib.Logic.Relation

/-!
# Depth-first orders

A depth-first visit lists a node after everything that it needs. The nodes
carry an equality test of their own, which has to tell apart only the nodes of
the universe that is searched.
-/

namespace Lib

namespace DepthFirst

variable {α : Type}

/-- Visit nodes one after the other. A visit returns what it lists and what has been visited then,
or nothing when it goes too deep. -/
def visitAll (visit : α → List α → Option (List α × List α)) :
    List α → List α → Option (List α × List α)
  | [], visited => some ([], visited)
  | m :: ms, visited => do
    let (out, visited) ← visit m visited
    let (outs, visited) ← visitAll visit ms visited
    some (out ++ outs, visited)

/-- A node after the nodes that it needs, as far as they have not been visited. -/
def visit [BEq α] (needs : α → List α) : Nat → α → List α → Option (List α × List α)
  | 0, _, _ => none
  | fuel + 1, m, visited =>
    if visited.contains m then some ([], visited)
    else do
      let (out, visited) ← visitAll (visit needs fuel) (needs m) (m :: visited)
      some (out ++ [m], visited)

/-- `b` is needed by `a`. -/
def Needs (needs : α → List α) (a b : α) : Prop := b ∈ needs a

/-- Each node of a list comes after the nodes that it needs, if those are not in `visited`. -/
def Ordered (needs : α → List α) (visited out : List α) : Prop :=
  ∀ a x b, out = a ++ x :: b → ∀ d ∈ needs x, d ∈ visited ∨ d ∈ a

/-- What a visit lists: nodes that are new, each once and in order. -/
structure Listed (needs : α → List α) (visited out visited' : List α) : Prop where
  mem : ∀ x, x ∈ visited' ↔ x ∈ visited ∨ x ∈ out
  fresh : ∀ x ∈ out, x ∉ visited
  nodup : out.Nodup
  ordered : Ordered needs visited out

variable {needs : α → List α} {visited out outs visited' visited'' univ : List α} {m : α}

theorem Ordered.append (h : Ordered needs visited out) (h' : Ordered needs visited' outs)
    (hmem : ∀ x, x ∈ visited' ↔ x ∈ visited ∨ x ∈ out) : Ordered needs visited (out ++ outs) := by
  intro a x b he d hd
  rcases List.append_eq_append_iff.1 he with ⟨a', ha, hb⟩ | ⟨c', hc, hb⟩
  · rcases h' a' x b hb d hd with hv | hin
    · rcases (hmem d).1 hv with hv | hout
      · exact .inl hv
      · exact .inr (ha ▸ List.mem_append_left _ hout)
    · exact .inr (ha ▸ List.mem_append_right _ hin)
  · cases c' with
    | nil =>
      rw [List.append_nil] at hc
      rw [List.nil_append] at hb
      rcases h' [] x b hb.symm d hd with hv | hin
      · rcases (hmem d).1 hv with hv | hout
        · exact .inl hv
        · exact .inr (hc ▸ hout)
      · cases hin
    | cons y c' =>
      rw [List.cons_append, List.cons.injEq] at hb
      obtain ⟨rfl, -⟩ := hb
      exact h a x c' hc d hd

theorem Listed.nil : Listed needs visited [] visited where
  mem := fun x => ⟨.inl, fun h => h.resolve_right (List.not_mem_nil (a := x))⟩
  fresh := fun x h => absurd h (List.not_mem_nil (a := x))
  nodup := List.nodup_nil
  ordered := fun a x b he => by simp at he

theorem Listed.append (h : Listed needs visited out visited')
    (h' : Listed needs visited' outs visited'') :
    Listed needs visited (out ++ outs) visited'' where
  mem := fun x => by rw [h'.mem, h.mem, List.mem_append, or_assoc]
  fresh := fun x hx => by
    rcases List.mem_append.1 hx with hx | hx
    · exact h.fresh x hx
    · exact fun hv => h'.fresh x hx ((h.mem x).2 (.inl hv))
  nodup := by
    refine List.nodup_append.2 ⟨h.nodup, h'.nodup, fun a ha b hb hab => ?_⟩
    exact h'.fresh b hb ((h.mem b).2 (.inr (hab ▸ ha)))
  ordered := h.ordered.append h'.ordered h.mem

theorem Ordered.weaken (h : Ordered needs (m :: visited) out) (hout : ∀ x ∈ out, m ∉ needs x) :
    Ordered needs visited out := by
  intro a x b he d hd
  have hx : x ∈ out := he ▸ List.mem_append_right _ List.mem_cons_self
  rcases h a x b he d hd with hv | hin
  · rcases List.mem_cons.1 hv with rfl | hv
    · exact absurd hd (hout x hx)
    · exact .inl hv
  · exact .inr hin

theorem Ordered.singleton (h : ∀ d ∈ needs m, d ∈ visited) : Ordered needs visited [m] := by
  intro a x b he d hd
  cases a with
  | nil =>
    rw [List.nil_append, List.cons.injEq] at he
    exact .inl (h d (he.1 ▸ hd))
  | cons y a => simp at he

/-- A node comes last that none of those before it needs. -/
theorem Listed.snoc (h : Listed needs (m :: visited) out visited') (hm : m ∉ visited)
    (hneeds : ∀ d ∈ needs m, d ∈ visited') (hself : m ∉ needs m)
    (hout : ∀ x ∈ out, m ∉ needs x) : Listed needs visited (out ++ [m]) visited' where
  mem := fun x => by
    rw [h.mem, List.mem_cons, List.mem_append, List.mem_singleton]
    tauto
  fresh := fun x hx => by
    rcases List.mem_append.1 hx with hx | hx
    · exact fun hv => h.fresh x hx (List.mem_cons_of_mem _ hv)
    · exact List.mem_singleton.1 hx ▸ hm
  nodup := by
    refine List.nodup_append.2 ⟨h.nodup, List.nodup_singleton m, fun a ha b hb hab => ?_⟩
    rw [List.mem_singleton.1 hb] at hab
    exact h.fresh a ha (hab ▸ List.mem_cons_self)
  ordered := by
    have hlast : Ordered needs (visited ++ out) [m] := by
      refine Ordered.singleton fun d hd => ?_
      have hd' := (h.mem d).1 (hneeds d hd)
      have hne : d ≠ m := fun he => hself (he ▸ hd)
      rw [List.mem_cons, or_iff_right hne] at hd'
      exact List.mem_append.2 hd'
    exact (h.ordered.weaken hout).append hlast fun x => List.mem_append

/-! ## The visits of a universe -/

section

variable [BEq α]

/-- A universe of nodes that need each other alone, and that the equality test tells apart. -/
structure Closed (needs : α → List α) (univ : List α) : Prop where
  needs : ∀ a ∈ univ, ∀ b ∈ needs a, b ∈ univ
  beq : ∀ a ∈ univ, ∀ b ∈ univ, (a == b) = true ↔ a = b

/-- How many nodes have not been visited. -/
def unvisited (univ visited : List α) : Nat := univ.countP fun x => !visited.contains x

theorem Closed.contains (h : Closed needs univ) (hv : visited ⊆ univ) (hm : m ∈ univ) :
    visited.contains m = true ↔ m ∈ visited := by
  rw [List.contains_iff_exists_mem_beq]
  constructor
  · intro ⟨x, hx, he⟩
    exact (h.beq m hm x (hv hx)).1 he ▸ hx
  · intro hmem
    exact ⟨m, hmem, (h.beq m hm m hm).2 rfl⟩

theorem Closed.unvisited_le (h : Closed needs univ) (hv' : visited' ⊆ univ)
    (hsub : visited ⊆ visited') : unvisited univ visited' ≤ unvisited univ visited := by
  refine List.countP_mono_left fun x hx hnot => ?_
  rw [Bool.not_eq_true', Bool.eq_false_iff, ne_eq, h.contains hv' hx] at hnot
  rw [Bool.not_eq_true', Bool.eq_false_iff, ne_eq, h.contains (List.Subset.trans hsub hv') hx]
  exact fun hmem => hnot (hsub hmem)

theorem Closed.unvisited_lt (h : Closed needs univ) (hv : visited ⊆ univ) (hm : m ∈ univ)
    (hnew : m ∉ visited) : unvisited univ (m :: visited) < unvisited univ visited := by
  have hv' : m :: visited ⊆ univ := List.cons_subset.2 ⟨hm, hv⟩
  obtain ⟨a, b, hab⟩ := List.append_of_mem hm
  have hle : ∀ l ⊆ univ, l.countP (fun x => !(m :: visited).contains x) ≤
      l.countP fun x => !visited.contains x := by
    intro l hl
    refine List.countP_mono_left fun x hx hnot => ?_
    rw [Bool.not_eq_true', Bool.eq_false_iff, ne_eq, h.contains hv' (hl hx)] at hnot
    rw [Bool.not_eq_true', Bool.eq_false_iff, ne_eq, h.contains hv (hl hx)]
    exact fun hmem => hnot (List.mem_cons_of_mem _ hmem)
  have ha := hle a (hab ▸ List.subset_append_left a _)
  have hb := hle b (hab ▸ fun x hx => List.mem_append_right a (List.mem_cons_of_mem m hx))
  have hin : (m :: visited).contains m = true := (h.contains hv' hm).2 List.mem_cons_self
  have hout : visited.contains m = false :=
    Bool.eq_false_iff.2 fun hc => hnew ((h.contains hv hm).1 hc)
  unfold unvisited
  rw [hab, List.countP_append, List.countP_append, List.countP_cons, List.countP_cons, hin, hout,
    Bool.not_true, Bool.not_false, if_neg Bool.false_ne_true, if_pos rfl]
  omega

/-- What one visit is to do, from any visited nodes of the universe that leave fewer than `fuel`. -/
def Visits (needs : α → List α) (univ : List α) (fuel : Nat)
    (visit : α → List α → Option (List α × List α)) : Prop :=
  ∀ m ∈ univ, ∀ visited, visited ⊆ univ → unvisited univ visited < fuel →
    ∃ out visited', visit m visited = some (out, visited') ∧ Listed needs visited out visited' ∧
      m ∈ visited' ∧ visited' ⊆ univ ∧ ∀ x ∈ out, Relation.ReflTransGen (Needs needs) m x

theorem Closed.visitAll (h : Closed needs univ) {fuel : Nat}
    {visit : α → List α → Option (List α × List α)} (hvisit : Visits needs univ fuel visit)
    (ms : List α) (hms : ms ⊆ univ) (visited : List α) (hv : visited ⊆ univ)
    (hfuel : unvisited univ visited < fuel) :
    ∃ out visited', visitAll visit ms visited = some (out, visited') ∧
      Listed needs visited out visited' ∧ ms ⊆ visited' ∧ visited' ⊆ univ ∧
      ∀ x ∈ out, ∃ m ∈ ms, Relation.ReflTransGen (Needs needs) m x := by
  induction ms generalizing visited with
  | nil => exact ⟨[], visited, rfl, .nil, List.nil_subset _, hv, fun x hx => absurd hx (by simp)⟩
  | cons m ms ih =>
    obtain ⟨hm, hms'⟩ := List.cons_subset.1 hms
    obtain ⟨out, visited', heq, hlist, hmem, hv', hreach⟩ := hvisit m hm visited hv hfuel
    have hsub : visited ⊆ visited' := fun x hx => (hlist.mem x).2 (.inl hx)
    have hfuel' := Nat.lt_of_le_of_lt (h.unvisited_le hv' hsub) hfuel
    obtain ⟨outs, visited'', heq', hlist', hmem', hv'', hreach'⟩ := ih hms' visited' hv' hfuel'
    refine ⟨out ++ outs, visited'', ?_, hlist.append hlist', ?_, hv'', fun x hx => ?_⟩
    · rw [DepthFirst.visitAll, heq, Option.bind_eq_bind, Option.bind_some]
      show (DepthFirst.visitAll visit ms visited').bind _ = _
      rw [heq', Option.bind_some]
    · exact List.cons_subset.2 ⟨(hlist'.mem m).2 (.inl hmem), hmem'⟩
    · rcases List.mem_append.1 hx with hx | hx
      · exact ⟨m, List.mem_cons_self, hreach x hx⟩
      · obtain ⟨m', hm', hr⟩ := hreach' x hx
        exact ⟨m', List.mem_cons_of_mem _ hm', hr⟩

/-- Where nothing needs itself, a visit goes as deep as there are nodes to visit at most. -/
theorem Closed.visit (h : Closed needs univ)
    (hacyclic : ∀ m, ¬ Relation.TransGen (Needs needs) m m) (fuel : Nat) :
    Visits needs univ fuel (visit needs fuel) := by
  induction fuel with
  | zero => exact fun m _ visited _ hfuel => absurd hfuel (Nat.not_lt_zero _)
  | succ fuel ih =>
    intro m hm visited hv hfuel
    rw [DepthFirst.visit]
    by_cases hin : m ∈ visited
    · rw [if_pos ((h.contains hv hm).2 hin)]
      exact ⟨[], visited, rfl, .nil, hin, hv, fun x hx => absurd hx (by simp)⟩
    · rw [if_neg fun hc => hin ((h.contains hv hm).1 hc)]
      have hlt := h.unvisited_lt hv hm hin
      have hv' : m :: visited ⊆ univ := List.cons_subset.2 ⟨hm, hv⟩
      have hfuel' : unvisited univ (m :: visited) < fuel := by omega
      obtain ⟨out, visited', heq, hlist, hmem, hv'', hreach⟩ :=
        h.visitAll ih (needs m) (h.needs m hm) (m :: visited) hv' hfuel'
      have hself : m ∉ needs m := fun hd => hacyclic m (.single hd)
      have hout : ∀ x ∈ out, m ∉ needs x := by
        intro x hx hd
        obtain ⟨d, hd', hr⟩ := hreach x hx
        exact hacyclic m (Relation.TransGen.head' hd' (hr.trans (.single hd)))
      refine ⟨out ++ [m], visited', ?_, hlist.snoc hin hmem hself hout, ?_, hv'', fun x hx => ?_⟩
      · rw [heq, Option.bind_eq_bind, Option.bind_some]
      · exact (hlist.mem m).2 (.inl List.mem_cons_self)
      · rcases List.mem_append.1 hx with hx | hx
        · obtain ⟨d, hd, hr⟩ := hreach x hx
          exact .head hd hr
        · rw [List.mem_singleton.1 hx]

/-- The nodes of a universe, each once and after those that it needs. -/
theorem Closed.visitAll_perm (h : Closed needs univ) (hnodup : univ.Nodup)
    (hacyclic : ∀ m, ¬ Relation.TransGen (Needs needs) m m) {ms : List α} (hms : ms.Perm univ) :
    ∃ out visited, DepthFirst.visitAll (DepthFirst.visit needs (univ.length + 1)) ms [] =
      some (out, visited) ∧ out.Perm univ ∧ Ordered needs [] out := by
  have hfuel : unvisited univ ([] : List α) < univ.length + 1 :=
    Nat.lt_succ_of_le List.countP_le_length
  obtain ⟨out, visited, heq, hlist, hmem, hv, -⟩ := h.visitAll (h.visit hacyclic (univ.length + 1))
    ms hms.subset [] (List.nil_subset _) hfuel
  refine ⟨out, visited, heq, ?_, hlist.ordered⟩
  refine (List.perm_ext_iff_of_nodup hlist.nodup hnodup).2 fun x => ⟨fun hx => ?_, fun hx => ?_⟩
  · exact hv ((hlist.mem x).2 (.inr hx))
  · exact ((hlist.mem x).1 (hmem (hms.symm.subset hx))).resolve_left (by simp)

end

end DepthFirst

end Lib
