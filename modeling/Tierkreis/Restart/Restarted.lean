import Tierkreis.Restart.Filter

/-!
# What the filter of a restart does

Which elements a filter resets, and where it clears and truncates, by the
locations that are restarted.
-/

namespace Tierkreis

open Lib

namespace NodeCopyFilter

/-- Whether element `i` of the map at `loc` is reset. -/
def ResetsElem (f : NodeCopyFilter) (loc : Location) (i : Nat) : Prop :=
  ((f.resetMapElems.get? loc).getD [])[i]? = some true

theorem getElem?_mergeMapElems (m : HashMap Location (List Bool)) (e : Location × List Bool)
    (loc : Location) (i : Nat) :
    (((mergeMapElems m e).get? loc).getD [])[i]? = some true ↔
      ((m.get? loc).getD [])[i]? = some true ∨ e.1 = loc ∧ e.2[i]? = some true := by
  rw [mergeMapElems, HashMap.get?_modify]
  by_cases h : loc = e.1
  · subst h
    rw [if_pos rfl, Option.getD_some, getElem?_bitorAssign, List.getElem?_append,
      List.getElem?_replicate]
    generalize (m.get? e.1).getD [] = bits
    rcases Nat.lt_or_ge i bits.length with hi | hi
    · rw [if_pos hi, List.getElem?_eq_getElem hi]
      cases bits[i] <;> cases e.2[i]? <;> simp
    · rw [if_neg (Nat.not_lt.2 hi), List.getElem?_eq_none hi]
      by_cases hl : i - bits.length < e.2.length - bits.length
      · rw [if_pos hl]
        cases e.2[i]? <;> simp
      · have he : e.2[i]? = none := List.getElem?_eq_none (by omega)
        rw [if_neg hl, he]
        simp
  · rw [if_neg h]
    exact ⟨.inl, fun hor => hor.elim id fun he => absurd he.1.symm h⟩

theorem isSome_mergeMapElems (m : HashMap Location (List Bool)) (e : Location × List Bool)
    (loc : Location) :
    ((mergeMapElems m e).get? loc).isSome = true ↔ (m.get? loc).isSome = true ∨ e.1 = loc := by
  rw [mergeMapElems, HashMap.get?_modify]
  by_cases h : loc = e.1
  · simp [h]
  · rw [if_neg h]
    exact ⟨.inl, fun hor => hor.elim id fun he => absurd he.symm h⟩

theorem resetsElem_merge {f other : NodeCopyFilter} {loc : Location} {i : Nat} :
    (f.merge other).ResetsElem loc i ↔ f.ResetsElem loc i ∨ other.ResetsElem loc i := by
  have hfold : ∀ (l : List (Location × List Bool)) (m : HashMap Location (List Bool)),
      ((((l.foldl mergeMapElems m).get? loc).getD [])[i]? = some true ↔
        ((m.get? loc).getD [])[i]? = some true ∨ ∃ e ∈ l, e.1 = loc ∧ e.2[i]? = some true) := by
    intro l
    induction l with
    | nil => simp
    | cons e l ih =>
      intro m
      rw [List.foldl_cons, ih, getElem?_mergeMapElems, or_assoc]
      simp only [List.exists_mem_cons_iff]
  unfold ResetsElem merge
  rw [hfold]
  refine or_congr_right ⟨?_, ?_⟩
  · rintro ⟨e, he, rfl, hi⟩
    rwa [HashMap.get?_eq_some_iff.2 he, Option.getD_some]
  · intro hi
    cases hg : other.resetMapElems.get? loc with
    | none => simp [hg] at hi
    | some bits =>
      rw [hg, Option.getD_some] at hi
      exact ⟨(loc, bits), HashMap.get?_eq_some_iff.1 hg, rfl, hi⟩

theorem isSome_resetMapElems_merge {f other : NodeCopyFilter} {loc : Location} :
    ((f.merge other).resetMapElems.get? loc).isSome = true ↔
      (f.resetMapElems.get? loc).isSome = true ∨ (other.resetMapElems.get? loc).isSome = true := by
  have hfold : ∀ (l : List (Location × List Bool)) (m : HashMap Location (List Bool)),
      (((l.foldl mergeMapElems m).get? loc).isSome = true ↔
        (m.get? loc).isSome = true ∨ ∃ e ∈ l, e.1 = loc) := by
    intro l
    induction l with
    | nil => simp
    | cons e l ih =>
      intro m
      rw [List.foldl_cons, ih, isSome_mergeMapElems, or_assoc]
      simp only [List.exists_mem_cons_iff]
  unfold merge
  rw [hfold]
  refine or_congr_right ⟨?_, ?_⟩
  · rintro ⟨e, he, rfl⟩
    rw [HashMap.get?_eq_some_iff.2 he]
    rfl
  · intro hs
    obtain ⟨bits, hg⟩ := Option.isSome_iff_exists.1 hs
    exact ⟨(loc, bits), HashMap.get?_eq_some_iff.1 hg, rfl⟩

/-- What a filter does at most, and what it resets, for the locations that satisfy `p`. -/
structure RestartsAt (f : NodeCopyFilter) (p : Location → Prop) : Prop where
  resetsElem : ∀ loc i, f.ResetsElem loc i ↔ ∃ l, p l ∧ loc.withMapIndex i <+: l
  resets : ∀ loc, (f.resetMapElems.get? loc).isSome = true ↔
    ∃ l i, p l ∧ loc.withMapIndex i <+: l
  /-- A location is cleared for itself, or for what it depends on at its level. -/
  clears : ∀ x ∈ f.clearRoots, ∃ l, p l ∧
    (x = l ∨ ∃ w n d, x = Location.withNode w d ∧ w.withNode n <+: l)
  truncates : ∀ x ∈ f.truncateExact, ∃ l, p l ∧ x <+: l ∧ x ≠ l

theorem RestartsAt.merge {f other : NodeCopyFilter} {p q : Location → Prop} (h : f.RestartsAt p)
    (h' : other.RestartsAt q) : (f.merge other).RestartsAt fun l => p l ∨ q l where
  resetsElem loc i := by
    rw [resetsElem_merge, h.resetsElem, h'.resetsElem]
    simp only [or_and_right, exists_or]
  resets loc := by
    rw [isSome_resetMapElems_merge, h.resets, h'.resets]
    simp only [or_and_right, exists_or]
  clears x hx := by
    rcases mem_clearRoots_merge.1 hx with hx | hx
    · obtain ⟨l, hl, ho⟩ := h.clears x hx
      exact ⟨l, .inl hl, ho⟩
    · obtain ⟨l, hl, ho⟩ := h'.clears x hx
      exact ⟨l, .inr hl, ho⟩
  truncates x hx := by
    rcases mem_truncateExact_merge.1 hx with hx | hx
    · obtain ⟨l, hl, ho⟩ := h.truncates x hx
      exact ⟨l, .inl hl, ho⟩
    · obtain ⟨l, hl, ho⟩ := h'.truncates x hx
      exact ⟨l, .inr hl, ho⟩

end NodeCopyFilter

/-! ## The walk -/

theorem getElem?_resetBit (index i : Nat) :
    (List.replicate index false ++ [true])[i]? = some true ↔ i = index := by
  rw [List.getElem?_append, List.getElem?_replicate, List.length_replicate]
  rcases Nat.lt_trichotomy i index with h | rfl | h
  · simp [h]
    omega
  · simp
  · rw [if_neg (by omega), List.getElem?_eq_none (by simp; omega)]
    simp
    omega

/-- The walk along `location` has come to `w`. -/
structure Walked (location w : Location) (f : NodeCopyFilter) : Prop where
  resetsElem : ∀ loc i, f.ResetsElem loc i ↔ loc.withMapIndex i <+: w
  resets : ∀ loc, (f.resetMapElems.get? loc).isSome = true ↔ ∃ i, loc.withMapIndex i <+: w
  clears : ∀ x ∈ f.clearRoots,
    x = location ∨ ∃ v n d, x = Location.withNode v d ∧ v.withNode n <+: w
  truncates : ∀ x ∈ f.truncateExact, x <+: w ∧ x ≠ location

theorem Walked.root (location : Location) :
    Walked location Location.root { clearRoots := {location} } where
  resetsElem loc i := by
    constructor
    · intro h
      cases h
    · intro h
      have := List.prefix_nil.1 h
      simp [Location.withMapIndex] at this
  resets loc := by
    constructor
    · intro h
      cases h
    · rintro ⟨i, h⟩
      have := List.prefix_nil.1 h
      simp [Location.withMapIndex] at this
  clears x hx := .inl (Finset.mem_singleton.1 hx)
  truncates x hx := by cases hx

theorem Walked.node {location w : Location} {f : NodeCopyFilter} (h : Walked location w f)
    (W : Portgraph) (g : WorkflowGraph) (n : NodeIndex) :
    Walked location (w.withNode n) (visitNode W location g w n f) where
  resetsElem loc i := by
    rw [Location.prefix_withNode_iff, or_iff_right (Location.withNode_ne_withMapIndex w loc n i).symm]
    exact h.resetsElem loc i
  resets loc := by
    simp only [Location.prefix_withNode_iff,
      or_iff_right (Location.withNode_ne_withMapIndex w loc n _).symm]
    exact h.resets loc
  clears x hx := by
    rcases Finset.mem_union.1 hx with hx | hx
    · rcases h.clears x hx with rfl | ⟨v, k, d, hd, hv⟩
      · exact .inl rfl
      · exact .inr ⟨v, k, d, hd, Location.prefix_withNode_iff.2 (.inr hv)⟩
    · obtain ⟨d, -, rfl⟩ := List.mem_map.1 (List.mem_toFinset.1 hx)
      exact .inr ⟨w, n, d, rfl, List.prefix_refl _⟩
  truncates x hx := by
    have hx : x ∈ (if w.withNode n ≠ location then insert (w.withNode n) f.truncateExact
      else f.truncateExact) := hx
    split_ifs at hx with hn
    · rcases Finset.mem_insert.1 hx with rfl | hx
      · exact ⟨List.prefix_refl _, hn⟩
      · exact ⟨Location.prefix_withNode_iff.2 (.inr (h.truncates x hx).1), (h.truncates x hx).2⟩
    · exact ⟨Location.prefix_withNode_iff.2 (.inr (h.truncates x hx).1), (h.truncates x hx).2⟩

theorem Walked.loopIndex {location w : Location} {f : NodeCopyFilter} (h : Walked location w f)
    (index : Nat) :
    Walked location (w.withLoopIndex index)
      { f with resetLoopIndex := f.resetLoopIndex.insert w index } where
  resetsElem loc i := by
    rw [Location.prefix_withLoopIndex_iff,
      or_iff_right (Location.withLoopIndex_ne_withMapIndex w loc index i).symm]
    exact h.resetsElem loc i
  resets loc := by
    simp only [Location.prefix_withLoopIndex_iff,
      or_iff_right (Location.withLoopIndex_ne_withMapIndex w loc index _).symm]
    exact h.resets loc
  clears x hx := by
    rcases h.clears x hx with rfl | ⟨v, k, d, hd, hv⟩
    · exact .inl rfl
    · exact .inr ⟨v, k, d, hd, Location.prefix_withLoopIndex_iff.2 (.inr hv)⟩
  truncates x hx :=
    ⟨Location.prefix_withLoopIndex_iff.2 (.inr (h.truncates x hx).1), (h.truncates x hx).2⟩

theorem Walked.mapIndex {location w : Location} {f : NodeCopyFilter} (h : Walked location w f)
    (index : Nat) :
    Walked location (w.withMapIndex index)
      { f with resetMapElems := f.resetMapElems.insert w (List.replicate index false ++ [true]) } where
  resetsElem loc i := by
    rw [Location.prefix_withMapIndex_iff, Location.withMapIndex_inj, NodeCopyFilter.ResetsElem,
      HashMap.get?_insert]
    by_cases hl : loc = w
    · subst hl
      have hw : ¬ loc.withMapIndex i <+: loc := fun hp => by
        have := hp.length_le
        rw [Location.length_withMapIndex] at this
        omega
      rw [if_pos rfl, Option.getD_some, getElem?_resetBit]
      simp [hw]
    · rw [if_neg hl]
      simp only [hl, false_and, false_or]
      exact h.resetsElem loc i
  resets loc := by
    simp only [Location.prefix_withMapIndex_iff, Location.withMapIndex_inj, HashMap.get?_insert]
    by_cases hl : loc = w
    · simp [hl]
    · rw [if_neg hl]
      simp only [hl, false_and, false_or]
      exact h.resets loc
  clears x hx := by
    rcases h.clears x hx with rfl | ⟨v, k, d, hd, hv⟩
    · exact .inl rfl
    · exact .inr ⟨v, k, d, hd, Location.prefix_withMapIndex_iff.2 (.inr hv)⟩
  truncates x hx :=
    ⟨Location.prefix_withMapIndex_iff.2 (.inr (h.truncates x hx).1), (h.truncates x hx).2⟩

section Build

variable {σ : Type} [WorkflowRunState σ] {C : Codec} {W : Portgraph} {st : σ} {r : RunAttempt}
  {A : Assets}

theorem Walked.components {location : Location} :
    ∀ {components : List LocationComponent} {workflow : WorkflowGraph} {w : Location}
      {f f' : NodeCopyFilter}, Walked location w f →
      walkComponents C W st r A location components workflow w f = .ok f' →
      Walked location (w ++ components) f'
  | [], _, w, f, f', h, hw => by
    cases hw
    rwa [List.append_nil]
  | .node n :: components, _, w, f, f', h, hw => by
    rw [walkComponents] at hw
    -- at the root the graph is the workflow, below it it is looked for
    have hg : ∃ g, walkComponents C W st r A location components g (w.withNode n)
        (visitNode W location g w n f) = .ok f' := by
      split_ifs at hw with hr
      · exact ⟨_, hw⟩
      · obtain ⟨g, -, hw⟩ := Result.bind_eq_ok.1 hw
        exact ⟨g, hw⟩
    obtain ⟨g, hw⟩ := hg
    have := Walked.components (h.node W g n) hw
    rwa [Location.withNode, List.append_assoc] at this
  | .loopIndex index :: components, _, w, f, f', h, hw => by
    have := Walked.components (h.loopIndex index) hw
    rwa [Location.withLoopIndex, List.append_assoc] at this
  | .mapIndex index :: components, _, w, f, f', h, hw => by
    have := Walked.components (h.mapIndex index) hw
    rwa [Location.withMapIndex, List.append_assoc] at this

/-- The filter of one location. -/
theorem restartsAt_build {workflow : WorkflowGraph} {location : Location} {f : NodeCopyFilter}
    (h : buildNodeCopyFilter C W st r A workflow location = .ok f) :
    f.RestartsAt fun l => l = location := by
  have hw : Walked location location f := (Walked.root location).components h
  exact
    { resetsElem := fun loc i => by rw [hw.resetsElem]; simp
      resets := fun loc => by rw [hw.resets]; simp
      clears := fun x hx => ⟨location, rfl, (hw.clears x hx).imp_right fun ⟨v, n, d, hd, hv⟩ =>
        ⟨v, n, d, hd, hv⟩⟩
      truncates := fun x hx => ⟨location, rfl, hw.truncates x hx⟩ }

theorem restartsAt_none : NodeCopyFilter.RestartsAt {} fun _ => False where
  resetsElem loc i := ⟨fun h => (by cases h), fun ⟨_, h, _⟩ => h.elim⟩
  resets loc := ⟨fun h => (by cases h), fun ⟨_, _, h, _⟩ => h.elim⟩
  clears x hx := by cases hx
  truncates x hx := by cases hx

/-- The filter of several locations. -/
theorem restartsAt_merge {workflow : WorkflowGraph} :
    ∀ {locs : List Location} {p : Location → Prop} {f f' : NodeCopyFilter}, f.RestartsAt p →
      mergeFilters C W st r A workflow locs f = .ok f' → f'.RestartsAt fun l => p l ∨ l ∈ locs
  | [], p, f, f', h, hm => by
    cases hm
    simpa using h
  | location :: locs, p, f, f', h, hm => by
    obtain ⟨g, hg, hm⟩ := Result.bind_eq_ok.1 hm
    have := restartsAt_merge (h.merge (restartsAt_build hg)) hm
    simpa only [List.mem_cons, or_assoc] using this

theorem restartsAt_restart {workflow : WorkflowGraph} {locs : List Location} {f : NodeCopyFilter}
    (h : mergeFilters C W st r A workflow locs {} = .ok f) : f.RestartsAt fun l => l ∈ locs := by
  simpa only [false_or] using restartsAt_merge restartsAt_none h

end Build

end Tierkreis
