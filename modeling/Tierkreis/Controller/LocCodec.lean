import Mathlib.Data.List.Infix
import Tierkreis.Controller.LocString
import Tierkreis.Lib.StateExcept

/-!
# The codec of locations

A location built from the root comes apart into its steps and together again. Of any
other string `steps` raises what the reading of its first bad part raises, which is
not always a `TierkreisError`.
-/

namespace Tierkreis.Controller.LocString

open Lib Lib.StateExcept

/-- What the codec does for a location that was built from the root along `path`, and for a
string `s`. -/
structure LocCodec (U : PyInt.Unicode) (path : List Step) (s : PyStr) : Prop where
  fromSteps_steps : ∀ l, build U path = .ok l →
    ∃ steps, LocString.steps U l = .ok steps ∧ fromSteps U steps = .ok l
  putLast_popLast : ∀ l, build U path = .ok l →
    ∃ last rest, popLast U l = .ok (last, rest) ∧ putLast U rest last = .ok l
  putFirst_popFirst : ∀ l, build U path = .ok l →
    ∃ first rest, popFirst U l = .ok (first, rest) ∧ putFirst U rest first = .ok l
  partialLocs : ∀ l, build U path = .ok l →
    ∃ locs, LocString.partialLocs U l = .ok locs ∧ path.inits.mapM (build U) = .ok locs
  distinct : ∀ path' l, build U path = .ok l → build U path' = .ok l → path = path'
  clean : ∀ e, LocString.steps U s = .error e → ∃ text, e = .tierkreisError text

variable {U : PyInt.Unicode}

/-! ## Built locations -/

theorem Writable.append {path path' : List Step} :
    Writable U (path ++ path') ↔ Writable U path ∧ Writable U path' := List.forall_mem_append

theorem writable_take {path : List Step} (h : Writable U path) (n : Nat) :
    Writable U (path.take n) := fun s hs => h s (List.mem_of_mem_take hs)

theorem textOf_eq_root_iff {path : List Step} : textOf U path = root ↔ path = [] := by
  cases path with
  | nil => exact iff_of_true rfl rfl
  | cons s path =>
    refine iff_of_false (fun h => ?_) (List.cons_ne_nil _ _)
    have hlen := congrArg List.length h
    simp [textOf, root, pyStr] at hlen

theorem textOf_inj {path path' : List Step} (h : Writable U path) (h' : Writable U path')
    (heq : textOf U path = textOf U path') : path = path' := by
  have hsteps := steps_textOf h
  rw [heq, steps_textOf h'] at hsteps
  have hmap := (List.cons.inj (Except.ok.inj hsteps)).2
  exact (List.map_injective_iff.2 fun _ _ he => NodeStep.step.inj he) hmap.symm

theorem fromSteps_of_writable {path : List Step} (h : Writable U path) :
    fromSteps U (.dash :: path.map .step) = .ok (textOf U path) := by
  rw [fromSteps_dash, build_of_writable h]

theorem fromSteps_steps {path : List Step} (h : Writable U path) :
    ∃ st, steps U (textOf U path) = .ok st ∧ fromSteps U st = .ok (textOf U path) :=
  ⟨_, steps_textOf h, fromSteps_of_writable h⟩

/-- The last step comes off. -/
theorem popLast_textOf {path : List Step} {s : Step} (h : Writable U (path ++ [s])) :
    popLast U (textOf U (path ++ [s])) = .ok (.step s, textOf U path) := by
  have hroot : textOf U (path ++ [s]) ≠ root := by
    rw [Ne, textOf_eq_root_iff]
    simp
  have hsteps := steps_textOf h
  have hfrom := fromSteps_of_writable (Writable.append.1 h).1
  have hlast : NodeStep.dash :: (path ++ [s]).map NodeStep.step =
      (NodeStep.dash :: path.map NodeStep.step) ++ [NodeStep.step s] := by
    rw [List.map_append]
    rfl
  have hlen : ¬ (((NodeStep.dash :: path.map NodeStep.step) ++ [NodeStep.step s]).length < 2 ∨
      NodeStep.step s = .dash) := by
    simp
  rw [popLast, if_neg hroot, hsteps, hlast, ok_bind, List.getLast?_concat]
  dsimp only
  rw [if_neg hlen, List.dropLast_concat, hfrom]
  rfl

/-- The first step comes off. -/
theorem popFirst_textOf {path : List Step} {s : Step} (h : Writable U (s :: path)) :
    popFirst U (textOf U (s :: path)) = .ok (.step s, textOf U path) := by
  have hroot : textOf U (s :: path) ≠ root := by
    rw [Ne, textOf_eq_root_iff]
    exact List.cons_ne_nil _ _
  have hfrom := fromSteps_of_writable (List.forall_mem_cons.1 h).2
  rw [popFirst, if_neg hroot, steps_textOf h, List.map_cons, ok_bind]
  dsimp only
  rw [if_neg nofun, hfrom]
  rfl

theorem putLast_popLast {path : List Step} (h : Writable U path) :
    ∃ last rest, popLast U (textOf U path) = .ok (last, rest) ∧
      putLast U rest last = .ok (textOf U path) := by
  rcases List.eq_nil_or_concat path with rfl | ⟨before, s, rfl⟩
  · exact ⟨.dash, [], rfl, rfl⟩
  · rw [List.concat_eq_append] at h ⊢
    refine ⟨_, _, popLast_textOf h, ?_⟩
    have hfrom := fromSteps_of_writable h
    rw [putLast, steps_textOf (Writable.append.1 h).1]
    rw [List.map_append] at hfrom
    exact hfrom

theorem putFirst_popFirst {path : List Step} (h : Writable U path) :
    ∃ first rest, popFirst U (textOf U path) = .ok (first, rest) ∧
      putFirst U rest first = .ok (textOf U path) := by
  cases path with
  | nil => exact ⟨.dash, [], rfl, rfl⟩
  | cons s path =>
    refine ⟨_, _, popFirst_textOf h, ?_⟩
    rw [putFirst, steps_textOf (List.forall_mem_cons.1 h).2]
    exact fromSteps_of_writable h

theorem partialLocs_textOf {path : List Step} (h : Writable U path) :
    partialLocs U (textOf U path) = .ok (path.inits.map (textOf U)) := by
  have hinits : path.inits = (List.range (path.length + 1)).map fun i => path.take i := by
    refine List.ext_getElem (by simp) fun i hi hi' => ?_
    rw [List.getElem_inits, List.getElem_map, List.getElem_range]
  have htake : ∀ i, fromSteps U ((NodeStep.dash :: path.map .step).take (i + 1)) =
      .ok (textOf U (path.take i)) := by
    intro i
    rw [List.take_succ_cons, ← List.map_take]
    exact fromSteps_of_writable (writable_take h i)
  have hmapM : ∀ l : List Nat,
      l.mapM (fun i => fromSteps U ((NodeStep.dash :: path.map .step).take (i + 1))) =
        .ok (l.map fun i => textOf U (path.take i)) := by
    intro l
    induction l with
    | nil => rfl
    | cons i l ih =>
      rw [List.mapM_cons, htake, ih]
      rfl
  rw [partialLocs, steps_textOf h]
  change List.mapM _ (List.range (path.map NodeStep.step).length.succ) = _
  rw [hmapM, hinits, List.map_map, List.length_map]
  rfl

theorem mapM_build_inits {path : List Step} (h : Writable U path) :
    path.inits.mapM (build U) = .ok (path.inits.map (textOf U)) := by
  have hmapM : ∀ l : List (List Step), (∀ before ∈ l, Writable U before) →
      l.mapM (build U) = .ok (l.map (textOf U)) := by
    intro l
    induction l with
    | nil => exact fun _ => rfl
    | cons before l ih =>
      intro hl
      obtain ⟨hbefore, hl⟩ := List.forall_mem_cons.1 hl
      rw [List.mapM_cons, build_of_writable hbefore, ih hl]
      rfl
  refine hmapM _ fun before hbefore => ?_
  have hpre := (List.mem_inits before path).1 hbefore
  exact fun s hs => h s (hpre.subset hs)

/-! ## Locations as steps -/

/-- The string of a location that is kept as its steps. -/
def Spells (U : PyInt.Unicode) (loc : Loc) (s : PyStr) : Prop :=
  loc.tail.foldlM (LocString.append U) (if loc.dash then root else []) = .ok s

instance (U : PyInt.Unicode) (loc : Loc) (s : PyStr) : Decidable (Spells U loc s) :=
  inferInstanceAs (Decidable (_ = Except.ok s))

theorem spells_iff {loc : Loc} {s : PyStr} : Spells U loc s ↔ Writable U loc.tail ∧
    s = (if loc.dash then root else []) ++ loc.tail.flatMap fun s => '.'.toNat :: part U s := by
  constructor
  · intro h
    have hw := writable_of_foldlM h
    exact ⟨hw, Except.ok.inj (h.symm.trans (foldlM_append hw _))⟩
  · rintro ⟨hw, rfl⟩
    exact foldlM_append hw _

theorem spells_dash {path : List Step} {s : PyStr} : Spells U ⟨true, path⟩ s ↔ build U path = .ok s :=
  Iff.rfl

theorem spells_append {loc : Loc} {s s' : PyStr} (h : Spells U loc s) (step : Step) :
    Spells U (loc.append step) s' ↔ LocString.append U s step = .ok s' := by
  unfold Spells at h ⊢
  rw [Loc.append, List.foldlM_append, h, ok_bind, List.foldlM_cons]
  cases LocString.append U s step with
  | error e => exact iff_of_false (fun h => by cases h) fun h => by cases h
  | ok t => exact Iff.rfl

/-- No two locations have one string. -/
theorem spells_inj {loc loc' : Loc} {s : PyStr} (h : Spells U loc s) (h' : Spells U loc' s) :
    loc = loc' := by
  obtain ⟨dash, path⟩ := loc
  obtain ⟨dash', path'⟩ := loc'
  obtain ⟨hw, rfl⟩ := spells_iff.1 h
  obtain ⟨hw', heq⟩ := spells_iff.1 h'
  have hdot : ∀ path path' : List Step,
      (path.flatMap fun s => '.'.toNat :: part U s) ≠ textOf U path' := by
    intro path path' he
    cases path with
    | nil => cases he
    | cons s path => exact absurd (List.cons.inj he).1 (by decide)
  cases dash with
  | true =>
    cases dash' with
    | true => exact congrArg (Loc.mk true) (textOf_inj hw hw' heq)
    | false => exact absurd heq.symm (hdot path' path)
  | false =>
    cases dash' with
    | true => exact absurd heq (hdot path path')
    | false => exact congrArg (Loc.mk false) (textOf_inj hw hw' (congrArg (root ++ ·) heq))

/-- What the location before the last step is, or the one of the iteration before. -/
def ParentAlike (U : PyInt.Unicode) (loc : Loc) (s : PyStr) : Prop :=
  match loc.parent with
  | .ok (some before) => ∀ s', parent U s = .ok (some s') ↔ Spells U before s'
  | .ok none => parent U s = .ok none
  | .error .indexError => parent U s = .error .indexError

theorem parentAlike_nil : ParentAlike U ⟨true, []⟩ root := by
  intro s'
  refine ⟨fun h => ?_, fun h => ?_⟩
  · cases h
    rfl
  · cases h
    rfl

/-- A later iteration of a loop, before which another one ran. -/
def Later (step : Step) : Prop := step.kind = .L ∧ step.idx ≠ 0

instance (step : Step) : Decidable (Later step) := inferInstanceAs (Decidable (_ ∧ _))

theorem parent_concat (path : List Step) (step : Step) :
    (⟨true, path ++ [step]⟩ : Loc).parent =
      .ok (some (if Later step then Loc.L ⟨true, path⟩ (step.idx - 1) else ⟨true, path⟩)) := by
  obtain ⟨kind, idx⟩ := step
  cases kind <;> simp [Later, Loc.parent, Loc.steps, bind, Except.bind, pure, Except.pure]

theorem parent_textOf {path : List Step} {step : Step} (h : Writable U (path ++ [step])) :
    parent U (textOf U (path ++ [step])) =
      if Later step then (L U (textOf U path) (step.idx - 1)).map some
      else .ok (some (textOf U path)) := by
  have hfrom := fromSteps_of_writable (Writable.append.1 h).1
  have hlast : NodeStep.dash :: (path ++ [step]).map NodeStep.step =
      (NodeStep.dash :: path.map NodeStep.step) ++ [NodeStep.step step] := by
    rw [List.map_append]
    rfl
  rw [parent, steps_textOf h, hlast, ok_bind, List.getLast?_concat]
  obtain ⟨kind, idx⟩ := step
  cases kind with
  | N | M =>
    dsimp only
    rw [List.dropLast_concat, hfrom]
    rfl
  | L =>
    dsimp only
    rw [List.dropLast_concat, hfrom, ok_bind]
    by_cases hidx : idx = 0
    · rw [if_pos hidx, if_neg fun h => h.2 hidx]
      rfl
    · rw [if_neg hidx, if_pos ⟨rfl, hidx⟩]
      cases L U (textOf U path) (idx - 1) <;> rfl

theorem parentAlike_concat {path : List Step} {step : Step} (h : Writable U (path ++ [step])) :
    ParentAlike U ⟨true, path ++ [step]⟩ (textOf U (path ++ [step])) := by
  have hbefore := build_of_writable (Writable.append.1 h).1
  have hspells : Spells U ⟨true, path⟩ (textOf U path) := hbefore
  unfold ParentAlike
  rw [parent_concat, parent_textOf h]
  intro s'
  by_cases hlater : Later step
  · rw [if_pos hlater, if_pos hlater, Loc.L, spells_append hspells, L]
    cases LocString.append U (textOf U path) ⟨.L, step.idx - 1⟩ with
    | error e => exact iff_of_false (fun h => by cases h) fun h => by cases h
    | ok t => exact ⟨fun h => by cases h; rfl, fun h => by cases h; rfl⟩
  · rw [if_neg hlater, if_neg hlater, spells_dash, hbefore]
    exact ⟨fun h => by cases h; rfl, fun h => by cases h; rfl⟩

theorem parentAlike {loc : Loc} {s : PyStr} (h : Spells U loc s) : ParentAlike U loc s := by
  obtain ⟨dash, path⟩ := loc
  obtain ⟨hw, rfl⟩ := spells_iff.1 h
  cases dash with
  | true =>
    rcases List.eq_nil_or_concat path with rfl | ⟨before, step, rfl⟩
    · exact parentAlike_nil
    · rw [List.concat_eq_append] at hw ⊢
      exact parentAlike_concat hw
  | false =>
    cases path with
    | nil => rfl
    | cons step path =>
      -- nothing stands before the first dot
      have hsplit := splitOn_parts (U := U) (l := []) List.not_mem_nil (step :: path)
      have hsteps : steps U ([] ++ (step :: path).flatMap fun s => '.'.toNat :: part U s) =
          .error .indexError := by
        rw [steps, if_neg (by simp), hsplit]
        rfl
      change parent U _ = _
      rw [parent]
      exact congrArg (· >>= _) hsteps

/-- What the methods do to the string of a location. -/
structure Spelled (U : PyInt.Unicode) (loc : Loc) (s : PyStr) : Prop where
  unique : ∀ loc', Spells U loc' s → loc' = loc
  N : ∀ idx s', LocString.N U s idx = .ok s' ↔ Spells U (loc.N idx) s'
  L : ∀ idx s', LocString.L U s idx = .ok s' ↔ Spells U (loc.L idx) s'
  M : ∀ idx s', LocString.M U s idx = .ok s' ↔ Spells U (loc.M idx) s'
  parent : ParentAlike U loc s

/-- The locations that are kept as their steps stand for the strings of the controller. -/
theorem spelled_of_spells {loc : Loc} {s : PyStr} (h : Spells U loc s) : Spelled U loc s where
  unique _ h' := spells_inj h' h
  N idx _ := (spells_append h ⟨.N, idx⟩).symm
  L idx _ := (spells_append h ⟨.L, idx⟩).symm
  M idx _ := (spells_append h ⟨.M, idx⟩).symm
  parent := parentAlike h

/-- The second round of a loop, and the round before it. -/
theorem spelled_loop :
    Spelled (.ascii 4300) ((Loc.root.N 3).L 1) (pyStr "-.N3.L1") ∧
      Spells (.ascii 4300) ((Loc.root.N 3).L 0) (pyStr "-.N3.L0") :=
  ⟨spelled_of_spells (by decide), by decide⟩

/-! ## Foreign strings -/

/-- The part starts with a character that no step starts with. -/
def Foreign (part : PyStr) : Prop := ∃ c cs, part = c :: cs ∧ c ≠ '-'.toNat ∧ kind? c = none

/-- The part is a dash with anything behind it, or a letter and an integer. -/
def Readable (U : PyInt.Unicode) (part : PyStr) : Prop :=
  ∃ c cs, part = c :: cs ∧ (c = '-'.toNat ∨ (kind? c).isSome ∧ (PyInt.int U cs).isSome)

/-- Up to the first foreign part all parts are readable. -/
def ReadableUpTo (U : PyInt.Unicode) (parts : List PyStr) : Prop :=
  ∀ before part after, parts = before ++ part :: after →
    (∀ p ∈ before, ¬ Foreign p) → Foreign part ∨ Readable U part

theorem readStep_cases (U : PyInt.Unicode) (loc part : PyStr) :
    (Foreign part ∧ readStep U loc part = .error (.tierkreisError (pyStr "Invalid Loc: " ++ loc))) ∨
      (¬ Foreign part ∧ Readable U part ∧ ∃ step, readStep U loc part = .ok step) ∨
      (¬ Foreign part ∧ ¬ Readable U part ∧ ∃ e, readStep U loc part = .error e ∧
        ∀ text, e ≠ .tierkreisError text) := by
  cases part with
  | nil =>
    refine .inr (.inr ⟨?_, ?_, _, rfl, fun text h => by cases h⟩)
    · rintro ⟨c, cs, h, -⟩
      cases h
    · rintro ⟨c, cs, h, -⟩
      cases h
  | cons c cs =>
    rw [readStep]
    by_cases hdash : c = '-'.toNat
    · refine .inr (.inl ⟨?_, ⟨c, cs, rfl, .inl hdash⟩, .dash, if_pos hdash⟩)
      rintro ⟨d, ds, h, hne, -⟩
      cases h
      exact hne hdash
    · rw [if_neg hdash]
      cases hkind : kind? c with
      | none => exact .inl ⟨⟨c, cs, rfl, hdash, hkind⟩, rfl⟩
      | some kind =>
        have hforeign : ¬ Foreign (c :: cs) := by
          rintro ⟨d, ds, h, -, hnone⟩
          cases h
          rw [hkind] at hnone
          cases hnone
        dsimp only
        cases hint : PyInt.int U cs with
        | some idx =>
          refine .inr (.inl ⟨hforeign, ⟨c, cs, rfl, .inr ⟨?_, ?_⟩⟩, _, rfl⟩)
          · rw [hkind]
            rfl
          · rw [hint]
            rfl
        | none =>
          refine .inr (.inr ⟨hforeign, ?_, _, rfl, fun text h => by cases h⟩)
          rintro ⟨d, ds, h, hd⟩
          cases h
          rcases hd with hd | ⟨-, hd⟩
          · exact hdash hd
          · rw [hint] at hd
            cases hd

theorem readableUpTo_cons {part : PyStr} {parts : List PyStr} :
    ReadableUpTo U (part :: parts) ↔
      Foreign part ∨ Readable U part ∧ (¬ Foreign part → ReadableUpTo U parts) := by
  constructor
  · intro h
    refine or_iff_not_imp_left.2 fun hforeign => ?_
    refine ⟨(h [] part parts rfl nofun).resolve_left hforeign, fun _ before p after heq hbefore => ?_⟩
    exact h (part :: before) p after (by rw [heq]; rfl)
      (List.forall_mem_cons.2 ⟨hforeign, hbefore⟩)
  · intro h before p after heq hbefore
    cases before with
    | nil =>
      obtain ⟨rfl, -⟩ := List.cons.inj heq
      exact h.imp_right And.left
    | cons q before =>
      obtain ⟨rfl, hrest⟩ := List.cons.inj heq
      obtain ⟨hforeign, hbefore⟩ := List.forall_mem_cons.1 hbefore
      exact (h.resolve_left hforeign).2 hforeign before p after hrest hbefore

theorem mapM_readStep_iff {loc : PyStr} {parts : List PyStr} :
    (∀ e, parts.mapM (readStep U loc) = .error e → ∃ text, e = .tierkreisError text) ↔
      ReadableUpTo U parts := by
  induction parts with
  | nil =>
    refine iff_of_true nofun fun before p after heq => ?_
    exact absurd heq (by simp)
  | cons part parts ih =>
    rw [readableUpTo_cons, List.mapM_cons]
    rcases readStep_cases U loc part with ⟨hforeign, heq⟩ | ⟨hforeign, hreadable, step, heq⟩ |
      ⟨hforeign, hreadable, e, heq, he⟩
    · rw [heq]
      refine iff_of_true (fun e h => ?_) (.inl hforeign)
      cases h
      exact ⟨_, rfl⟩
    · rw [heq, ok_bind]
      have hrest : ReadableUpTo U parts ↔
          (Foreign part ∨ Readable U part ∧ (¬ Foreign part → ReadableUpTo U parts)) :=
        ⟨fun h => .inr ⟨hreadable, fun _ => h⟩, fun h => (h.resolve_left hforeign).2 hforeign⟩
      rw [← hrest, ← ih]
      cases parts.mapM (readStep U loc) with
      | error e => exact Iff.rfl
      | ok steps => exact iff_of_true nofun nofun
    · rw [heq]
      refine iff_of_false (fun h => ?_) ?_
      · obtain ⟨text, htext⟩ := h e rfl
        exact he text htext
      · rintro (h | ⟨h, -⟩)
        · exact hforeign h
        · exact hreadable h

/-- What `steps` needs of a string to fail with nothing else than a `TierkreisError`. -/
theorem steps_clean_iff {s : PyStr} :
    (∀ e, steps U s = .error e → ∃ text, e = .tierkreisError text) ↔
      s = [] ∨ ReadableUpTo U (s.splitOn '.'.toNat) := by
  rw [steps]
  by_cases hs : s = []
  · rw [if_pos hs]
    exact iff_of_true (fun e h => by cases h) (.inl hs)
  · rw [if_neg hs, or_iff_right hs]
    exact mapM_readStep_iff

/-! ## The codec -/

theorem locCodec_iff (U : PyInt.Unicode) (path : List Step) (s : PyStr) :
    LocCodec U path s ↔ s = [] ∨ ReadableUpTo U (s.splitOn '.'.toNat) := by
  rw [← steps_clean_iff]
  constructor
  · exact fun h => h.clean
  · intro hclean
    refine ⟨fun l hl => ?_, fun l hl => ?_, fun l hl => ?_, fun l hl => ?_,
      fun path' l hl hl' => ?_, hclean⟩
    · obtain ⟨hw, rfl⟩ := build_eq_ok_iff.1 hl
      exact fromSteps_steps hw
    · obtain ⟨hw, rfl⟩ := build_eq_ok_iff.1 hl
      exact putLast_popLast hw
    · obtain ⟨hw, rfl⟩ := build_eq_ok_iff.1 hl
      exact putFirst_popFirst hw
    · obtain ⟨hw, rfl⟩ := build_eq_ok_iff.1 hl
      exact ⟨_, partialLocs_textOf hw, mapM_build_inits hw⟩
    · obtain ⟨hw, rfl⟩ := build_eq_ok_iff.1 hl
      obtain ⟨hw', heq⟩ := build_eq_ok_iff.1 hl'
      exact textOf_inj hw hw' heq

/-- An empty step at the end. -/
theorem not_locCodec : ¬ LocCodec (.ascii 4300) [] (pyStr "-.") := by
  intro h
  obtain ⟨text, htext⟩ := h.clean .indexError (by decide)
  cases htext

end Tierkreis.Controller.LocString
