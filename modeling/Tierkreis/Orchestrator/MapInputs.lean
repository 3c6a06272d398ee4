import Tierkreis.Orchestrator.Steps

/-!
# Splitting the inputs of a map

The input sets of the elements are made from the first mapped port that is
unfolded and filled from all of them, in the iteration order of a set. Each
element is meant to get its own item of every mapped port and the other inputs
as they are.
-/

namespace Tierkreis

open Lib
open Lib.StateExcept

/-! ## Filling the input sets -/

def unwrapText : String := "called `Option::unwrap()` on a `None` value"

theorem insertMapped_of_le {port : String} {assets : List AssetSpec} :
    ∀ {sets : List Specs}, assets.length ≤ sets.length →
      ∃ rows, insertMapped port assets sets = .ok rows ∧ rows.length = sets.length := by
  induction assets with
  | nil => exact fun {sets} _ => ⟨sets, rfl, rfl⟩
  | cons asset assets ih =>
    intro sets h
    cases sets with
    | nil => simp at h
    | cons set sets =>
      obtain ⟨rows, hrows, hlen⟩ := ih (Nat.le_of_succ_le_succ h)
      refine ⟨set.insert port asset :: rows, ?_, by simp [hlen]⟩
      rw [insertMapped, hrows]
      rfl

/-- As many assets as sets: one goes into each, and nothing else changes. -/
theorem insertMapped_of_length {port : String} {assets : List AssetSpec} :
    ∀ {sets : List Specs}, assets.length = sets.length →
      ∃ rows, insertMapped port assets sets = .ok rows ∧
        List.Forall₂ (fun row set => ∀ p, p ≠ port → HashMap.get? row p = HashMap.get? set p)
          rows sets ∧
        List.Forall₂ (fun row asset => HashMap.get? row port = some asset) rows assets := by
  induction assets with
  | nil =>
    intro sets h
    rw [List.eq_nil_of_length_eq_zero h.symm]
    exact ⟨[], rfl, .nil, .nil⟩
  | cons asset assets ih =>
    intro sets h
    cases sets with
    | nil => simp at h
    | cons set sets =>
      obtain ⟨rows, hrows, hother, hport⟩ := ih (Nat.succ.inj h)
      refine ⟨set.insert port asset :: rows, ?_, .cons (fun p hp => ?_) hother, .cons ?_ hport⟩
      · rw [insertMapped, hrows]
        rfl
      · exact HashMap.get?_insert_ne _ _ hp
      · exact HashMap.get?_insert_self _ _ _

/-- More assets than sets are the `unwrap` of an element that is not there. -/
theorem insertMapped_of_lt {port : String} {assets : List AssetSpec} :
    ∀ {sets : List Specs}, sets.length < assets.length →
      insertMapped port assets sets = .error (.panic unwrapText) := by
  induction assets with
  | nil =>
    intro sets h
    simp at h
  | cons asset assets ih =>
    intro sets h
    cases sets with
    | nil => rfl
    | cons set sets =>
      rw [insertMapped, ih (Nat.lt_of_succ_lt_succ h)]
      rfl

/-- The sets to fill: those there are, or a copy of the inputs for each item of a list. -/
def setsFor (inputs : Specs) (size : Nat) (sets : List Specs) : List Specs :=
  if sets.isEmpty then List.replicate size inputs else sets

theorem length_setsFor {inputs : Specs} {size : Nat} {sets : List Specs} :
    (setsFor inputs size sets).length = if sets = [] then size else sets.length := by
  cases sets <;> simp [setsFor]

theorem setsFor_of_length {inputs : Specs} {size : Nat} {sets : List Specs}
    (h : sets.length = size) : setsFor inputs size sets = sets := by
  subst h
  cases sets <;> rfl

theorem setsFor_replicate (inputs : Specs) (size : Nat) :
    setsFor inputs size (List.replicate size inputs) = setsFor inputs size [] :=
  setsFor_of_length (List.length_replicate ..)

section Unfold

variable {O : Orchestrator} {inputs : Specs}

/-- The list at a port, as it is before any is unfolded. -/
abbrev listOf (O : Orchestrator) (A : Assets) (inputs : Specs) : String → Option (List Json) :=
  A.listAt O.codec.toSerde inputs

/-- What unfolding one port does. -/
theorem unfoldInputs_cons_of_none {port : String} {ports : List String} {sets : List Specs}
    {s : PlanState} (h : listOf O s.assets inputs port = none) :
    ∃ text, unfoldInputs O inputs (port :: ports) sets s = .error (.miette text) := by
  obtain ⟨text, ht⟩ := Assets.unfoldAsset_of_listAt_none h
  refine ⟨text, ?_⟩
  rw [unfoldInputs]
  refine bind_of_error ?_
  rw [withAssets, ht]
  rfl

theorem unfoldInputs_cons_of_some {port : String} {s : PlanState} {items : List Json}
    (h : listOf O s.assets inputs port = some items) (hf : s.assets.Fresh) :
    ∃ specs B, B.Fresh ∧ s.assets.Grows B ∧ s.assets.Extends B ∧
      List.Forall₂ (fun spec v => B.loadAssetFromSpec spec = .ok (O.codec.toVec v)) specs items ∧
      ∀ ports sets, unfoldInputs O inputs (port :: ports) sets s =
        (insertMapped port specs (setsFor inputs specs.length sets)).bind fun rows =>
          unfoldInputs O inputs ports rows { s with assets := B } := by
  obtain ⟨specs, B, hu, hB, hg, he, hload⟩ := Assets.unfoldAsset_of_listAt h hf
  refine ⟨specs, B, hB, hg, he, hload, fun ports sets => ?_⟩
  rw [unfoldInputs]
  have hw : withAssets (fun A => A.unfoldAsset O.codec.toSerde inputs port) s =
      .ok (specs, { s with assets := B }) := by
    rw [withAssets, hu]
    rfl
  rw [bind_of_ok hw]
  exact lift_bind _ _

variable {A : Assets} {ports : List String}

/-- A set that holds a value at a port. -/
def Holds (A : Assets) (port : String) (set : Specs) (bytes : Bytes) : Prop :=
  ∃ spec, set.get? port = some spec ∧ A.loadAssetFromSpec spec = .ok bytes

/-- Every asset of the inputs has a key that was given before. -/
def Given (A : Assets) (inputs : Specs) : Prop :=
  ∀ name spec, inputs.get? name = some spec → spec.assetKey < A.fresh

/-- Where the lists that are not empty have one length, no element is missing. -/
theorem unfoldInputs_ne_panic (hk : Given A inputs) {size : Nat} :
    ∀ {ports : List String} {sets : List Specs} {s : PlanState}, s.assets.Fresh →
      A.Extends s.assets →
      (∀ p ∈ ports, ∀ items, listOf O A inputs p = some items → items ≠ [] → items.length = size) →
      (sets = [] ∨ sets.length = size) →
      ∀ text, unfoldInputs O inputs ports sets s ≠ .error (.panic text) := by
  intro ports
  induction ports with
  | nil =>
    intro sets s _ _ _ _ text h
    cases h
  | cons port ports ih =>
    intro sets s hf he hlen hsets text
    have hlist : listOf O s.assets inputs port = listOf O A inputs port := he.listAt hk port
    cases hp : listOf O A inputs port with
    | none =>
      obtain ⟨text', ht⟩ := unfoldInputs_cons_of_none (hlist.trans hp)
      rw [ht]
      exact nofun
    | some items =>
      obtain ⟨specs, B, hB, -, heB, hload, hstep⟩ := unfoldInputs_cons_of_some (hlist.trans hp) hf
      have hspecs := hload.length_eq
      have hle : specs.length ≤ (setsFor inputs specs.length sets).length := by
        rw [length_setsFor]
        split
        · exact Nat.le_refl _
        · rename_i hne
          by_cases hi : items = []
          · simp [hspecs, hi]
          · rw [hspecs, hlen port (.head _) items hp hi, hsets.resolve_left hne]
      obtain ⟨rows, hrows, hlenRows⟩ := insertMapped_of_le hle
      rw [hstep, hrows]
      refine ih hB (he.trans heB) (fun p hm => hlen p (.tail _ hm)) ?_ text
      rw [length_setsFor] at hlenRows
      split at hlenRows
      · by_cases hi : items = []
        · refine .inl (List.eq_nil_of_length_eq_zero ?_)
          rw [hlenRows, hspecs, hi]
          rfl
        · exact .inr (hlenRows.trans (hspecs.trans (hlen port (.head _) items hp hi)))
      · rename_i hne
        exact .inr (hlenRows.trans (hsets.resolve_left hne))

/-- A longer list after a shorter one that is not empty. -/
theorem unfoldInputs_panics (hk : Given A inputs) {p q : String} {xs ys : List Json}
    {s : PlanState} (hs : s.assets = A) (hf : A.Fresh) (hp : listOf O A inputs p = some xs)
    (hq : listOf O A inputs q = some ys) (hx : xs ≠ []) (hlt : xs.length < ys.length) :
    unfoldInputs O inputs (p :: q :: ports) [] s = .error (.panic unwrapText) := by
  subst hs
  obtain ⟨specs, B, hB, -, heB, hload, hstep⟩ := unfoldInputs_cons_of_some hp hf
  have hle : specs.length ≤ (setsFor inputs specs.length []).length := by
    rw [length_setsFor]
    exact Nat.le_refl _
  obtain ⟨rows, hrows, hlenRows⟩ := insertMapped_of_le hle
  have hlenRows' : rows.length = xs.length := by
    rw [hlenRows, length_setsFor, if_pos rfl, hload.length_eq]
  rw [hstep, hrows]
  have hq' : listOf O B inputs q = some ys := (heB.listAt hk q).trans hq
  obtain ⟨specs', B', -, -, -, hload', hstep'⟩ :=
    unfoldInputs_cons_of_some (s := { s with assets := B }) hq' hB
  change unfoldInputs O inputs (q :: ports) rows { s with assets := B } = _
  have hne : rows ≠ [] := by
    rintro rfl
    exact hx (List.eq_nil_of_length_eq_zero hlenRows'.symm)
  have hlt' : (setsFor inputs specs'.length rows).length < specs'.length := by
    rw [length_setsFor, if_neg hne, hlenRows', hload'.length_eq]
    exact hlt
  rw [hstep', insertMapped_of_lt hlt']
  rfl

/-- Lists of one length fill the sets, in whatever order they are unfolded. -/
theorem unfoldInputs_ok (hk : Given A inputs) :
    ∀ {ports : List String} {sets : List Specs} {s : PlanState}, s.assets.Fresh →
      A.Extends s.assets → ports.Nodup →
      (∀ p ∈ ports, ∃ items, listOf O A inputs p = some items ∧ items.length = sets.length) →
      ∃ rows t, unfoldInputs O inputs ports sets s = .ok (rows, t) ∧ s.assets.Grows t.assets ∧
        List.Forall₂ (fun row set => ∀ p, p ∉ ports → HashMap.get? row p = HashMap.get? set p)
          rows sets ∧
        ∀ p ∈ ports, ∀ items, listOf O A inputs p = some items →
          List.Forall₂ (Holds t.assets p) rows (items.map O.codec.toVec) := by
  intro ports
  induction ports with
  | nil =>
    intro sets s _ _ _ _
    refine ⟨sets, s, rfl, .refl _, List.forall₂_same.2 fun _ _ _ _ => rfl, nofun⟩
  | cons port ports ih =>
    intro sets s hf he hn hlen
    obtain ⟨hport, hn⟩ := List.nodup_cons.1 hn
    obtain ⟨items, hp, hl⟩ := hlen port (.head _)
    have hlist : listOf O s.assets inputs port = some items := (he.listAt hk port).trans hp
    obtain ⟨specs, B, hB, hg, heB, hload, hstep⟩ := unfoldInputs_cons_of_some hlist hf
    have hspecs : specs.length = sets.length := hload.length_eq.trans hl
    obtain ⟨rows, hrows, hother, hhere⟩ := insertMapped_of_length hspecs
    have hlenRows : ∀ p ∈ ports, ∃ items, listOf O A inputs p = some items ∧
        items.length = rows.length := by
      intro p hm
      obtain ⟨items', hp', hl'⟩ := hlen p (.tail _ hm)
      exact ⟨items', hp', hl'.trans hother.length_eq.symm⟩
    obtain ⟨rows', t, hu, hgt, hkeep, hfill⟩ :=
      ih (s := { s with assets := B }) hB (he.trans heB) hn hlenRows
    refine ⟨rows', t, ?_, hg.trans hgt, ?_, ?_⟩
    · rw [hstep, setsFor_of_length hspecs.symm, hrows]
      exact hu
    · refine forall₂_comp (fun row' row set hr hs p hp => ?_) hkeep hother
      rw [List.mem_cons, not_or] at hp
      exact (hr p hp.2).trans (hs p hp.1)
    · intro p hm items' hp'
      rcases List.mem_cons.1 hm with rfl | hm
      · rw [hp] at hp'
        cases hp'
        rw [List.forall₂_map_right_iff]
        refine forall₂_comp (fun row' row item hr hrow => ?_) hkeep (forall₂_comp
          (T := fun row item => Holds B p row (O.codec.toVec item)) (fun row spec item h h' => ?_)
            hhere hload)
        · obtain ⟨spec, hget, hl⟩ := hrow
          exact ⟨spec, (hr p hport).trans hget, hgt _ _ hl⟩
        · exact ⟨spec, h, h'⟩
      · exact hfill p hm items' hp'

end Unfold

/-! ## The elements of a map -/

section Split

variable (O : Orchestrator)

/-- Each element has its own item of every mapped port, and the other inputs as they were. -/
structure IsSplit (A : Assets) (inputs : Specs) (mappedPorts : List String) (sets : List Specs)
    (B : Assets) : Prop where
  grows : A.Grows B
  mapped : ∀ p ∈ mappedPorts, ∃ items, listOf O A inputs p = some items ∧
    List.Forall₂ (Holds B p) sets (items.map O.codec.toVec)
  other : ∀ set ∈ sets, ∀ p, p ∉ mappedPorts → set.get? p = inputs.get? p

/-- Two inputs are the same asset, or hold the same bytes. -/
def SameInput (B B' : Assets) (input input' : Option AssetSpec) : Prop :=
  input = input' ∨ ∃ spec spec' bytes, input = some spec ∧ input' = some spec' ∧
    B.loadAssetFromSpec spec = .ok bytes ∧ B'.loadAssetFromSpec spec' = .ok bytes

def SameElements (B B' : Assets) (sets sets' : List Specs) : Prop :=
  List.Forall₂ (fun set set' => ∀ p, SameInput B B' (HashMap.get? set p) (HashMap.get? set' p))
    sets sets'

/-- In every order of the mapped ports: no panic, and what is planned is the one split. -/
def SplitsInputs (ctx : OrchestrationContext) (g : WorkflowGraph) (nodeStates : NodeStates)
    (mappedPorts : List String) (n : NodeIndex) (s : PlanState) : Prop :=
  ∀ order, order.Perm mappedPorts →
    (∀ text, buildInitialMapActions O ctx g nodeStates order n s ≠ .error (.panic text)) ∧
    ∀ actions t, buildInitialMapActions O ctx g nodeStates order n s = .ok (actions, t) →
      ∃ inputs sets, collectInputs g nodeStates ctx.parentLoc n = .ok inputs ∧
        actions = [⟨ctx.parentLoc.withNode n, .setRunningMap sets⟩] ∧
        IsSplit O s.assets (inputs.erase "graph") mappedPorts sets t.assets ∧
        ∀ order', order'.Perm mappedPorts → ∃ sets' t',
          buildInitialMapActions O ctx g nodeStates order' n s =
            .ok ([⟨ctx.parentLoc.withNode n, .setRunningMap sets'⟩], t') ∧
          SameElements t.assets t'.assets sets sets'

/-- Lists that are not empty agree in their lengths, and so do all of them where each mapped
port holds one. -/
structure LengthsAgree (A : Assets) (inputs : Specs) (mappedPorts : List String) : Prop where
  nonempty : ∀ p ∈ mappedPorts, ∀ q ∈ mappedPorts, ∀ xs ys, listOf O A inputs p = some xs →
    listOf O A inputs q = some ys → xs ≠ [] → ys ≠ [] → xs.length = ys.length
  all : (∀ p ∈ mappedPorts, (listOf O A inputs p).isSome) →
    ∀ p ∈ mappedPorts, ∀ q ∈ mappedPorts, ∀ xs ys, listOf O A inputs p = some xs →
      listOf O A inputs q = some ys → xs.length = ys.length

variable {O}

theorem sameElements_of_isSplit {A B B' : Assets} {inputs : Specs} {ports : List String}
    {sets sets' : List Specs} (h : IsSplit O A inputs ports sets B)
    (h' : IsSplit O A inputs ports sets' B') (hp : ports ≠ []) :
    SameElements B B' sets sets' := by
  have hlen : sets.length = sets'.length := by
    obtain ⟨p, hm⟩ := List.exists_mem_of_ne_nil _ hp
    obtain ⟨items, hi, hs⟩ := h.mapped p hm
    obtain ⟨items', hi', hs'⟩ := h'.mapped p hm
    rw [hi] at hi'
    cases hi'
    exact hs.length_eq.trans hs'.length_eq.symm
  refine List.forall₂_of_length_eq_of_get hlen fun i hi hi' p => ?_
  by_cases hm : p ∈ ports
  · obtain ⟨items, hitems, hs⟩ := h.mapped p hm
    obtain ⟨items', hitems', hs'⟩ := h'.mapped p hm
    rw [hitems] at hitems'
    cases hitems'
    obtain ⟨spec, hget, hload⟩ := hs.get hi (hs.length_eq ▸ hi)
    obtain ⟨spec', hget', hload'⟩ := hs'.get hi' (hs'.length_eq ▸ hi')
    exact .inr ⟨spec, spec', _, hget, hget', hload, hload'⟩
  · refine .inl ?_
    rw [h.other _ (List.get_mem _ _) p hm, h'.other _ (List.get_mem _ _) p hm]

/-! ## What is planned -/

variable {ctx : OrchestrationContext} {g : WorkflowGraph} {nodeStates : NodeStates}
  {mappedPorts : List String} {n : NodeIndex} {s : PlanState} {inputs : Specs}

theorem buildInitialMapActions_of_error {e : Failure}
    (h : collectInputs g nodeStates ctx.parentLoc n = .error e) :
    buildInitialMapActions O ctx g nodeStates mappedPorts n s = .error e := by
  rw [buildInitialMapActions, h]
  rfl

theorem buildInitialMapActions_of_ok (h : collectInputs g nodeStates ctx.parentLoc n = .ok inputs) :
    buildInitialMapActions O ctx g nodeStates mappedPorts n s =
      (unfoldInputs O (inputs.erase "graph") mappedPorts [] s).map fun r =>
        ([⟨ctx.parentLoc.withNode n, .setRunningMap r.1⟩], r.2) := by
  rw [buildInitialMapActions, h]
  cases hu : unfoldInputs O (inputs.erase "graph") mappedPorts [] s with
  | error e =>
    refine (bind_of_ok (lift_eq_ok.2 ⟨rfl, rfl⟩)).trans ?_
    rw [bind_of_error hu]
    rfl
  | ok r =>
    refine (bind_of_ok (lift_eq_ok.2 ⟨rfl, rfl⟩)).trans ?_
    rw [bind_of_ok hu]
    rfl

theorem linkedOutput_eq_error {parentLoc : Location} {port : OutPort} {e : Failure}
    (h : linkedOutput nodeStates parentLoc port = .error e) : ∃ text, e = .miette text := by
  unfold linkedOutput at h
  cases hs : nodeStates.get? (parentLoc.withNode port.node) with
  | none =>
    rw [hs] at h
    cases h
    exact ⟨_, rfl⟩
  | some state =>
    rw [hs] at h
    change (okOr state.outputs _ >>= _) = _ at h
    cases ho : state.outputs with
    | none =>
      rw [ho] at h
      cases h
      exact ⟨_, rfl⟩
    | some outputs =>
      rw [ho] at h
      exact ⟨_, okOr_eq_error h⟩

theorem collectLinks_eq_error {parentLoc : Location} {links : List (String × OutPort)}
    {e : Failure} : ∀ {inputs : Specs}, collectLinks nodeStates parentLoc links inputs = .error e →
      ∃ text, e = .miette text := by
  induction links with
  | nil => exact nofun
  | cons link links ih =>
    intro inputs h
    rw [collectLinks] at h
    cases hl : linkedOutput nodeStates parentLoc link.2 with
    | error e' =>
      rw [hl] at h
      cases h
      exact linkedOutput_eq_error hl
    | ok spec =>
      rw [hl] at h
      exact ih h

/-- Every output of the nodes has a key that was given before. -/
def GivenOutputs (A : Assets) (nodeStates : NodeStates) : Prop :=
  ∀ loc state outputs, nodeStates.get? loc = some state → state.outputs = some outputs →
    Given A outputs

theorem given_insert {A : Assets} {name : String} {spec : AssetSpec} (h : Given A inputs)
    (hs : spec.assetKey < A.fresh) : Given A (inputs.insert name spec) := by
  intro name' spec' hget
  rw [HashMap.get?_insert] at hget
  split at hget
  · cases hget
    exact hs
  · exact h name' spec' hget

theorem given_erase {A : Assets} {name : String} (h : Given A inputs) :
    Given A (inputs.erase name) := by
  intro name' spec' hget
  rw [HashMap.get?_erase] at hget
  split at hget
  · cases hget
  · exact h name' spec' hget

theorem given_linkedOutput {A : Assets} {parentLoc : Location} {port : OutPort} {spec : AssetSpec}
    (hg : GivenOutputs A nodeStates) (h : linkedOutput nodeStates parentLoc port = .ok spec) :
    spec.assetKey < A.fresh := by
  rw [linkedOutput, Result.bind_eq_ok] at h
  obtain ⟨state, hs, h⟩ := h
  obtain ⟨outputs, ho, h⟩ := Result.bind_eq_ok.1 h
  exact hg _ state outputs (okOr_eq_ok.1 hs) (okOr_eq_ok.1 ho) _ spec (okOr_eq_ok.1 h)

theorem given_collectLinks {A : Assets} {parentLoc : Location} {links : List (String × OutPort)}
    (hg : GivenOutputs A nodeStates) : ∀ {inputs collected : Specs}, Given A inputs →
      collectLinks nodeStates parentLoc links inputs = .ok collected → Given A collected := by
  induction links with
  | nil =>
    intro inputs collected hi h
    cases h
    exact hi
  | cons link links ih =>
    intro inputs collected hi h
    rw [collectLinks, Result.bind_eq_ok] at h
    obtain ⟨spec, hs, h⟩ := h
    exact ih (given_insert hi (given_linkedOutput hg hs)) h

theorem given_collectInputs {A : Assets} {parentLoc : Location}
    (hg : GivenOutputs A nodeStates) (h : collectInputs g nodeStates parentLoc n = .ok inputs) :
    Given A (inputs.erase "graph") := by
  have hempty : Given A ∅ := fun _ _ hget => by cases hget
  exact given_erase (given_collectLinks hg hempty h)

/-- A table comes out only where every port holds a list. -/
theorem isSome_of_unfoldInputs {A : Assets} (hk : Given A inputs) :
    ∀ {ports : List String} {sets : List Specs} {s : PlanState} {r : List Specs × PlanState},
      s.assets.Fresh → A.Extends s.assets → unfoldInputs O inputs ports sets s = .ok r →
      ∀ p ∈ ports, (listOf O A inputs p).isSome := by
  intro ports
  induction ports with
  | nil => exact fun _ _ _ => nofun
  | cons port ports ih =>
    intro sets s r hf he h p hm
    have hlist : listOf O s.assets inputs port = listOf O A inputs port := he.listAt hk port
    cases hp : listOf O A inputs port with
    | none =>
      obtain ⟨text, ht⟩ := unfoldInputs_cons_of_none (hlist.trans hp)
      rw [ht] at h
      cases h
    | some items =>
      rcases List.mem_cons.1 hm with rfl | hm
      · rw [hp]
        rfl
      · obtain ⟨specs, B, hB, -, heB, -, hstep⟩ := unfoldInputs_cons_of_some (hlist.trans hp) hf
        rw [hstep] at h
        cases hrows : insertMapped port specs (setsFor inputs specs.length sets) with
        | error e =>
          rw [hrows] at h
          cases h
        | ok rows =>
          rw [hrows] at h
          exact ih hB (he.trans heB) h p hm

theorem insertMapped_eq_error {port : String} {assets : List AssetSpec} {sets : List Specs}
    {e : Failure} (h : insertMapped port assets sets = .error e) : e = .panic unwrapText := by
  rcases Nat.lt_or_ge sets.length assets.length with hlt | hle
  · rw [insertMapped_of_lt hlt] at h
    exact (Except.error.inj h).symm
  · obtain ⟨rows, hrows, -⟩ := insertMapped_of_le hle
    rw [hrows] at h
    cases h

/-- Where every port holds a list, the only failure is the `unwrap`. -/
theorem unfoldInputs_eq_error {A : Assets} (hk : Given A inputs) {e : Failure} :
    ∀ {ports : List String} {sets : List Specs} {s : PlanState}, s.assets.Fresh →
      A.Extends s.assets → (∀ p ∈ ports, (listOf O A inputs p).isSome) →
      unfoldInputs O inputs ports sets s = .error e → e = .panic unwrapText := by
  intro ports
  induction ports with
  | nil => exact nofun
  | cons port ports ih =>
    intro sets s hf he hall h
    obtain ⟨items, hp⟩ := Option.isSome_iff_exists.1 (hall port (.head _))
    obtain ⟨specs, B, hB, -, heB, -, hstep⟩ :=
      unfoldInputs_cons_of_some ((he.listAt hk port).trans hp) hf
    rw [hstep] at h
    cases hrows : insertMapped port specs (setsFor inputs specs.length sets) with
    | error e' =>
      rw [hrows] at h
      cases h
      exact insertMapped_eq_error hrows
    | ok rows =>
      rw [hrows] at h
      exact ih hB (he.trans heB) (fun p hm => hall p (.tail _ hm)) h

/-- Lists of one length are split, in whatever order. -/
theorem unfoldInputs_split {ports : List String} (hk : Given s.assets inputs)
    (hf : s.assets.Fresh) (hn : ports.Nodup)
    (hall : ∀ p ∈ ports, (listOf O s.assets inputs p).isSome)
    (hlen : ∀ p ∈ ports, ∀ q ∈ ports, ∀ xs ys, listOf O s.assets inputs p = some xs →
      listOf O s.assets inputs q = some ys → xs.length = ys.length) :
    ∃ sets t, unfoldInputs O inputs ports [] s = .ok (sets, t) ∧
      IsSplit O s.assets inputs ports sets t.assets ∧ (ports = [] → sets = []) := by
  cases ports with
  | nil => exact ⟨[], s, rfl, ⟨.refl _, nofun, nofun⟩, fun _ => rfl⟩
  | cons p ports =>
    obtain ⟨xs, hx⟩ := Option.isSome_iff_exists.1 (hall p (.head _))
    have hlists : ∀ q ∈ p :: ports, ∃ items, listOf O s.assets inputs q = some items ∧
        items.length = (List.replicate xs.length inputs).length := by
      intro q hq
      obtain ⟨ys, hy⟩ := Option.isSome_iff_exists.1 (hall q hq)
      exact ⟨ys, hy, by rw [List.length_replicate, hlen p (.head _) q hq xs ys hx hy]⟩
    obtain ⟨sets, t, hu, hg, hother, hmapped⟩ := unfoldInputs_ok hk hf (.refl _) hn hlists
    -- The first list makes the sets that the run is given here.
    have hstart : unfoldInputs O inputs (p :: ports) [] s =
        unfoldInputs O inputs (p :: ports) (List.replicate xs.length inputs) s := by
      obtain ⟨specs, B, -, -, -, hload, hstep⟩ := unfoldInputs_cons_of_some hx hf
      rw [hstep, hstep, ← hload.length_eq, setsFor_replicate]
    refine ⟨sets, t, hstart.trans hu, ⟨hg, fun q hq => ?_, fun set hs q hq => ?_⟩, nofun⟩
    · obtain ⟨items, hi, -⟩ := hlists q hq
      exact ⟨items, hi, hmapped q hq items hi⟩
    · obtain ⟨i, hi, rfl⟩ := List.getElem_of_mem hs
      have hi' : i < (List.replicate xs.length inputs).length := hother.length_eq ▸ hi
      have h := hother.get hi hi' q hq
      simpa using h

theorem exists_perm_cons_cons {p q : String} {order : List String} (hp : p ∈ order) (hq : q ∈ order)
    (hpq : p ≠ q) : ∃ rest, (p :: q :: rest).Perm order := by
  have hq' : q ∈ order.erase p := (List.mem_erase_of_ne hpq.symm).2 hq
  refine ⟨(order.erase p).erase q, ?_⟩
  exact ((List.perm_cons_erase hq').symm.cons p).trans (List.perm_cons_erase hp).symm

/-- Two lists of different lengths, neither empty, are split wrongly in one order: the one
with the shorter first. -/
theorem length_eq_of_splitsInputs (hf : s.assets.Fresh) (hg : GivenOutputs s.assets nodeStates)
    (hc : collectInputs g nodeStates ctx.parentLoc n = .ok inputs)
    (h : SplitsInputs O ctx g nodeStates mappedPorts n s) {p q : String} (hp : p ∈ mappedPorts)
    (hq : q ∈ mappedPorts) {xs ys : List Json}
    (hx : listOf O s.assets (inputs.erase "graph") p = some xs)
    (hy : listOf O s.assets (inputs.erase "graph") q = some ys) (hxs : xs ≠ []) :
    ys.length ≤ xs.length := by
  by_contra hlt
  have hlt' : xs.length < ys.length := Nat.lt_of_not_le hlt
  have hpq : p ≠ q := by
    rintro rfl
    rw [hx] at hy
    cases hy
    exact Nat.lt_irrefl _ hlt'
  obtain ⟨rest, hperm⟩ := exists_perm_cons_cons hp hq hpq
  refine (h _ hperm).1 unwrapText ?_
  rw [buildInitialMapActions_of_ok hc,
    unfoldInputs_panics (given_collectInputs hg hc) rfl hf hx hy hxs hlt']
  rfl

theorem lengthsAgree_of_splitsInputs (hf : s.assets.Fresh)
    (hg : GivenOutputs s.assets nodeStates)
    (hc : collectInputs g nodeStates ctx.parentLoc n = .ok inputs)
    (h : SplitsInputs O ctx g nodeStates mappedPorts n s) :
    LengthsAgree O s.assets (inputs.erase "graph") mappedPorts where
  nonempty p hp q hq xs ys hx hy hxs hys :=
    Nat.le_antisymm (length_eq_of_splitsInputs hf hg hc h hq hp hy hx hys)
      (length_eq_of_splitsInputs hf hg hc h hp hq hx hy hxs)
  all hall p hp q hq xs ys hx hy := by
    have hk := given_collectInputs hg hc
    obtain ⟨hpanic, hok⟩ := h mappedPorts (.refl _)
    cases hb : buildInitialMapActions O ctx g nodeStates mappedPorts n s with
    | ok r =>
      obtain ⟨inputs', sets, hc', -, hsplit, -⟩ := hok r.1 r.2 hb
      rw [hc] at hc'
      cases hc'
      obtain ⟨xs', hx', hfx⟩ := hsplit.mapped p hp
      obtain ⟨ys', hy', hfy⟩ := hsplit.mapped q hq
      rw [hx] at hx'
      rw [hy] at hy'
      cases hx'
      cases hy'
      have := hfx.length_eq.symm.trans hfy.length_eq
      simpa using this
    | error e =>
      refine absurd ?_ (hpanic unwrapText)
      rw [buildInitialMapActions_of_ok hc] at hb ⊢
      cases hu : unfoldInputs O (inputs.erase "graph") mappedPorts [] s with
      | ok r =>
        rw [hu] at hb
        cases hb
      | error e' =>
        rw [unfoldInputs_eq_error hk hf (.refl _) hall hu]
        rfl

theorem splitsInputs_of_lengthsAgree (hf : s.assets.Fresh)
    (hg : GivenOutputs s.assets nodeStates) (hn : mappedPorts.Nodup)
    (hc : collectInputs g nodeStates ctx.parentLoc n = .ok inputs)
    (h : LengthsAgree O s.assets (inputs.erase "graph") mappedPorts) :
    SplitsInputs O ctx g nodeStates mappedPorts n s := by
  have hk := given_collectInputs hg hc
  intro order hperm
  rw [buildInitialMapActions_of_ok hc]
  refine ⟨fun text => ?_, fun actions t hb => ?_⟩
  · -- The nonempty lists have one length, whichever comes first.
    have hsize : ∃ size, ∀ p ∈ order, ∀ items,
        listOf O s.assets (inputs.erase "graph") p = some items → items ≠ [] →
          items.length = size := by
      by_cases hex : ∃ p ∈ order, ∃ items,
          listOf O s.assets (inputs.erase "graph") p = some items ∧ items ≠ []
      · obtain ⟨p, hp, items, hi, hne⟩ := hex
        refine ⟨items.length, fun q hq items' hi' hne' => ?_⟩
        exact h.nonempty q (hperm.subset hq) p (hperm.subset hp) items' items hi' hi hne' hne
      · exact ⟨0, fun p hp items hi hne => absurd ⟨p, hp, items, hi, hne⟩ hex⟩
    obtain ⟨size, hsize⟩ := hsize
    have hne := unfoldInputs_ne_panic hk hf (.refl _) hsize (.inl rfl) text
    cases hu : unfoldInputs O (inputs.erase "graph") order [] s with
    | ok r => exact nofun
    | error e =>
      intro he
      cases he
      exact hne hu
  · cases hu : unfoldInputs O (inputs.erase "graph") order [] s with
    | error e =>
      rw [hu] at hb
      cases hb
    | ok r =>
      have hall : ∀ p ∈ mappedPorts,
          (listOf O s.assets (inputs.erase "graph") p).isSome := fun p hp =>
        isSome_of_unfoldInputs hk hf (.refl _) hu p (hperm.symm.subset hp)
      have hsplit : ∀ order', order'.Perm mappedPorts → ∃ sets t,
          unfoldInputs O (inputs.erase "graph") order' [] s = .ok (sets, t) ∧
          IsSplit O s.assets (inputs.erase "graph") mappedPorts sets t.assets ∧
          (mappedPorts = [] → sets = []) := by
        intro order' hperm'
        obtain ⟨sets, t, hu', hs, hnil⟩ := unfoldInputs_split hk hf (hperm'.nodup_iff.2 hn)
          (fun p hp => hall p (hperm'.subset hp))
          (fun p hp q hq => h.all hall p (hperm'.subset hp) q (hperm'.subset hq))
        refine ⟨sets, t, hu', ⟨hs.grows, fun p hp => hs.mapped p (hperm'.symm.subset hp),
          fun set hm p hp => hs.other set hm p fun hp' => hp (hperm'.subset hp')⟩, fun he => ?_⟩
        subst he
        exact hnil hperm'.eq_nil
      obtain ⟨sets, t', hu', hs, hnil⟩ := hsplit order hperm
      rw [hu'] at hb
      cases hb
      refine ⟨inputs, sets, hc, rfl, hs, fun order' hperm' => ?_⟩
      obtain ⟨sets', t'', hu'', hs', hnil'⟩ := hsplit order' hperm'
      refine ⟨sets', t'', ?_, ?_⟩
      · rw [buildInitialMapActions_of_ok hc, hu'']
        rfl
      · by_cases he : mappedPorts = []
        · rw [hnil he, hnil' he]
          exact .nil
        · exact sameElements_of_isSplit hs hs' he

/-- The inputs of a map are split as they should be, in every order of the mapped ports,
exactly where the lengths of the lists agree. -/
theorem map_inputs_split_iff (hf : s.assets.Fresh) (hg : GivenOutputs s.assets nodeStates)
    (hn : mappedPorts.Nodup) :
    SplitsInputs O ctx g nodeStates mappedPorts n s ↔
      ∀ inputs, collectInputs g nodeStates ctx.parentLoc n = .ok inputs →
        LengthsAgree O s.assets (inputs.erase "graph") mappedPorts := by
  constructor
  · exact fun h inputs hc => lengthsAgree_of_splitsInputs hf hg hc h
  · intro h
    cases hc : collectInputs g nodeStates ctx.parentLoc n with
    | ok inputs => exact splitsInputs_of_lengthsAgree hf hg hn hc (h inputs hc)
    | error e =>
      intro order _
      obtain ⟨text, rfl⟩ := collectLinks_eq_error hc
      rw [buildInitialMapActions_of_error hc]
      exact ⟨nofun, nofun⟩

end Split

/-! ## Two mapped ports -/

/-- The texts `[0]` and `[0,0]`. -/
def oneZero : Bytes := [91, 48, 93]

def twoZeros : Bytes := [91, 48, 44, 48, 93]

/-- A codec that knows lists of zeros. -/
def zerosCodec : Codec where
  toVec
    | .null => [110, 117, 108, 108]
    | _ => [48]
  fromSlice bytes :=
    if bytes = oneZero then .ok (.arr [.num "0"])
    else if bytes = twoZeros then .ok (.arr [.num "0", .num "0"])
    else .error "expected value"
  graphFromSlice _ := .error "expected value"
  legacyFromSlice _ := .error (.miette "expected value")

def zerosOrchestrator : Orchestrator where
  codec := zerosCodec
  portgraph := .byClosure
  defaultExecutorName := "local"
  defaultStorageName := "memory"

/-- A map over the lists at its ports `a` and `b`. -/
def mapOverTwo : WorkflowGraph where
  nodes := .ofList [
    (0, { definition := .map ["a", "b"] none none, name := none, hasBreakpoint := false
          inputs := [⟨"graph", [⟨1, "graph"⟩]⟩, ⟨"a", [⟨2, "a"⟩]⟩, ⟨"b", [⟨3, "b"⟩]⟩]
          outputs := ["c"] }),
    (1, { definition := .input "graph", name := none, hasBreakpoint := false, inputs := []
          outputs := ["graph"] }),
    (2, { definition := .input "a", name := none, hasBreakpoint := false, inputs := []
          outputs := ["a"] }),
    (3, { definition := .input "b", name := none, hasBreakpoint := false, inputs := []
          outputs := ["b"] }),
    (4, { definition := .output, name := none, hasBreakpoint := false
          inputs := [⟨"c", [⟨0, "c"⟩]⟩], outputs := [] })]
  outputIdx := 4
  output_mem := rfl
  link_mem := by decide

def memoryAsset (key : AssetKey) : AssetSpec :=
  { kind := .memory, storageName := "memory", assetKey := key }

def completeInput (name : String) (key : AssetKey) : NodeState :=
  { outputs := some ((∅ : Specs).insert name (memoryAsset key)) }

/-- The inputs are complete, with the assets of their keys. -/
def inputsComplete : NodeStates :=
  .ofList [([.node 1], completeInput "graph" 0), ([.node 2], completeInput "a" 1),
    ([.node 3], completeInput "b" 2)]

/-- Two lists in the storage. -/
def twoLists (a b : Bytes) : PlanState where
  assets :=
    { registry := .ofList [("memory", { kind := .memory, store := .ofList [(0, []), (1, a), (2, b)] })]
      fresh := 3 }

/-- A list of one item and a list of two, in the order that panics. -/
theorem map_inputs_panic :
    ¬ SplitsInputs zerosOrchestrator {} mapOverTwo inputsComplete ["a", "b"] 0
      (twoLists oneZero twoZeros) := by
  intro h
  exact (h ["a", "b"] (.refl _)).1 unwrapText rfl

theorem fresh_twoLists (a b : Bytes) : (twoLists a b).assets.Fresh := by
  intro name storage key hs hk
  change (HashMap.insert ∅ "memory" _ : HashMap String AssetStorage).get? name = some storage at hs
  change 3 ≤ key at hk
  rw [HashMap.get?_insert] at hs
  split at hs
  · cases hs
    change (((HashMap.insert ∅ 0 [] : HashMap AssetKey Bytes).insert 1 a).insert 2 b).get? key = _
    have hne : ∀ j, j < 3 → key ≠ j := fun j hj he => by omega
    rw [HashMap.get?_insert_ne _ _ (hne 2 (by decide)), HashMap.get?_insert_ne _ _ (hne 1 (by decide)),
      HashMap.get?_insert_ne _ _ (hne 0 (by decide))]
    rfl
  · cases hs

theorem given_completeInput {A : Assets} {name : String} {key : AssetKey} (h : key < A.fresh)
    {outputs : Specs} (ho : (completeInput name key).outputs = some outputs) :
    Given A outputs := by
  cases ho
  exact given_insert (fun _ _ hget => by cases hget) h

theorem givenOutputs_twoLists (a b : Bytes) :
    GivenOutputs (twoLists a b).assets inputsComplete := by
  intro loc state outputs hs ho
  have hm : (loc, state) ∈ [([.node 3], completeInput "b" 2), ([.node 2], completeInput "a" 1),
      ([.node 1], completeInput "graph" 0)] := HashMap.get?_eq_some_iff.1 hs
  simp only [List.mem_cons, Prod.mk.injEq, List.not_mem_nil, or_false] at hm
  rcases hm with ⟨-, rfl⟩ | ⟨-, rfl⟩ | ⟨-, rfl⟩
  · exact given_completeInput (Nat.lt_add_one 2) ho
  · exact given_completeInput (show 1 < 3 by omega) ho
  · exact given_completeInput (show 0 < 3 by omega) ho

theorem map_inputs_split_iff_equal :
    SplitsInputs zerosOrchestrator {} mapOverTwo inputsComplete ["a", "b"] 0
      (twoLists oneZero oneZero) := by
  refine (map_inputs_split_iff (fresh_twoLists _ _) (givenOutputs_twoLists _ _)
    (by decide)).2 fun inputs hc => ?_
  have hlists : ∀ p ∈ ["a", "b"], listOf zerosOrchestrator (twoLists oneZero oneZero).assets
      (inputs.erase "graph") p = some [.num "0"] := by
    cases hc
    intro p hp
    simp only [List.mem_cons, List.not_mem_nil, or_false] at hp
    rcases hp with rfl | rfl
    · rfl
    · rfl
  refine ⟨fun p hp q hq xs ys hx hy _ _ => ?_, fun _ p hp q hq xs ys hx hy => ?_⟩
  all_goals
    rw [hlists p hp] at hx
    rw [hlists q hq] at hy
    cases hx
    cases hy
    rfl

end Tierkreis
