import Tierkreis.Restart.MapBits

/-!
# The graphs along a path

The filter of a restart clears, at each level of the restarted location, the
nodes that depend on the one the path goes through. The graph of a nested level
is looked for along the whole path, from the graph that the level above was
found to have; the orchestrator goes from level to level, and lets an `Eval`
node without a `graph` input run the graph it is in.
-/

namespace Tierkreis

open Lib Lib.Run

/-- Whether a container may run the graph it is in; other nodes run no graph. -/
def containerRecursion (g : WorkflowGraph) (n : NodeIndex) : Option Bool :=
  match g.nodeDefinition n with
  | some (.eval ..) => some true
  | some (.loop ..) | some (.map ..) => some false
  | _ => none

section Levels

variable {σ : Type} [WorkflowRunState σ] (O : Orchestrator) (st : σ) (r : RunAttempt) (A : Assets)

/-- The graph that the orchestrator evaluates at the end of a path of containers, which
begins at `parentLoc` in `g`. -/
def evaluatedFrom : List LocationComponent → WorkflowGraph → Location → Result WorkflowGraph
  | [], g, _ => pure g
  | .node n :: components, g, parentLoc => do
    let nodeStates ← WorkflowRunState.readMany st r (g.nodeIds.map fun m => parentLoc.withNode m)
    let allowRecursion ← okOr (containerRecursion g n) "Node runs no graph"
    let subgraph ← graphInput O { parentLoc := parentLoc } g nodeStates n allowRecursion A
    evaluatedFrom components subgraph (parentLoc.withNode n)
  | .loopIndex index :: components, g, parentLoc =>
    evaluatedFrom components g (parentLoc.withLoopIndex index)
  | .mapIndex index :: components, g, parentLoc =>
    evaluatedFrom components g (parentLoc.withMapIndex index)

variable (workflow : WorkflowGraph) (location : Location)

/-- The graph that is evaluated at a location. -/
def evaluatedAt (w : Location) : Result WorkflowGraph :=
  evaluatedFrom O st r A w workflow Location.root

/-- Every container on the way to the location has been started: its graph can be evaluated. -/
def Started : Prop :=
  ∀ w n components, location = w ++ .node n :: components →
    ∃ g, evaluatedAt O st r A workflow w = .ok g

/-- The filter is built, and clears the location and what depends on it, level by level. -/
def ClearsExactly : Prop :=
  ∃ f, buildNodeCopyFilter O.codec O.portgraph st r A workflow location = .ok f ∧
    ∀ x, x ∈ f.clearRoots ↔ x = location ∨
      ∃ w n components g d, location = w ++ .node n :: components ∧
        evaluatedAt O st r A workflow w = .ok g ∧ g.Reaches n d ∧ d ≠ n ∧ x = Location.withNode w d

/-- Where the `graph` port of a node at `w` leads: to an output in its graph which is stored, with
an asset that is read as `sub`. -/
def GraphStored (h : WorkflowGraph) (w : Location) (n : NodeIndex) (sub : WorkflowGraph) : Prop :=
  ∃ port source nodeStates state outputs spec,
    (h.getInputPort n "graph" = .ok port ∧ port.links.head? = some source) ∧
    WorkflowRunState.readMany st r (h.nodeIds.map fun m => w.withNode m) = .ok nodeStates ∧
    (nodeStates.get? (w.withNode source.node) = some state ∧ state.outputs = some outputs ∧
      outputs.get? source.port = some spec) ∧
    loadSubgraphFromAsset O.codec A spec = .ok sub

/-- The `graph` ports of the nodes on a path that begins at `w` in `h` lead to `g`. -/
inductive GraphsAlong : List LocationComponent → WorkflowGraph → Location → WorkflowGraph → Prop
  | nil (g : WorkflowGraph) (w : Location) : GraphsAlong [] g w g
  | node {n : NodeIndex} {components : List LocationComponent} {h sub g : WorkflowGraph}
      {w : Location} (hn : GraphStored O st r A h w n sub)
      (hrest : GraphsAlong components sub (w.withNode n) g) : GraphsAlong (.node n :: components) h w g
  | loopIndex {index : Nat} {components : List LocationComponent} {h g : WorkflowGraph}
      {w : Location} (hrest : GraphsAlong components h (w.withLoopIndex index) g) :
      GraphsAlong (.loopIndex index :: components) h w g
  | mapIndex {index : Nat} {components : List LocationComponent} {h g : WorkflowGraph}
      {w : Location} (hrest : GraphsAlong components h (w.withMapIndex index) g) :
      GraphsAlong (.mapIndex index :: components) h w g

/-- From the level at `w` on, and with `h` for the graph of the level above: the `graph` ports on
the path so far, begun in `h` instead of the workflow, lead to a graph in which the node of the
level has the dependents that it has in the graph evaluated there. -/
inductive ReadsDependents : List LocationComponent → WorkflowGraph → Location → Prop
  | nil (h : WorkflowGraph) (w : Location) : ReadsDependents [] h w
  | node {n : NodeIndex} {components : List LocationComponent} {h h' : WorkflowGraph} {w : Location}
      (hread : GraphsAlong O st r A w h Location.root h')
      (hsame : ∀ g, evaluatedAt O st r A workflow w = .ok g →
        ∀ d, d ≠ n → (h'.Reaches n d ↔ g.Reaches n d))
      (hrest : ReadsDependents components h' (w.withNode n)) :
      ReadsDependents (.node n :: components) h w
  | loopIndex {index : Nat} {components : List LocationComponent} {h : WorkflowGraph} {w : Location}
      (hrest : ReadsDependents components h (w.withLoopIndex index)) :
      ReadsDependents (.loopIndex index :: components) h w
  | mapIndex {index : Nat} {components : List LocationComponent} {h : WorkflowGraph} {w : Location}
      (hrest : ReadsDependents components h (w.withMapIndex index)) :
      ReadsDependents (.mapIndex index :: components) h w

/-- A level on the way to a location: where it is, the node that the path takes there, and the
graph that it is read in. -/
structure ReadLevel where
  loc : Location
  node : NodeIndex
  graph : WorkflowGraph

/-- The graphs that `find_subgraph_input` gives level by level, each time from the graph of the
level above. -/
def levelGraphs : List LocationComponent → WorkflowGraph → Location → Result (List ReadLevel)
  | [], _, _ => pure []
  | .node n :: components, h, w => do
    let h ← if w.isRoot then pure h else findSubgraphInput O.codec st r A h w
    let rest ← levelGraphs components h (w.withNode n)
    pure (⟨w, n, h⟩ :: rest)
  | .loopIndex index :: components, h, w => levelGraphs components h (w.withLoopIndex index)
  | .mapIndex index :: components, h, w => levelGraphs components h (w.withMapIndex index)

end Levels

/-! ## The graph ports on a path -/

section Along

variable {σ : Type} [WorkflowRunState σ] {O : Orchestrator} {st : σ} {r : RunAttempt} {A : Assets}

theorem graphStored_iff {h : WorkflowGraph} {w : Location} {n : NodeIndex} {sub : WorkflowGraph} :
    GraphStored O st r A h w n sub ↔ ∃ nodeStates spec,
      WorkflowRunState.readMany st r (h.nodeIds.map fun m => w.withNode m) = .ok nodeStates ∧
        collectInput h nodeStates w n "graph" = .ok spec ∧
          loadSubgraphFromAsset O.codec A spec = .ok sub := by
  unfold GraphStored collectInput linkedOutput WorkflowGraph.connectedInputByPortName
    WorkflowGraph.connectedInput
  simp only [Result.bind_eq_ok, okOr_eq_ok]
  constructor
  · rintro ⟨port, source, nodeStates, state, outputs, spec, ⟨hport, hsource⟩, hread,
      ⟨hstate, houtputs, hspec⟩, hload⟩
    exact ⟨nodeStates, spec, hread,
      ⟨source, ⟨port, hport, hsource⟩, state, hstate, outputs, houtputs, hspec⟩, hload⟩
  · rintro ⟨nodeStates, spec, hread,
      ⟨source, ⟨port, hport, hsource⟩, state, hstate, outputs, houtputs, hspec⟩, hload⟩
    exact ⟨port, source, nodeStates, state, outputs, spec, ⟨hport, hsource⟩, hread,
      ⟨hstate, houtputs, hspec⟩, hload⟩

/-- `find_subgraph_input` follows the `graph` ports. -/
theorem findSubgraphFrom_eq_ok {g : WorkflowGraph} :
    ∀ {components : List LocationComponent} {h : WorkflowGraph} {w : Location},
      findSubgraphFrom O.codec st r A components h w = .ok g ↔
        GraphsAlong O st r A components h w g
  | [], h, w => by
    constructor
    · intro hg
      cases hg
      exact .nil _ w
    · intro hg
      cases hg
      rfl
  | .node n :: components, h, w => by
    have ih : ∀ sub, findSubgraphFrom O.codec st r A components sub (w.withNode n) = .ok g ↔
        GraphsAlong O st r A components sub (w.withNode n) g := fun _ => findSubgraphFrom_eq_ok
    rw [findSubgraphFrom]
    simp only [Result.bind_eq_ok, ih]
    constructor
    · rintro ⟨nodeStates, hread, spec, hspec, sub, hsub, hrest⟩
      exact .node (graphStored_iff.2 ⟨nodeStates, spec, hread, hspec, hsub⟩) hrest
    · intro hg
      cases hg with
      | node hn hrest =>
        obtain ⟨nodeStates, spec, hread, hspec, hsub⟩ := graphStored_iff.1 hn
        exact ⟨nodeStates, hread, spec, hspec, _, hsub, hrest⟩
  | .loopIndex index :: components, h, w => by
    rw [findSubgraphFrom, findSubgraphFrom_eq_ok]
    refine ⟨.loopIndex, fun hg => ?_⟩
    cases hg with
    | loopIndex hrest => exact hrest
  | .mapIndex index :: components, h, w => by
    rw [findSubgraphFrom, findSubgraphFrom_eq_ok]
    refine ⟨.mapIndex, fun hg => ?_⟩
    cases hg with
    | mapIndex hrest => exact hrest

end Along

/-! ## The walk -/

section Walk

variable {σ : Type} [WorkflowRunState σ] {O : Orchestrator} {st : σ} {r : RunAttempt} {A : Assets}
  {workflow : WorkflowGraph} {location : Location}

theorem mem_dependents {W : Portgraph} {h : WorkflowGraph} {w x : Location} {n : NodeIndex} :
    x ∈ dependents W h w n ↔ ∃ d, h.Reaches n d ∧ d ≠ n ∧ x = w.withNode d := by
  simp only [dependents, List.mem_toFinset, List.mem_map, List.mem_filter, W.mem_postorder,
    decide_eq_true_eq]
  constructor
  · rintro ⟨d, ⟨hd, hne⟩, rfl⟩
    exact ⟨d, hd, hne, rfl⟩
  · rintro ⟨d, hd, hne, rfl⟩
    exact ⟨d, ⟨hd, hne⟩, rfl⟩

/-- The walk clears the dependents of the nodes that it meets. -/
theorem clearRoots_walkComponents :
    ∀ (components : List LocationComponent) (h : WorkflowGraph) (w : Location)
      (f : NodeCopyFilter),
      (walkComponents O.codec O.portgraph st r A location components h w f).map
          NodeCopyFilter.clearRoots =
        (levelGraphs O st r A components h w).map fun levels =>
          levels.foldl (fun s l => s ∪ dependents O.portgraph l.graph l.loc l.node) f.clearRoots
  | [], _, _, _ => rfl
  | .node n :: components, h, w, f => by
    have hrest : ∀ g : WorkflowGraph,
        (walkComponents O.codec O.portgraph st r A location components g (w.withNode n)
          (visitNode O.portgraph location g w n f)).map NodeCopyFilter.clearRoots =
        (levelGraphs O st r A components g (w.withNode n) >>= fun rest =>
          pure (⟨w, n, g⟩ :: rest)).map fun levels =>
          levels.foldl (fun s l => s ∪ dependents O.portgraph l.graph l.loc l.node)
            f.clearRoots := by
      intro g
      rw [clearRoots_walkComponents components g]
      cases levelGraphs O st r A components g (w.withNode n) <;> rfl
    rw [walkComponents, levelGraphs]
    by_cases hr : w.isRoot = true
    · rw [if_pos hr, if_pos hr]
      exact hrest h
    · rw [if_neg hr, if_neg hr]
      cases findSubgraphInput O.codec st r A h w with
      | error e => rfl
      | ok g => exact hrest g
  | .loopIndex index :: components, h, w, f =>
    clearRoots_walkComponents components h (w.withLoopIndex index) _
  | .mapIndex index :: components, h, w, f =>
    clearRoots_walkComponents components h (w.withMapIndex index) _

/-- An index on the path makes no level. -/
theorem levels_index_iff {components : List LocationComponent} {c : LocationComponent}
    {v w w' : Location} {n : NodeIndex} (hc : c ≠ .node n) (hw : w' = w ++ [c]) :
    (∃ before after, components = before ++ .node n :: after ∧ v = w' ++ before) ↔
      ∃ before after, c :: components = before ++ .node n :: after ∧ v = w ++ before := by
  constructor
  · rintro ⟨before, after, rfl, rfl⟩
    exact ⟨c :: before, after, rfl, by simp [hw]⟩
  · rintro ⟨before, after, hb, rfl⟩
    cases before with
    | nil => exact absurd (List.cons.inj hb).1 hc
    | cons c' before =>
      obtain ⟨rfl, rfl⟩ := List.cons.inj hb
      exact ⟨before, after, rfl, by simp [hw]⟩

/-- The first level is read in the graph that the `graph` ports lead to; at the root there are
none to follow. -/
theorem levelGraphs_node_iff {n : NodeIndex} {components : List LocationComponent}
    {h : WorkflowGraph} {w : Location} {levels : List ReadLevel} :
    levelGraphs O st r A (.node n :: components) h w = .ok levels ↔
      ∃ h' rest, GraphsAlong O st r A w h Location.root h' ∧
        levelGraphs O st r A components h' (w.withNode n) = .ok rest ∧
          levels = ⟨w, n, h'⟩ :: rest := by
  have hrest : ∀ h' : WorkflowGraph, (levelGraphs O st r A components h' (w.withNode n) >>=
      fun rest => pure (⟨w, n, h'⟩ :: rest)) = .ok levels ↔ ∃ rest,
        levelGraphs O st r A components h' (w.withNode n) = .ok rest ∧
          levels = ⟨w, n, h'⟩ :: rest := by
    intro h'
    rw [Result.bind_eq_ok]
    exact exists_congr fun rest => and_congr_right fun _ =>
      ⟨fun ho => (Except.ok.inj ho).symm, fun ho => by rw [ho]; rfl⟩
  have hfind : ∀ h', findSubgraphInput O.codec st r A h w = .ok h' ↔
      GraphsAlong O st r A w h Location.root h' := fun _ => findSubgraphFrom_eq_ok
  rw [levelGraphs]
  simp only [← hfind, exists_and_left]
  split_ifs with hr
  · cases w with
    | cons c w => cases hr
    | nil =>
      rw [pure_bind, hrest]
      exact ⟨fun ho => ⟨h, rfl, ho⟩, fun ⟨h', he, ho⟩ => by cases he; exact ho⟩
  · rw [Result.bind_eq_ok]
    simp only [hrest]

theorem levelGraphs_node {n : NodeIndex} {components : List LocationComponent} {h : WorkflowGraph}
    {w : Location} {levels : List ReadLevel}
    (hl : levelGraphs O st r A (.node n :: components) h w = .ok levels) :
    ∃ g rest, levelGraphs O st r A components g (w.withNode n) = .ok rest ∧
      levels = ⟨w, n, g⟩ :: rest := by
  obtain ⟨g, rest, -, h⟩ := levelGraphs_node_iff.1 hl
  exact ⟨g, rest, h⟩

/-- The levels are the nodes of the path. -/
theorem mem_levelGraphs (v : Location) (n : NodeIndex) :
    ∀ {components : List LocationComponent} {h : WorkflowGraph} {w : Location}
      {levels : List ReadLevel}, levelGraphs O st r A components h w = .ok levels →
      ((∃ l ∈ levels, l.loc = v ∧ l.node = n) ↔
        ∃ before after, components = before ++ .node n :: after ∧ v = w ++ before)
  | [], _, _, levels, hl => by
    cases hl
    simp
  | .node m :: components, h, w, levels, hl => by
    obtain ⟨g, rest, hrest, rfl⟩ := levelGraphs_node hl
    rw [List.exists_mem_cons_iff, mem_levelGraphs v n hrest]
    constructor
    · rintro (⟨rfl, rfl⟩ | ⟨before, after, rfl, rfl⟩)
      · exact ⟨[], components, rfl, (List.append_nil w).symm⟩
      · exact ⟨.node m :: before, after, rfl, by simp [Location.withNode]⟩
    · rintro ⟨before, after, hb, rfl⟩
      cases before with
      | nil =>
        obtain ⟨hm, rfl⟩ := List.cons.inj hb
        exact .inl ⟨(List.append_nil w).symm, LocationComponent.node.inj hm⟩
      | cons c before =>
        obtain ⟨rfl, rfl⟩ := List.cons.inj hb
        exact .inr ⟨before, after, rfl, by simp [Location.withNode]⟩
  | .loopIndex index :: components, h, w, levels, hl => by
    have hrest : levelGraphs O st r A components h (w.withLoopIndex index) = .ok levels := hl
    rw [mem_levelGraphs v n hrest]
    exact levels_index_iff (by simp) (by simp [Location.withLoopIndex])
  | .mapIndex index :: components, h, w, levels, hl => by
    have hrest : levelGraphs O st r A components h (w.withMapIndex index) = .ok levels := hl
    rw [mem_levelGraphs v n hrest]
    exact levels_index_iff (by simp) (by simp [Location.withMapIndex])

/-- Levels lie deeper and deeper. -/
theorem sorted_levelGraphs :
    ∀ {components : List LocationComponent} {h : WorkflowGraph} {w : Location}
      {levels : List ReadLevel}, levelGraphs O st r A components h w = .ok levels →
      (∀ l ∈ levels, w.length ≤ l.loc.length) ∧
        levels.Pairwise fun a b => a.loc.length < b.loc.length
  | [], _, _, levels, hl => by
    cases hl
    simp
  | .node m :: components, h, w, levels, hl => by
    obtain ⟨g, rest, hrest, rfl⟩ := levelGraphs_node hl
    obtain ⟨hlow, hsorted⟩ := sorted_levelGraphs hrest
    have hdeep : ∀ l ∈ rest, w.length < l.loc.length := by
      intro l hl
      have := hlow l hl
      rw [Location.length_withNode] at this
      omega
    refine ⟨?_, List.pairwise_cons.2 ⟨hdeep, hsorted⟩⟩
    rw [List.forall_mem_cons]
    exact ⟨Nat.le_refl _, fun l hl => Nat.le_of_lt (hdeep l hl)⟩
  | .loopIndex index :: components, h, w, levels, hl => by
    have hrest : levelGraphs O st r A components h (w.withLoopIndex index) = .ok levels := hl
    obtain ⟨hlow, hsorted⟩ := sorted_levelGraphs hrest
    refine ⟨fun l hl => ?_, hsorted⟩
    have := hlow l hl
    rw [Location.length_withLoopIndex] at this
    omega
  | .mapIndex index :: components, h, w, levels, hl => by
    have hrest : levelGraphs O st r A components h (w.withMapIndex index) = .ok levels := hl
    obtain ⟨hlow, hsorted⟩ := sorted_levelGraphs hrest
    refine ⟨fun l hl => ?_, hsorted⟩
    have := hlow l hl
    rw [Location.length_withMapIndex] at this
    omega

theorem eq_of_mem_levelGraphs {components : List LocationComponent} {h : WorkflowGraph}
    {w : Location} {levels : List ReadLevel}
    (hl : levelGraphs O st r A components h w = .ok levels) {a b : ReadLevel} (ha : a ∈ levels)
    (hb : b ∈ levels) (he : a.loc = b.loc) : a = b := by
  have hsorted := (sorted_levelGraphs hl).2
  have hnodup : (levels.map ReadLevel.loc).Nodup := by
    refine List.pairwise_map.2 (hsorted.imp fun hlt he => ?_)
    rw [he] at hlt
    exact Nat.lt_irrefl _ hlt
  exact List.inj_on_of_nodup_map hnodup ha hb he

theorem mem_foldl_union {ι : Type} {F : ι → Finset Location} {x : Location} {l : List ι} :
    ∀ s : Finset Location, x ∈ l.foldl (fun s a => s ∪ F a) s ↔ x ∈ s ∨ ∃ a ∈ l, x ∈ F a := by
  induction l with
  | nil => simp
  | cons a l ih =>
    intro s
    rw [List.foldl_cons, ih, Finset.mem_union, or_assoc, List.exists_mem_cons_iff]

/-- What is cleared, by the graphs in which the levels are read. -/
theorem mem_clearRoots_build {f : NodeCopyFilter} {levels : List ReadLevel}
    (hf : buildNodeCopyFilter O.codec O.portgraph st r A workflow location = .ok f)
    (hl : levelGraphs O st r A location workflow Location.root = .ok levels) (x : Location) :
    x ∈ f.clearRoots ↔ x = location ∨
      ∃ l ∈ levels, ∃ d, l.graph.Reaches l.node d ∧ d ≠ l.node ∧ x = l.loc.withNode d := by
  have hwalk := @clearRoots_walkComponents _ _ O st r A location location workflow Location.root
    { clearRoots := {location} }
  rw [hl, ← buildNodeCopyFilter, hf] at hwalk
  have hroots : f.clearRoots = _ := Except.ok.inj hwalk
  rw [hroots, mem_foldl_union, Finset.mem_singleton]
  simp only [mem_dependents]

theorem exists_levels_iff : (∃ f, buildNodeCopyFilter O.codec O.portgraph st r A workflow location =
      .ok f) ↔ ∃ levels, levelGraphs O st r A location workflow Location.root = .ok levels := by
  have hwalk := @clearRoots_walkComponents _ _ O st r A location location workflow Location.root
    { clearRoots := {location} }
  rw [← buildNodeCopyFilter] at hwalk
  cases hb : buildNodeCopyFilter O.codec O.portgraph st r A workflow location with
  | error e =>
    cases hl : levelGraphs O st r A location workflow Location.root with
    | error e' => simp
    | ok levels =>
      rw [hb, hl] at hwalk
      cases hwalk
  | ok f =>
    cases hl : levelGraphs O st r A location workflow Location.root with
    | error e' =>
      rw [hb, hl] at hwalk
      cases hwalk
    | ok levels => simp

/-- The levels are read one by one. -/
theorem readsDependents_iff_levels :
    ∀ {components : List LocationComponent} {h : WorkflowGraph} {w : Location},
      ReadsDependents O st r A workflow components h w ↔
        ∃ levels, levelGraphs O st r A components h w = .ok levels ∧
          ∀ l ∈ levels, ∀ g, evaluatedAt O st r A workflow l.loc = .ok g →
            ∀ d, d ≠ l.node → (l.graph.Reaches l.node d ↔ g.Reaches l.node d)
  | [], h, w => iff_of_true (.nil h w) ⟨[], rfl, nofun⟩
  | .node n :: components, h, w => by
    constructor
    · intro hr
      cases hr with
      | node hread hsame hrest =>
        obtain ⟨levels, hl, hlevels⟩ := readsDependents_iff_levels.1 hrest
        exact ⟨_, levelGraphs_node_iff.2 ⟨_, levels, hread, hl, rfl⟩,
          List.forall_mem_cons.2 ⟨hsame, hlevels⟩⟩
    · rintro ⟨_, hlevels, hsame⟩
      obtain ⟨h', levels, hread, hl, rfl⟩ := levelGraphs_node_iff.1 hlevels
      rw [List.forall_mem_cons] at hsame
      exact .node hread hsame.1 (readsDependents_iff_levels.2 ⟨levels, hl, hsame.2⟩)
  | .loopIndex index :: components, h, w => by
    rw [levelGraphs, ← readsDependents_iff_levels]
    refine ⟨fun hr => ?_, .loopIndex⟩
    cases hr with
    | loopIndex hrest => exact hrest
  | .mapIndex index :: components, h, w => by
    rw [levelGraphs, ← readsDependents_iff_levels]
    refine ⟨fun hr => ?_, .mapIndex⟩
    cases hr with
    | mapIndex hrest => exact hrest

end Walk

/-- The filter clears what it should exactly when at each level the `graph` ports on the path, begun
in the graph of the level above, lead to the dependents in the graph evaluated there. -/
theorem clearsExactly_iff {σ : Type} [WorkflowRunState σ] (O : Orchestrator) (st : σ)
    (r : RunAttempt) (A : Assets) (workflow : WorkflowGraph) (location : Location)
    (hs : Started O st r A workflow location) :
    ClearsExactly O st r A workflow location ↔
      ReadsDependents O st r A workflow location workflow Location.root := by
  rw [readsDependents_iff_levels]
  constructor
  · rintro ⟨f, hf, hclears⟩
    obtain ⟨levels, hl⟩ := exists_levels_iff.1 ⟨f, hf⟩
    refine ⟨levels, hl, fun l hmem g hg d hd => ?_⟩
    obtain ⟨before, after, hloc, hbefore⟩ := (mem_levelGraphs l.loc l.node hl).1 ⟨l, hmem, rfl, rfl⟩
    obtain rfl : l.loc = before := hbefore
    have hne : l.loc.withNode d ≠ location := by
      rw [hloc, Location.withNode]
      intro h
      exact hd (LocationComponent.node.inj (List.cons.inj (List.append_cancel_left h)).1)
    have hx := (mem_clearRoots_build hf hl (l.loc.withNode d)).symm.trans (hclears _)
    rw [or_iff_right hne, or_iff_right hne] at hx
    constructor
    · intro hr
      obtain ⟨w, n, after', g', d', hloc', hg', hr', -, he⟩ := hx.1 ⟨l, hmem, d, hr, hd, rfl⟩
      obtain ⟨rfl, rfl⟩ := Location.withNode_inj.1 he
      rw [hg] at hg'
      cases hg'
      rw [hloc] at hloc'
      cases (List.cons.inj (List.append_cancel_left hloc')).1
      exact hr'
    · intro hr
      obtain ⟨l', hmem', d', hr', -, he⟩ := hx.2 ⟨l.loc, l.node, after, g, d, hloc, hg, hr, hd, rfl⟩
      obtain ⟨hloc', rfl⟩ := Location.withNode_inj.1 he
      rwa [eq_of_mem_levelGraphs hl hmem hmem' hloc']
  · rintro ⟨levels, hl, hreads⟩
    obtain ⟨f, hf⟩ := exists_levels_iff.2 ⟨levels, hl⟩
    refine ⟨f, hf, fun x => (mem_clearRoots_build hf hl x).trans (or_congr_right ?_)⟩
    constructor
    · rintro ⟨l, hmem, d, hr, hd, rfl⟩
      obtain ⟨before, after, hloc, hbefore⟩ :=
        (mem_levelGraphs l.loc l.node hl).1 ⟨l, hmem, rfl, rfl⟩
      obtain rfl : l.loc = before := hbefore
      obtain ⟨g, hg⟩ := hs _ _ _ hloc
      exact ⟨l.loc, l.node, after, g, d, hloc, hg, (hreads l hmem g hg d hd).1 hr, hd, rfl⟩
    · rintro ⟨w, n, after, g, d, hloc, hg, hr, hd, rfl⟩
      obtain ⟨l, hmem, rfl, rfl⟩ := (mem_levelGraphs w n hl).2 ⟨w, after, hloc, rfl⟩
      exact ⟨l, hmem, d, (hreads l hmem g hg d hd).2 hr, hd, rfl⟩

section OneContainer

variable {σ : Type} [WorkflowRunState σ] {O : Orchestrator} {st : σ} {r : RunAttempt} {A : Assets}
  {workflow : WorkflowGraph}

/-- Indices lead into no other graph. -/
theorem findSubgraphFrom_indices {C : Codec} :
    ∀ {indices : List LocationComponent}, (∀ n, .node n ∉ indices) → ∀ (g : WorkflowGraph)
      (w : Location), findSubgraphFrom C st r A indices g w = .ok g
  | [], _, _, _ => rfl
  | .node n :: _, h, _, _ => absurd (.head _) (h n)
  | .loopIndex index :: _, h, g, w =>
    findSubgraphFrom_indices (fun n hn => h n (.tail _ hn)) g (w.withLoopIndex index)
  | .mapIndex index :: _, h, g, w =>
    findSubgraphFrom_indices (fun n hn => h n (.tail _ hn)) g (w.withMapIndex index)

theorem evaluatedFrom_indices :
    ∀ {indices : List LocationComponent}, (∀ n, .node n ∉ indices) → ∀ (g : WorkflowGraph)
      (w : Location), evaluatedFrom O st r A indices g w = .ok g
  | [], _, _, _ => rfl
  | .node n :: _, h, _, _ => absurd (.head _) (h n)
  | .loopIndex index :: _, h, g, w =>
    evaluatedFrom_indices (fun n hn => h n (.tail _ hn)) g (w.withLoopIndex index)
  | .mapIndex index :: _, h, g, w =>
    evaluatedFrom_indices (fun n hn => h n (.tail _ hn)) g (w.withMapIndex index)

theorem levelGraphs_indices (h : WorkflowGraph) (rest : List LocationComponent) :
    ∀ {indices : List LocationComponent}, (∀ n, .node n ∉ indices) → ∀ w : Location,
      levelGraphs O st r A (indices ++ rest) h w = levelGraphs O st r A rest h (w ++ indices)
  | [], _, w => by rw [List.append_nil]; rfl
  | .node n :: _, hn, _ => absurd (.head _) (hn n)
  | .loopIndex index :: indices, hn, w => by
    rw [List.cons_append, levelGraphs, levelGraphs_indices h rest fun n hm => hn n (.tail _ hm)]
    simp [Location.withLoopIndex]
  | .mapIndex index :: indices, hn, w => by
    rw [List.cons_append, levelGraphs, levelGraphs_indices h rest fun n hm => hn n (.tail _ hm)]
    simp [Location.withMapIndex]

/-- A location in one container is read as it should be exactly when the container has a `graph`
input: not when it is an `Eval` node that runs the graph it is in. -/
theorem readsDependents_one_container_iff {a b : NodeIndex} {before after : List LocationComponent}
    (hbefore : ∀ n, .node n ∉ before) (hafter : ∀ n, .node n ∉ after)
    (hs : Started O st r A workflow (.node a :: (before ++ .node b :: after))) :
    ReadsDependents O st r A workflow (.node a :: (before ++ .node b :: after)) workflow
        Location.root ↔
      ∃ sub, GraphStored O st r A workflow Location.root a sub := by
  rw [readsDependents_iff_levels]
  simp only [graphStored_iff]
  obtain ⟨g, hat⟩ := hs (.node a :: before) b after rfl
  have hg := hat
  unfold evaluatedAt evaluatedFrom at hg
  obtain ⟨nodeStates, hread, hg⟩ := Result.bind_eq_ok.1 hg
  obtain ⟨allowRecursion, -, hg⟩ := Result.bind_eq_ok.1 hg
  obtain ⟨subgraph, hsub, hg⟩ := Result.bind_eq_ok.1 hg
  rw [evaluatedFrom_indices hbefore] at hg
  cases hg
  have hlevels : levelGraphs O st r A (.node a :: (before ++ .node b :: after)) workflow
      Location.root = (findSubgraphInput O.codec st r A workflow (.node a :: before) >>= fun h =>
        pure [⟨Location.root, a, workflow⟩, ⟨.node a :: before, b, h⟩]) := by
    have hroot : Location.root.isRoot = true := rfl
    have hnest : Location.isRoot (Location.root.withNode a ++ before) = false := rfl
    have hend : ∀ h w, levelGraphs O st r A after h w = .ok [] := fun h w => by
      have := @levelGraphs_indices _ _ O st r A h [] _ hafter w
      rwa [List.append_nil] at this
    rw [levelGraphs, if_pos hroot]
    simp only [pure_bind, levelGraphs_indices workflow _ hbefore]
    rw [levelGraphs, hnest, if_neg Bool.false_ne_true]
    simp only [hend]
    change _ = (findSubgraphInput O.codec st r A workflow (Location.root.withNode a ++ before) >>= _)
    cases findSubgraphInput O.codec st r A workflow (Location.root.withNode a ++ before) <;> rfl
  cases hin : collectInput workflow nodeStates Location.root a "graph" with
  | error e =>
    have hfind : findSubgraphInput O.codec st r A workflow (.node a :: before) = .error e := by
      simp [findSubgraphInput, findSubgraphFrom, hread, hin, bind, Except.bind]
    constructor
    · rintro ⟨levels, hl, -⟩
      rw [hlevels, hfind] at hl
      cases hl
    · rintro ⟨sub, nodeStates', spec, hread', hspec, -⟩
      rw [hread] at hread'
      cases hread'
      rw [hin] at hspec
      cases hspec
  | ok spec =>
    have hload : loadSubgraphFromAsset O.codec A spec = .ok g := by
      rw [graphInput, hin] at hsub
      exact hsub
    have hfind : findSubgraphInput O.codec st r A workflow (.node a :: before) = .ok g := by
      simp [findSubgraphInput, findSubgraphFrom, hread, hin, hload, bind, Except.bind,
        findSubgraphFrom_indices hbefore]
    refine ⟨fun _ => ⟨g, nodeStates, spec, hread, hin, hload⟩,
      fun _ => ⟨_, by rw [hlevels, hfind]; rfl, ?_⟩⟩
    intro l hl g' hg' d _
    simp only [List.mem_cons, List.not_mem_nil, or_false] at hl
    rcases hl with rfl | rfl
    · cases hg'
      exact .rfl
    · rw [hat] at hg'
      cases hg'
      exact .rfl

end OneContainer

/-! ## Two containers -/

/-- An `Eval` node whose graph is a constant that is read as `itemGraph`. -/
def evalOfItem : WorkflowGraph where
  nodes := .ofList [
    (0, { definition := .eval none none, name := none, hasBreakpoint := false
          inputs := [⟨"graph", [⟨1, "value"⟩]⟩], outputs := ["y"] }),
    (1, { definition := .const (.bool false), name := none, hasBreakpoint := false, inputs := []
          outputs := ["value"] }),
    (2, { definition := .output, name := none, hasBreakpoint := false
          inputs := [⟨"y", [⟨0, "y"⟩]⟩], outputs := [] })]
  outputIdx := 2
  output_mem := rfl
  link_mem := by decide

/-- An `Eval` node whose graph is a constant that is read as `evalOfItem`. -/
def evalOfEval : WorkflowGraph where
  nodes := .ofList [
    (0, { definition := .const .null, name := none, hasBreakpoint := false, inputs := []
          outputs := ["value"] }),
    (1, { definition := .eval none none, name := none, hasBreakpoint := false
          inputs := [⟨"graph", [⟨0, "value"⟩]⟩], outputs := ["y"] }),
    (2, { definition := .output, name := none, hasBreakpoint := false
          inputs := [⟨"y", [⟨1, "y"⟩]⟩], outputs := [] })]
  outputIdx := 2
  output_mem := rfl
  link_mem := by decide

def nestedRuntime : Runtime :=
  .plain [([110, 117, 108, 108], evalOfItem), ([102, 97, 108, 115, 101], itemGraph)]

def startedEvalOfEval : System InMemoryRuntimeState where
  store := { InMemoryRuntimeState.startedRun with workflows := .ofList [(0, (none, evalOfEval))] }
  assets := .plain

/-- Both constants complete, both `Eval` nodes start, and the task is scheduled. -/
def nestedTurns : List Turn :=
  [.wake [(0, 0)], .plan, .process 1, .wake [(0, 0)], .plan, .process 1, .wake [(0, 0)], .plan,
    .process 1, .wake [(0, 0)], .plan, .process 1, .wake [(0, 0)], .plan, .process 1]

/-- After the run the graphs of both `Eval` nodes can be evaluated, the outer one is found, and no
filter is built for the task in the inner one. -/
theorem exists_nestedRun : ∃ labels s, Steps (Step nestedRuntime) startedEvalOfEval labels s ∧
    Started nestedRuntime.orchestrator s.store (0, 0) s.assets evalOfEval [.node 1, .node 0] ∧
    Started nestedRuntime.orchestrator s.store (0, 0) s.assets evalOfEval
      [.node 1, .node 0, .node 0] ∧
    (∃ g, findSubgraphInput nestedRuntime.orchestrator.codec s.store (0, 0) s.assets evalOfEval
      [.node 1] = .ok g) ∧
    ∀ f, buildNodeCopyFilter nestedRuntime.orchestrator.codec nestedRuntime.orchestrator.portgraph
      s.store (0, 0) s.assets evalOfEval [.node 1, .node 0, .node 0] ≠ .ok f := by
  have hrun : (System.turns nestedRuntime 4 nestedTurns startedEvalOfEval).map (fun x =>
      ((evaluatedAt nestedRuntime.orchestrator x.2.store (0, 0) x.2.assets evalOfEval
          [.node 1]).toOption.isSome,
        (evaluatedAt nestedRuntime.orchestrator x.2.store (0, 0) x.2.assets evalOfEval
          [.node 1, .node 0]).toOption.isSome,
        (findSubgraphInput nestedRuntime.orchestrator.codec x.2.store (0, 0) x.2.assets evalOfEval
          [.node 1]).toOption.isSome,
        (buildNodeCopyFilter nestedRuntime.orchestrator.codec nestedRuntime.orchestrator.portgraph
          x.2.store (0, 0) x.2.assets evalOfEval [.node 1, .node 0, .node 0]).toOption.isSome)) =
      some (true, true, true, false) := by decide +kernel
  obtain ⟨⟨labels, s⟩, hs, hrun⟩ := Option.map_eq_some_iff.1 hrun
  simp only [Prod.mk.injEq] at hrun
  obtain ⟨houter, hinner, hfind, hbuild⟩ := hrun
  have hok : ∀ {α : Type} {x : Result α}, x.toOption.isSome = true → ∃ a, x = .ok a := by
    intro α x hx
    cases x with
    | ok a => exact ⟨a, rfl⟩
    | error e => cases hx
  refine ⟨labels, s, (System.steps_of_turns (fun _ _ _ => rfl) hs).1, ?_, ?_, hok hfind, ?_⟩
  · intro w n components hloc
    rcases w with _ | ⟨c, _ | ⟨c', w⟩⟩
    · exact ⟨evalOfEval, rfl⟩
    · cases (List.cons.inj hloc).1
      exact hok houter
    · simp at hloc
  · intro w n components hloc
    rcases w with _ | ⟨c, _ | ⟨c', _ | ⟨c'', w⟩⟩⟩
    · exact ⟨evalOfEval, rfl⟩
    · cases (List.cons.inj hloc).1
      exact hok houter
    · cases (List.cons.inj hloc).1
      cases (List.cons.inj (List.cons.inj hloc).2).1
      exact hok hinner
    · simp at hloc
  · intro f hf
    rw [hf] at hbuild
    cases hbuild

/-- The filter of the inner `Eval` node is right, and the graph in which its task is looked for is
not. -/
theorem clearsExactly_nested : ∃ labels s, Steps (Step nestedRuntime) startedEvalOfEval labels s ∧
    ClearsExactly nestedRuntime.orchestrator s.store (0, 0) s.assets evalOfEval
      [.node 1, .node 0] ∧
    ¬ReadsDependents nestedRuntime.orchestrator s.store (0, 0) s.assets evalOfEval
      [.node 1, .node 0, .node 0] evalOfEval Location.root := by
  obtain ⟨labels, s, hs, hinner, htask, ⟨g, hg⟩, hbuild⟩ := exists_nestedRun
  refine ⟨labels, s, hs, (clearsExactly_iff _ _ _ _ _ _ hinner).2 ?_, fun hr => ?_⟩
  · have hnone : ∀ n, .node n ∉ ([] : List LocationComponent) := fun _ => List.not_mem_nil
    refine (readsDependents_one_container_iff hnone hnone hinner).2 ?_
    cases findSubgraphFrom_eq_ok.1 hg with
    | node hn _ => exact ⟨_, hn⟩
  · obtain ⟨f, hf, -⟩ := (clearsExactly_iff _ _ _ _ _ _ htask).2 hr
    exact hbuild f hf

/-- The graph of the inner `Eval` node is looked for from the graph of the outer one, whose node
of that index has no `graph` input. -/
theorem copy_filter_misreads : ∃ labels s, Steps (Step nestedRuntime) startedEvalOfEval labels s ∧
    Started nestedRuntime.orchestrator s.store (0, 0) s.assets evalOfEval
      [.node 1, .node 0, .node 0] ∧
    ¬ClearsExactly nestedRuntime.orchestrator s.store (0, 0) s.assets evalOfEval
      [.node 1, .node 0, .node 0] := by
  obtain ⟨labels, s, hs, -, htask, -, hbuild⟩ := exists_nestedRun
  exact ⟨labels, s, hs, htask, fun ⟨f, hf, _⟩ => hbuild f hf⟩

end Tierkreis
