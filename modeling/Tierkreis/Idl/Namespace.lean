import Tierkreis.Idl.Models

/-!
# The order of the models of a namespace

The stubs of a namespace define its models one after the other. A model comes
after those that it depends on.
-/

namespace Tierkreis.Idl

open Lib

/-- The order in which a set is walked. -/
structure SetOrder where
  walk : List Model → List Model
  perm : ∀ models, (walk models).Perm models

/-- The models of a namespace are a set: no two of them are equal. They stand in the order in which
the set is walked. -/
structure Namespace where
  name : String
  models : List Model
  distinct : models.Pairwise fun m m' => (m == m') = false

namespace Namespace

/-- Of two models of one name, the later one is known by it. -/
def modelsByName (ns : Namespace) : HashMap String Model :=
  HashMap.ofList (ns.models.map fun m => (m.t.origin.qualname, m))

/-- The dependencies of a model in the order in which they are visited. -/
def dependencies (ns : Namespace) (order : SetOrder) (m : Model) : List Model :=
  sorted (order.walk (m.modelDependencies ns.modelsByName))

/-- `_visit`. The visits are nested `depth` deep at most. -/
def visit (ns : Namespace) (order : SetOrder) (depth : Nat) (model : Model) (visited : List Model) :
    Option (List Model × List Model) :=
  DepthFirst.visit (ns.dependencies order) depth model visited

/-- The models, each after those that it depends on. A visit is nested in visits of other models
alone, so that the depth is bounded by their number. -/
def topologicallySortedModels (ns : Namespace) (order : SetOrder) : Option (List Model) :=
  (DepthFirst.visitAll (ns.visit order (ns.models.length + 1)) (sorted ns.models) []).map Prod.fst

/-- `m` depends on `dep`. -/
def DependsOn (ns : Namespace) (m dep : Model) : Prop := dep ∈ m.modelDependencies ns.modelsByName

variable (ns : Namespace) (order : SetOrder)

theorem known : Known ns.modelsByName ns.models := by
  intro name m hget
  have hmem := HashMap.mem_of_get?_ofList hget
  obtain ⟨m', hm', he⟩ := List.mem_map.1 hmem
  rw [Prod.mk.injEq] at he
  exact he.2 ▸ hm'

/-- Models of the set that are equal are one and the same. -/
theorem distinguished : Distinguished ns.models := by
  intro a ha b hb
  constructor
  · intro he
    have hnodup : (ns.models.map Model.key).Nodup :=
      List.pairwise_map.2 (ns.distinct.imp fun h => of_decide_eq_false h)
    exact List.inj_on_of_nodup_map hnodup ha hb (of_decide_eq_true he)
  · intro he
    exact he ▸ decide_eq_true rfl

theorem mem_dependencies (m dep : Model) : dep ∈ ns.dependencies order m ↔ ns.DependsOn m dep := by
  unfold dependencies sorted DependsOn
  rw [List.mem_mergeSort, (order.perm _).mem_iff]

theorem closed : DepthFirst.Closed (ns.dependencies order) ns.models where
  needs := fun a _ b hb => by
    rw [mem_dependencies, DependsOn, Model.mem_modelDependencies ns.distinguished ns.known] at hb
    obtain ⟨decl, -, t, -, hf⟩ := hb
    exact ns.known _ b hf.2
  beq := ns.distinguished

/-- Where no model depends on itself through others, each model is listed exactly once and after
those that it depends on; and those are the ones that a field type finds that is no parameter. -/
theorem topologicallySortedModels_ordered
    (hacyclic : ∀ m, ¬ Relation.TransGen ns.DependsOn m m) :
    (∃ models, ns.topologicallySortedModels order = some models ∧
      models.Perm ns.models ∧ models.Nodup ∧
      ∀ before m after, models = before ++ m :: after →
        ∀ dep ∈ m.modelDependencies ns.modelsByName, dep ∈ before) ∧
    ∀ (m : Model) (dep : Model), dep ∈ m.modelDependencies ns.modelsByName ↔
      ∃ decl ∈ m.decls, ∃ t, GenericType.Within t decl.t ∧
        t.origin.dependencyName ∉ m.genericParams ∧
        ns.modelsByName.get? t.origin.dependencyName = some dep := by
  refine ⟨?_, Model.mem_modelDependencies ns.distinguished ns.known⟩
  have hnodup : ns.models.Nodup := ns.distinct.imp fun h he =>
    of_decide_eq_false h (congrArg Model.key he)
  have hacyclic' : ∀ m, ¬ Relation.TransGen (DepthFirst.Needs (ns.dependencies order)) m m := by
    intro m hcycle
    exact hacyclic m (hcycle.lift id fun a b => (ns.mem_dependencies order a b).1)
  have hperm : (sorted ns.models).Perm ns.models := List.mergeSort_perm _ _
  obtain ⟨models, visited, heq, hmodels, hordered⟩ :=
    (ns.closed order).visitAll_perm hnodup hacyclic' hperm
  refine ⟨models, ?_, hmodels, hmodels.nodup_iff.2 hnodup, fun before m after hsplit dep hdep => ?_⟩
  · unfold topologicallySortedModels
    show Option.map _ (DepthFirst.visitAll (DepthFirst.visit _ _) _ _) = _
    rw [heq, Option.map_some]
  · have h := hordered before m after hsplit dep ((ns.mem_dependencies order m dep).2 hdep)
    exact h.resolve_left List.not_mem_nil

/-- A rank that falls from a model to those that it depends on excludes a cycle. -/
theorem acyclic_of_rank (rank : Model → Nat)
    (h : ∀ m ∈ ns.models, ∀ dep, ns.DependsOn m dep → rank dep < rank m) (m : Model) :
    ¬ Relation.TransGen ns.DependsOn m m := by
  intro hcycle
  have hknown : ∀ {a b : Model}, ns.DependsOn a b → b ∈ ns.models := by
    intro a b hab
    obtain ⟨decl, -, t, -, hf⟩ := (Model.mem_modelDependencies ns.distinguished ns.known a b).1 hab
    exact ns.known _ b hf.2
  have hfalls : ∀ {a b : Model}, Relation.TransGen ns.DependsOn a b → a ∈ ns.models →
      b ∈ ns.models ∧ rank b < rank a := by
    intro a b hab ha
    induction hab with
    | single hab => exact ⟨hknown hab, h a ha _ hab⟩
    | tail _ hbc ih => exact ⟨hknown hbc, (h _ ih.1 _ hbc).trans ih.2⟩
  obtain ⟨a, -, ham⟩ := Relation.TransGen.tail'_iff.1 hcycle
  exact Nat.lt_irrefl _ (hfalls hcycle (hknown ham)).2

/-! ## A namespace with a generic model -/

def intType : GenericType := .mk (.object 0 (some "int") "<class \x27int\x27>") []

def pointType : GenericType :=
  .mk (.object 1 (some "Point") "<class \x27worker.Point\x27>") []

/-- A generic model whose parameter has the name of another model. -/
def pairModel : Model where
  isPortmapping := false
  t := .mk (.str "Pair") [.param "T"]
  decls := [⟨"first", .mk (.str "T") [], false⟩,
    ⟨"points", .mk (.str "Array") [.type (.mk (.forwardRef "Point" "ForwardRef(\x27Point\x27)") [])],
      true⟩]

def pointModel : Model where
  isPortmapping := false
  t := pointType
  decls := [⟨"x", intType, false⟩]

def tModel : Model where
  isPortmapping := true
  t := .mk (.str "T") []
  decls := [⟨"pair", .mk (.str "Pair") [.type intType], false⟩]

def geometry : Namespace where
  name := "geometry"
  models := [tModel, pairModel, pointModel]
  distinct := by decide

theorem geometry_dependencies {m dep : Model} (hm : m ∈ geometry.models)
    (h : geometry.DependsOn m dep) :
    m = tModel ∧ dep = pairModel ∨ m = pairModel ∧ dep = pointModel := by
  have ht : tModel.modelDependencies geometry.modelsByName = [pairModel] := rfl
  have hpair : pairModel.modelDependencies geometry.modelsByName = [pointModel] := rfl
  have hpoint : pointModel.modelDependencies geometry.modelsByName = [] := rfl
  unfold DependsOn at h
  rcases List.mem_cons.1 hm with rfl | hm
  · exact .inl ⟨rfl, List.mem_singleton.1 (ht ▸ h)⟩
  · rcases List.mem_cons.1 hm with rfl | hm
    · exact .inr ⟨rfl, List.mem_singleton.1 (hpair ▸ h)⟩
    · rw [List.mem_singleton.1 hm, hpoint] at h
      exact absurd h List.not_mem_nil

theorem geometry_acyclic (m : Model) : ¬ Relation.TransGen geometry.DependsOn m m := by
  refine geometry.acyclic_of_rank (fun m => 25 - m.t.origin.text.length) ?_ m
  intro m hm dep h
  rcases geometry_dependencies hm h with ⟨rfl, rfl⟩ | ⟨rfl, rfl⟩
  · decide
  · decide

def listOrder : SetOrder where
  walk := id
  perm := fun _ => .refl _

theorem topologicallySortedModels_geometry :
    (∃ models, geometry.topologicallySortedModels listOrder = some models ∧
      models.Perm geometry.models ∧ models.Nodup ∧
      ∀ before m after, models = before ++ m :: after →
        ∀ dep ∈ m.modelDependencies geometry.modelsByName, dep ∈ before) ∧
    ¬ tModel ∈ pairModel.modelDependencies geometry.modelsByName := by
  refine ⟨(topologicallySortedModels_ordered geometry listOrder geometry_acyclic).1, fun h => ?_⟩
  have hdep : pairModel.modelDependencies geometry.modelsByName = [pointModel] := rfl
  have heq := List.mem_singleton.1 (hdep ▸ h)
  exact absurd (congrArg Model.isPortmapping heq) (by decide)

end Namespace

end Tierkreis.Idl
