import Tierkreis.Lib.DepthFirst
import Tierkreis.Lib.HashMap

/-!
# The models of a worker namespace

The types of a worker's interface, and the order in which its models are
generated. A type is known by the name of its origin, which is a string, a
class, a forward reference or another object.
-/

namespace Tierkreis.Idl

open Lib

/-- What a type was made from. An object that has a `__qualname__` is a class. -/
inductive Origin
  | str (s : String)
  /-- Its argument, and its `str`, which also names the module. -/
  | forwardRef (arg text : String)
  | object (id : Nat) (qualname : Option String) (text : String)
  deriving DecidableEq, Repr

/-- `str(origin)`. -/
def Origin.text : Origin → String
  | .str s => s
  | .forwardRef _ text => text
  | .object _ _ text => text

/-- `getattr(origin, "__qualname__", str(origin))`. -/
def Origin.qualname : Origin → String
  | .object _ (some qualname) _ => qualname
  | origin => origin.text

mutual

inductive GenericType
  | mk (origin : Origin) (args : List TypeArg)

/-- An argument is a type, or the name of a generic parameter. -/
inductive TypeArg
  | type (t : GenericType)
  | param (name : String)

end

def GenericType.origin : GenericType → Origin
  | mk origin _ => origin

def GenericType.args : GenericType → List TypeArg
  | mk _ args => args

structure TypedArg where
  name : String
  t : GenericType
  hasDefault : Bool := false

/-- What arguments are compared by. -/
def TypedArg.key (arg : TypedArg) : String × Origin × Bool := (arg.name, arg.t.origin, arg.hasDefault)

structure Model where
  isPortmapping : Bool
  t : GenericType
  decls : List TypedArg

/-- What models are compared by: all the fields of the data class, the types by their origins. -/
def Model.key (m : Model) : Bool × Origin × List (String × Origin × Bool) :=
  (m.isPortmapping, m.t.origin, m.decls.map TypedArg.key)

instance : BEq Model where
  beq m m' := decide (m.key = m'.key)

/-- `Model.__lt__`. -/
def Model.lt (m m' : Model) : Bool := m.t.origin.text < m'.t.origin.text

/-- `sorted`, which leaves models that are not less than each other as they stand. -/
def sorted (models : List Model) : List Model := models.mergeSort fun m m' => !(m'.lt m)

/-- `deps.add`. -/
def addModel (models : List Model) (m : Model) : List Model :=
  if models.contains m then models else models ++ [m]

/-- `deps.update`. -/
def updateModels (models new : List Model) : List Model := new.foldl addModel models

/-- The name that a field type is looked up by. -/
def Origin.dependencyName : Origin → String
  | .forwardRef arg _ => arg
  | origin => origin.qualname

mutual

/-- The models that a type depends on, except for generic parameters. -/
def collectDependencies (genericParams : List String) (modelsByName : HashMap String Model) :
    GenericType → List Model
  | .mk origin args =>
    let deps :=
      if origin.dependencyName ∈ genericParams then []
      else (modelsByName.get? origin.dependencyName).toList
    updateModels deps (collectArgs genericParams modelsByName args)

/-- The models of the arguments of a type. -/
def collectArgs (genericParams : List String) (modelsByName : HashMap String Model) :
    List TypeArg → List Model
  | [] => []
  | .type arg :: args =>
    updateModels (collectDependencies genericParams modelsByName arg)
      (collectArgs genericParams modelsByName args)
  | .param _ :: args => collectArgs genericParams modelsByName args

end

/-- The generic parameters of a model. -/
def Model.genericParams (m : Model) : List String :=
  m.t.args.filterMap fun
    | .param name => some name
    | .type _ => none

def Model.modelDependencies (m : Model) (knownModels : HashMap String Model) : List Model :=
  m.decls.foldl (fun deps decl =>
    updateModels deps (collectDependencies m.genericParams knownModels decl.t)) []

/-! ## What is collected -/

/-- `t` is `t'`, or is among its arguments at some depth. -/
inductive GenericType.Within (t : GenericType) : GenericType → Prop
  | refl : Within t t
  | arg {origin : Origin} {args : List TypeArg} {t' : GenericType} (hmem : .type t' ∈ args)
      (h : Within t t') : Within t (.mk origin args)

theorem GenericType.within_mk {t : GenericType} {origin : Origin} {args : List TypeArg} :
    Within t (.mk origin args) ↔ t = .mk origin args ∨ ∃ t', .type t' ∈ args ∧ Within t t' := by
  constructor
  · intro h
    cases h with
    | refl => exact .inl rfl
    | arg hmem h => exact .inr ⟨_, hmem, h⟩
  · intro h
    rcases h with rfl | ⟨t', hmem, h⟩
    · exact .refl
    · exact .arg hmem h

/-- Models that are the same where the data class says that they are equal. -/
def Distinguished (models : List Model) : Prop :=
  ∀ a ∈ models, ∀ b ∈ models, (a == b) = true ↔ a = b

variable {univ models new : List Model} {m : Model} {genericParams : List String}
  {known : HashMap String Model}

theorem mem_addModel (h : Distinguished univ) (hs : models ⊆ univ) (hm : m ∈ univ) (x : Model) :
    x ∈ addModel models m ↔ x ∈ models ∨ x = m := by
  unfold addModel
  split
  · rename_i hc
    obtain ⟨y, hy, he⟩ := List.contains_iff_exists_mem_beq.1 hc
    have hmy : m = y := (h m hm y (hs hy)).1 he
    exact ⟨.inl, fun hx => hx.elim id fun hxm => hxm ▸ hmy ▸ hy⟩
  · rw [List.mem_append, List.mem_singleton]

theorem mem_updateModels (h : Distinguished univ) (hs : models ⊆ univ) (hnew : new ⊆ univ)
    (x : Model) : x ∈ updateModels models new ↔ x ∈ models ∨ x ∈ new := by
  unfold updateModels
  induction new generalizing models with
  | nil => simp
  | cons m new ih =>
    obtain ⟨hm, hnew'⟩ := List.cons_subset.1 hnew
    have hadd := mem_addModel h hs hm
    have hs' : addModel models m ⊆ univ := fun y hy => (hadd y).1 hy |>.elim (@hs y) (· ▸ hm)
    rw [List.foldl_cons, ih hs' hnew', hadd, List.mem_cons, or_assoc]

/-- The models that are known by name. -/
def Known (known : HashMap String Model) (univ : List Model) : Prop :=
  ∀ name m, known.get? name = some m → m ∈ univ

/-- A type within one that is known, and is not a generic parameter. -/
def Finds (genericParams : List String) (known : HashMap String Model) (t : GenericType)
    (m : Model) : Prop :=
  t.origin.dependencyName ∉ genericParams ∧ known.get? t.origin.dependencyName = some m

mutual

theorem mem_collectDependencies (h : Distinguished univ) (hk : Known known univ) :
    ∀ (t : GenericType) (m : Model), m ∈ collectDependencies genericParams known t ↔
      ∃ t', t'.Within t ∧ Finds genericParams known t' m
  | .mk origin args, m => by
    have hargs := mem_collectArgs h hk args
    have hsub : collectArgs genericParams known args ⊆ univ := by
      intro x hx
      obtain ⟨t, -, t', -, -, hf⟩ := (hargs x).1 hx
      exact hk _ x hf
    have hown : ∀ x, x ∈ (if origin.dependencyName ∈ genericParams then []
        else (known.get? origin.dependencyName).toList) ↔
        Finds genericParams known (.mk origin args) x := by
      intro x
      unfold Finds GenericType.origin
      split
      · rename_i hin
        exact ⟨fun hx => absurd hx List.not_mem_nil, fun hf => absurd hin hf.1⟩
      · rename_i hnot
        rw [Option.mem_toList]
        exact ⟨fun hx => ⟨hnot, hx⟩, fun hf => hf.2⟩
    rw [collectDependencies, mem_updateModels h (fun x hx => hk _ x ((hown x).1 hx).2) hsub, hown,
      hargs]
    constructor
    · intro hx
      rcases hx with hf | ⟨t, hmem, t', hw, hf⟩
      · exact ⟨_, .refl, hf⟩
      · exact ⟨t', .arg hmem hw, hf⟩
    · intro ⟨t', hw, hf⟩
      rcases GenericType.within_mk.1 hw with rfl | ⟨t, hmem, hw'⟩
      · exact .inl hf
      · exact .inr ⟨t, hmem, t', hw', hf⟩

theorem mem_collectArgs (h : Distinguished univ) (hk : Known known univ) :
    ∀ (args : List TypeArg) (m : Model), m ∈ collectArgs genericParams known args ↔
      ∃ t, .type t ∈ args ∧ ∃ t', t'.Within t ∧ Finds genericParams known t' m
  | [], m => by simp [collectArgs]
  | .param name :: args, m => by
    rw [collectArgs, mem_collectArgs h hk args m]
    simp
  | .type t :: args, m => by
    have ht := mem_collectDependencies h hk t
    have hargs := mem_collectArgs h hk args
    have hsub : collectDependencies genericParams known t ⊆ univ := by
      intro x hx
      obtain ⟨t', -, -, hf⟩ := (ht x).1 hx
      exact hk _ x hf
    have hsub' : collectArgs genericParams known args ⊆ univ := by
      intro x hx
      obtain ⟨t, -, t', -, -, hf⟩ := (hargs x).1 hx
      exact hk _ x hf
    rw [collectArgs, mem_updateModels h hsub hsub', ht, hargs]
    simp only [List.mem_cons, TypeArg.type.injEq, exists_eq_or_imp]

end

/-- A model depends on those that a field type finds, at any depth of its arguments. -/
theorem Model.mem_modelDependencies (h : Distinguished univ) (hk : Known known univ) (m dep : Model) :
    dep ∈ m.modelDependencies known ↔
      ∃ decl ∈ m.decls, ∃ t, t.Within decl.t ∧ Finds m.genericParams known t dep := by
  have hcollect : ∀ t x, x ∈ collectDependencies m.genericParams known t ↔
      ∃ t', t'.Within t ∧ Finds m.genericParams known t' x := mem_collectDependencies h hk
  have hsub : ∀ t, collectDependencies m.genericParams known t ⊆ univ := by
    intro t x hx
    obtain ⟨t', -, -, hf⟩ := (hcollect t x).1 hx
    exact hk _ x hf
  have hfold : ∀ (decls : List TypedArg) (models : List Model), models ⊆ univ →
      ∀ x, x ∈ decls.foldl (fun deps decl =>
      updateModels deps (collectDependencies m.genericParams known decl.t)) models ↔
      x ∈ models ∨ ∃ decl ∈ decls, ∃ t, t.Within decl.t ∧ Finds m.genericParams known t x := by
    intro decls
    induction decls with
    | nil => simp
    | cons decl decls ih =>
      intro models hs x
      have hup := mem_updateModels h hs (hsub decl.t)
      have hs' : updateModels models (collectDependencies m.genericParams known decl.t) ⊆ univ :=
        fun y hy => (hup y).1 hy |>.elim (@hs y) (@hsub decl.t y)
      rw [List.foldl_cons, ih _ hs', hup, hcollect]
      simp only [List.mem_cons, exists_eq_or_imp, or_assoc]
  rw [modelDependencies, hfold m.decls [] (List.nil_subset _)]
  simp

end Tierkreis.Idl
