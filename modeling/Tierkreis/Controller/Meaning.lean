import Mathlib.Data.List.Forall2
import Tierkreis.Controller.MapNode
import Tierkreis.Lib.StateExcept

/-!
# What a graph means

The values that a graph gives for its inputs, without the storage and without
the order in which nodes are walked: a task gives what its function returns, an
eval node what the graph gives that it is handed, a loop what its last round
gives, a map what its elements give. A reference to the enclosing scope means
the input of that name, and `body` the graph itself.
-/

namespace Tierkreis.Controller

open Lib Lib.StateExcept

variable {V : Type}

/-- The values at the ports of a node. -/
abbrev PortValues := HashMap PortID Bytes

/-- A value, or all those of which the ports begin alike. -/
inductive Arg
  | value (bs : Bytes)
  | family (values : List (PortID × Bytes))
  deriving DecidableEq

/-- What is outside of the graph: the codec of values, and the functions of the workers. -/
structure Interpretation (V : Type) where
  toBytes : V → Option Bytes
  ofGraph : GraphData V → V
  graphOf : Bytes → Option (GraphData V)
  shouldContinue : Bytes → Option Bool
  /-- What a function gives, by launcher and name. -/
  run : String → String → List (PortID × Arg) → Option PortValues
  /-- A constant that was written to a file and read again. -/
  reload : V → V := id

/-- `".".join(name.split(".")[:-1])`. -/
def launcherName (name : String) : String := ".".intercalate (name.splitOn ".").dropLast

/-- `name.split(".")[-1]`. -/
def taskName (name : String) : String := (name.splitOn ".").getLastD ""

/-- A port that ends in a star stands for all those that it begins. -/
def isStar (port : PortID) : Bool := port.toList.getLast? = some '*'

def readPort (outs : PortValues) (port : PortID) : Option Arg :=
  if isStar port then
    some (.family ((outs.inKeyOrder fun a b => decide (a ≤ b)).filter fun e =>
      port.toList.dropLast.isPrefixOf e.1.toList))
  else (outs.get? port).map .value

/-- A single value is read from a port of that very name. -/
theorem of_readPort_eq_value {outs : PortValues} {port : PortID} {bs : Bytes}
    (h : readPort outs port = some (.value bs)) : isStar port = false ∧ outs.get? port = some bs := by
  unfold readPort at h
  cases hs : isStar port with
  | true =>
    rw [hs] at h
    cases h
  | false =>
    rw [hs] at h
    obtain ⟨bs', hget, heq⟩ := Option.map_eq_some_iff.1 h
    cases heq
    exact ⟨rfl, hget⟩

/-! ## One node -/

section Node

variable (W : Interpretation V) (E : GraphData V → PortValues → PortValues → Prop)
  (look : ValueRef → Arg → Prop)

/-- A value for each input. -/
def Values (inputs : HashMap PortID ValueRef) (vals : PortValues) : Prop :=
  List.Forall₂ (fun e v => e.1 = v.1 ∧ look e.2 (.value v.2)) inputs.toList vals.toList

def Args (inputs : HashMap PortID ValueRef) (args : List (PortID × Arg)) : Prop :=
  List.Forall₂ (fun e a => e.1 = a.1 ∧ look e.2 a.2) inputs.toList args

/-- The inputs of the element at a port. -/
def ElementValues (inputs : HashMap PortID ValueRef) (port : PortID) (vals : PortValues) : Prop :=
  List.Forall₂ (fun e v => e.1 = v.1 ∧
    if e.2.2 = "*" then ∃ family, look e.2 (.family family) ∧ family.lookup port = some v.2
    else look e.2 (.value v.2)) inputs.toList vals.toList

/-- What a round is given: the inputs of the round before, overlaid by its outputs. -/
def nextInputs (ports : List PortID) (body : Bytes) (ins outs : PortValues) : PortValues :=
  ((HashMap.ofList (ports.filterMap fun k => (ins.get? k).map fun v => (k, v))).extend outs).insert
    "body" body

/-- The rounds of a loop, from the inputs of one of them. -/
inductive Rounds (g : GraphData V) (body : Bytes) (continuePort : PortID) (ports : List PortID) :
    PortValues → PortValues → Prop
  | last {ins outs : PortValues} (h : E g ins outs)
      (hc : (outs.get? continuePort).bind W.shouldContinue = some false) :
      Rounds g body continuePort ports ins outs
  | next {ins outs final : PortValues} (h : E g ins outs)
      (hc : (outs.get? continuePort).bind W.shouldContinue = some true)
      (hrest : Rounds g body continuePort ports (nextInputs ports body ins outs) final) :
      Rounds g body continuePort ports ins final

/-- The elements are told apart by the numbers behind their ports, and one is the first. -/
def Numbered (family : List (PortID × Bytes)) : Prop :=
  ∃ numbers : List Int, List.Forall₂ (fun e n => pyInt (lastPart e.1) = .ok n) family numbers ∧
    numbers.Nodup ∧ (family ≠ [] → 0 ∈ numbers)

/-- The outputs of the elements, each under the port of its element. -/
def elementOutputs (family : List (PortID × Bytes)) (results : List PortValues) : PortValues :=
  .ofList ((family.zip results).flatMap fun e =>
    e.2.toList.map fun o => (outputPort o.1 e.1.1, o.2))

/-- `b"true"`. -/
def trueBytes : Bytes := [116, 114, 117, 101]

/-- What a node gives, where `look` tells what its references mean and `E` what graphs give. -/
def NodeGives (inputs : HashMap PortID ValueRef) : NodeKind V → PortValues → Prop
  | .function functionName, outs =>
    ∃ args, Args look inputs args ∧
      W.run (launcherName functionName) (taskName functionName) args = some outs
  | .eval graph, outs =>
    ∃ vals body g, Values look inputs vals ∧ look graph (.value body) ∧ W.graphOf body = some g ∧
      E g (vals.insert "body" body) outs
  | .loop body continuePort _, outs =>
    ∃ vals bs g, Values look inputs vals ∧ look body (.value bs) ∧ W.graphOf bs = some g ∧
      Rounds W E g bs continuePort (inputs.toList.map Prod.fst) (vals.insert "body" bs) outs
  | .map body, outs =>
    ∃ args ref family bs g results, Args look inputs args ∧ firstRef inputs = .ok ref ∧
      look ref (.family family) ∧ Numbered family ∧ look body (.value bs) ∧ W.graphOf bs = some g ∧
      List.Forall₂ (fun e outs => ∃ vals, ElementValues look inputs e.1 vals ∧
        E g ((HashMap.ofList [("body", bs)]).extend vals) outs) family results ∧
      outs = elementOutputs family results
  | .const value, outs => ∃ bs, W.toBytes value = some bs ∧ outs = .ofList [("value", bs)]
  | .ifelse pred ifTrue ifFalse, outs =>
    ∃ p bs, look pred (.value p) ∧
      look (if p = trueBytes then ifTrue else ifFalse) (.value bs) ∧ outs = .ofList [("value", bs)]
  | .eifelse pred ifTrue ifFalse, outs =>
    ∃ p t f, look pred (.value p) ∧ look ifTrue (.value t) ∧ look ifFalse (.value f) ∧
      outs = .ofList [("value", if p = trueBytes then t else f)]
  | .input _, _ => False
  | .output, outs => Values look inputs outs

end Node

/-! ## Graphs -/

/-- The kind of a node and its inputs. -/
def GraphData.nodeAt? (g : GraphData V) (i : Nat) :
    Option (NodeKind V × HashMap PortID ValueRef) :=
  g.nodes[i]?.map fun n => (n.kind, n.inputs)

theorem exists_of_nodeAt? {g : GraphData V} {i : Nat} {kind : NodeKind V}
    {inputs : HashMap PortID ValueRef} (h : g.nodeAt? i = some (kind, inputs)) :
    ∃ node, g.nodes[i]? = some node ∧ node.kind = kind ∧ node.inputs = inputs := by
  obtain ⟨node, hnode, heq⟩ := Option.map_eq_some_iff.1 h
  cases heq
  exact ⟨node, hnode, rfl, rfl⟩

/-- What a reference means in a graph, where `E` tells what other graphs give. -/
inductive Gives (W : Interpretation V) (E : GraphData V → PortValues → PortValues → Prop)
    (g : GraphData V) (env : PortValues) : ValueRef → Arg → Prop
  | scope {port : PortID} {a : Arg} (h : readPort env port = some a) : Gives W E g env (-1, port) a
  | input {i : Nat} {name : String} {inputs : HashMap PortID ValueRef} {port : PortID} {a : Arg}
      {bs : Bytes} (hn : g.nodeAt? i = some (.input name, inputs)) (h : env.get? name = some bs)
      (ha : readPort (.ofList [(name, bs)]) port = some a) : Gives W E g env (i, port) a
  | node {i : Nat} {kind : NodeKind V} {inputs : HashMap PortID ValueRef} {port : PortID} {a : Arg}
      {outs : PortValues} {look : ValueRef → Arg → Prop} (hn : g.nodeAt? i = some (kind, inputs))
      (hlook : ∀ r b, look r b → Gives W E g env r b) (h : NodeGives W E look inputs kind outs)
      (ha : readPort outs port = some a) : Gives W E g env (i, port) a

/-- What a graph gives at its output, when evaluations are at most so deep. -/
def GraphGives (W : Interpretation V) : Nat → GraphData V → PortValues → PortValues → Prop
  | 0, _, _, _ => False
  | depth + 1, g, env, outs =>
    ∃ (i : Nat) (inputs : HashMap PortID ValueRef), g.graphOutputIdx = some (i : Int) ∧
      g.nodeAt? i = some (.output, inputs) ∧ Values (Gives W (GraphGives W depth) g env) inputs outs

/-- The value of a reference in a graph. -/
def Denotes (W : Interpretation V) (g : GraphData V) (env : PortValues) (r : ValueRef)
    (bs : Bytes) : Prop :=
  ∃ depth, Gives W (GraphGives W depth) g env r (.value bs)

/-! ## Related nodes -/

/-- The same kind of node, with related references. -/
inductive KindRel (R : ValueRef → ValueRef → Prop) : NodeKind V → NodeKind V → Prop
  | function (functionName : String) : KindRel R (.function functionName) (.function functionName)
  | eval {r r' : ValueRef} (h : R r r') : KindRel R (.eval r) (.eval r')
  | loop {r r' : ValueRef} (continuePort : PortID) (name : Option String) (h : R r r') :
      KindRel R (.loop r continuePort name) (.loop r' continuePort name)
  | map {r r' : ValueRef} (h : R r r') : KindRel R (.map r) (.map r')
  | const (value : V) : KindRel R (.const value) (.const value)
  | ifelse {p p' t t' f f' : ValueRef} (hp : R p p') (ht : R t t') (hf : R f f') :
      KindRel R (.ifelse p t f) (.ifelse p' t' f')
  | eifelse {p p' t t' f f' : ValueRef} (hp : R p p') (ht : R t t') (hf : R f f') :
      KindRel R (.eifelse p t f) (.eifelse p' t' f')
  | output : KindRel R .output .output

/-- The same ports, with related references. -/
def InputsRel (R : ValueRef → ValueRef → Prop) (inputs inputs' : HashMap PortID ValueRef) : Prop :=
  List.Forall₂ (fun e e' => e.1 = e'.1 ∧ R e.2 e'.2) inputs.toList inputs'.toList

section Transport

variable {R : ValueRef → ValueRef → Prop} {inputs inputs' : HashMap PortID ValueRef}

theorem KindRel.symm {kind kind' : NodeKind V} (h : KindRel R kind kind') :
    KindRel (fun r r' => R r' r) kind' kind := by
  cases h with
  | function f => exact .function f
  | eval h => exact .eval h
  | loop port name h => exact .loop port name h
  | map h => exact .map h
  | const v => exact .const v
  | ifelse hp ht hf => exact .ifelse hp ht hf
  | eifelse hp ht hf => exact .eifelse hp ht hf
  | output => exact .output

theorem InputsRel.symm (h : InputsRel R inputs inputs') :
    InputsRel (fun r r' => R r' r) inputs' inputs :=
  List.Forall₂.flip (h.imp fun _ _ he => ⟨he.1.symm, he.2⟩)

theorem InputsRel.ports (h : InputsRel R inputs inputs') :
    inputs.toList.map Prod.fst = inputs'.toList.map Prod.fst :=
  forall₂_map_eq (fun _ _ he => he.1) h

theorem InputsRel.firstRef (h : InputsRel R inputs inputs')
    (hstar : ∀ r r', R r r' → (r.2 = "*" ↔ r'.2 = "*")) {ref : ValueRef}
    (hf : firstRef inputs = .ok ref) : ∃ ref', R ref ref' ∧ firstRef inputs' = .ok ref' := by
  unfold Controller.firstRef at hf ⊢
  unfold InputsRel at h
  generalize inputs.toList = l, inputs'.toList = l' at h hf
  induction h with
  | nil => cases hf
  | cons he _ ih =>
    rename_i e e' l l' _
    by_cases hs : e.2.2 = "*"
    · rw [List.find?_cons_of_pos (by simpa using hs)] at hf
      rw [List.find?_cons_of_pos (by simpa using (hstar _ _ he.2).1 hs)]
      cases hf
      exact ⟨_, he.2, rfl⟩
    · rw [List.find?_cons_of_neg (by simpa using hs)] at hf
      rw [List.find?_cons_of_neg (by simpa using fun h => hs ((hstar _ _ he.2).2 h))]
      exact ih hf

variable {look look' : ValueRef → Arg → Prop}

theorem Values.transport {vals : PortValues} (hi : InputsRel R inputs inputs')
    (hl : ∀ r r' a, R r r' → look r a → look' r' a) (h : Values look inputs vals) :
    Values look' inputs' vals :=
  forall₂_comp (fun _ _ _ he hv => ⟨he.1.trans hv.1, hl _ _ _ he.2 hv.2⟩)
    (InputsRel.symm hi) h

theorem Values.get? {vals : PortValues} (h : Values look inputs vals) {port : PortID} {r : ValueRef}
    (hr : inputs.get? port = some r) : ∃ bs, vals.get? port = some bs ∧ look r (.value bs) := by
  obtain ⟨⟨_, bs⟩, hv, rfl, hlook⟩ := forall₂_mem_left h (HashMap.get?_eq_some_iff.1 hr)
  exact ⟨bs, HashMap.get?_eq_some_iff.2 hv, hlook⟩

theorem Values.of_get? {vals : PortValues} (h : Values look inputs vals) {port : PortID} {bs : Bytes}
    (hv : vals.get? port = some bs) : ∃ r, inputs.get? port = some r ∧ look r (.value bs) := by
  obtain ⟨⟨_, r⟩, hr, rfl, hlook⟩ := forall₂_mem_right h (HashMap.get?_eq_some_iff.1 hv)
  exact ⟨r, HashMap.get?_eq_some_iff.2 hr, hlook⟩

theorem Args.transport {args : List (PortID × Arg)} (hi : InputsRel R inputs inputs')
    (hl : ∀ r r' a, R r r' → look r a → look' r' a) (h : Args look inputs args) :
    Args look' inputs' args :=
  forall₂_comp (fun _ _ _ he hv => ⟨he.1.trans hv.1, hl _ _ _ he.2 hv.2⟩) (InputsRel.symm hi) h

theorem ElementValues.transport {vals : PortValues} {port : PortID}
    (hi : InputsRel R inputs inputs') (hstar : ∀ r r', R r r' → (r.2 = "*" ↔ r'.2 = "*"))
    (hl : ∀ r r' a, R r r' → look r a → look' r' a) (h : ElementValues look inputs port vals) :
    ElementValues look' inputs' port vals := by
  refine forall₂_comp (fun e' e v he hv => ⟨he.1.trans hv.1, ?_⟩) (InputsRel.symm hi) h
  by_cases hs : e.2.2 = "*"
  · rw [if_pos ((hstar _ _ he.2).1 hs)]
    obtain ⟨family, hfamily, hv⟩ := (if_pos hs).mp hv.2
    exact ⟨family, hl _ _ _ he.2 hfamily, hv⟩
  · rw [if_neg fun h => hs ((hstar _ _ he.2).2 h)]
    exact hl _ _ _ he.2 ((if_neg hs).mp hv.2)

theorem Rounds.mono {W : Interpretation V} {E E' : GraphData V → PortValues → PortValues → Prop}
    (hE : ∀ g env outs, E g env outs → E' g env outs) {g : GraphData V} {body : Bytes}
    {continuePort : PortID} {ports : List PortID} {ins outs : PortValues}
    (h : Rounds W E g body continuePort ports ins outs) :
    Rounds W E' g body continuePort ports ins outs := by
  induction h with
  | last h hc => exact .last (hE _ _ _ h) hc
  | next h hc _ ih => exact .next (hE _ _ _ h) hc ih

/-- What a node gives depends on what its references mean, and on what graphs give. -/
theorem NodeGives.transport {W : Interpretation V}
    {E E' : GraphData V → PortValues → PortValues → Prop} {kind kind' : NodeKind V}
    {outs : PortValues} (hk : KindRel R kind kind') (hi : InputsRel R inputs inputs')
    (hstar : ∀ r r', R r r' → (r.2 = "*" ↔ r'.2 = "*"))
    (hl : ∀ r r' a, R r r' → look r a → look' r' a)
    (hE : ∀ g env outs, E g env outs → E' g env outs) (h : NodeGives W E look inputs kind outs) :
    NodeGives W E' look' inputs' kind' outs := by
  cases hk with
  | function f =>
    obtain ⟨args, hargs, hrun⟩ := h
    exact ⟨args, hargs.transport hi hl, hrun⟩
  | eval hr =>
    obtain ⟨vals, body, g, hvals, hbody, hg, hgives⟩ := h
    exact ⟨vals, body, g, hvals.transport hi hl, hl _ _ _ hr hbody, hg, hE _ _ _ hgives⟩
  | loop port name hr =>
    obtain ⟨vals, bs, g, hvals, hbody, hg, hrounds⟩ := h
    refine ⟨vals, bs, g, hvals.transport hi hl, hl _ _ _ hr hbody, hg, ?_⟩
    rw [← InputsRel.ports hi]
    exact hrounds.mono hE
  | map hr =>
    obtain ⟨args, ref, family, bs, g, results, hargs, href, hfamily, hnum, hbody, hg, hresults,
      houts⟩ := h
    obtain ⟨ref', hr', href'⟩ := InputsRel.firstRef hi hstar href
    refine ⟨args, ref', family, bs, g, results, hargs.transport hi hl, href', hl _ _ _ hr' hfamily,
      hnum, hl _ _ _ hr hbody, hg, ?_, houts⟩
    refine hresults.imp ?_
    rintro e outs ⟨vals, hvals, hgives⟩
    exact ⟨vals, hvals.transport hi hstar hl, hE _ _ _ hgives⟩
  | const v => exact h
  | ifelse hp ht hf =>
    obtain ⟨p, bs, hpred, hbranch, houts⟩ := h
    refine ⟨p, bs, hl _ _ _ hp hpred, ?_, houts⟩
    by_cases htrue : p = trueBytes
    · rw [if_pos htrue] at hbranch ⊢
      exact hl _ _ _ ht hbranch
    · rw [if_neg htrue] at hbranch ⊢
      exact hl _ _ _ hf hbranch
  | eifelse hp ht hf =>
    obtain ⟨p, t, f, hpred, htrue, hfalse, houts⟩ := h
    exact ⟨p, t, f, hl _ _ _ hp hpred, hl _ _ _ ht htrue, hl _ _ _ hf hfalse, houts⟩
  | output => exact Values.transport hi hl h

end Transport

/-! ## One meaning -/

section Unique

variable {W : Interpretation V} {E E' : GraphData V → PortValues → PortValues → Prop}
  {look look' : ValueRef → Arg → Prop} {inputs : HashMap PortID ValueRef}

theorem Values.unique {vals vals' : PortValues} (hl : ∀ r a a', look r a → look' r a' → a = a')
    (h : Values look inputs vals) (h' : Values look' inputs vals') : vals = vals' := by
  refine HashMap.toList_inj (forall₂_unique (fun e v v' hv hv' => ?_) h h')
  exact Prod.ext (hv.1.symm.trans hv'.1) (Arg.value.inj (hl _ _ _ hv.2 hv'.2))

theorem ElementValues.unique {vals vals' : PortValues} {port : PortID}
    (hl : ∀ r a a', look r a → look' r a' → a = a') (h : ElementValues look inputs port vals)
    (h' : ElementValues look' inputs port vals') : vals = vals' := by
  refine HashMap.toList_inj (forall₂_unique (fun e v v' hv hv' => ?_) h h')
  refine Prod.ext (hv.1.symm.trans hv'.1) ?_
  by_cases hs : e.2.2 = "*"
  · obtain ⟨family, hf, hlook⟩ := (if_pos hs).mp hv.2
    obtain ⟨family', hf', hlook'⟩ := (if_pos hs).mp hv'.2
    cases hl _ _ _ hf hf'
    exact Option.some.inj (hlook.symm.trans hlook')
  · exact Arg.value.inj (hl _ _ _ ((if_neg hs).mp hv.2) ((if_neg hs).mp hv'.2))

theorem Rounds.unique (hE : ∀ g env outs outs', E g env outs → E' g env outs' → outs = outs')
    {g : GraphData V} {body : Bytes} {continuePort : PortID} {ports : List PortID}
    {ins outs outs' : PortValues} (h : Rounds W E g body continuePort ports ins outs)
    (h' : Rounds W E' g body continuePort ports ins outs') : outs = outs' := by
  induction h with
  | last h hc =>
    cases h' with
    | last h' _ => exact hE _ _ _ _ h h'
    | next h' hc' _ =>
      cases hE _ _ _ _ h h'
      cases hc.symm.trans hc'
  | next h hc _ ih =>
    cases h' with
    | last h' hc' =>
      cases hE _ _ _ _ h h'
      cases hc.symm.trans hc'
    | next h' _ hrest' =>
      cases hE _ _ _ _ h h'
      exact ih hrest'

/-- A node gives one thing, when its references and the graphs do. -/
theorem NodeGives.unique (hl : ∀ r a a', look r a → look' r a' → a = a')
    (hE : ∀ g env outs outs', E g env outs → E' g env outs' → outs = outs') {kind : NodeKind V}
    {outs outs' : PortValues} (h : NodeGives W E look inputs kind outs)
    (h' : NodeGives W E' look' inputs kind outs') : outs = outs' := by
  have hvalue : ∀ {r bs bs'}, look r (.value bs) → look' r (.value bs') → bs = bs' :=
    fun h h' => Arg.value.inj (hl _ _ _ h h')
  cases kind with
  | function f =>
    obtain ⟨args, hargs, hrun⟩ := h
    obtain ⟨args', hargs', hrun'⟩ := h'
    cases forall₂_unique (fun e a a' ha ha' => Prod.ext (ha.1.symm.trans ha'.1)
      (hl _ _ _ ha.2 ha'.2)) hargs hargs'
    exact Option.some.inj (hrun.symm.trans hrun')
  | eval graph =>
    obtain ⟨vals, body, g, hvals, hbody, hg, hgives⟩ := h
    obtain ⟨vals', body', g', hvals', hbody', hg', hgives'⟩ := h'
    cases hvals.unique hl hvals'
    cases hvalue hbody hbody'
    cases hg.symm.trans hg'
    exact hE _ _ _ _ hgives hgives'
  | loop body port name =>
    obtain ⟨vals, bs, g, hvals, hbody, hg, hrounds⟩ := h
    obtain ⟨vals', bs', g', hvals', hbody', hg', hrounds'⟩ := h'
    cases hvals.unique hl hvals'
    cases hvalue hbody hbody'
    cases hg.symm.trans hg'
    exact hrounds.unique hE hrounds'
  | map body =>
    obtain ⟨-, ref, family, bs, g, results, -, href, hfamily, -, hbody, hg, hresults, rfl⟩ := h
    obtain ⟨-, ref', family', bs', g', results', -, href', hfamily', -, hbody', hg', hresults',
      rfl⟩ := h'
    cases href.symm.trans href'
    cases hl _ _ _ hfamily hfamily'
    cases hvalue hbody hbody'
    cases hg.symm.trans hg'
    refine congrArg _ (forall₂_unique ?_ hresults hresults')
    rintro e outs outs' ⟨vals, hvals, hgives⟩ ⟨vals', hvals', hgives'⟩
    cases hvals.unique hl hvals'
    exact hE _ _ _ _ hgives hgives'
  | const v =>
    obtain ⟨bs, hbs, rfl⟩ := h
    obtain ⟨bs', hbs', rfl⟩ := h'
    cases hbs.symm.trans hbs'
    rfl
  | ifelse pred ifTrue ifFalse =>
    obtain ⟨p, bs, hpred, hbranch, rfl⟩ := h
    obtain ⟨p', bs', hpred', hbranch', rfl⟩ := h'
    cases hvalue hpred hpred'
    cases hvalue hbranch hbranch'
    rfl
  | eifelse pred ifTrue ifFalse =>
    obtain ⟨p, t, f, hpred, htrue, hfalse, rfl⟩ := h
    obtain ⟨p', t', f', hpred', htrue', hfalse', rfl⟩ := h'
    cases hvalue hpred hpred'
    cases hvalue htrue htrue'
    cases hvalue hfalse hfalse'
    rfl
  | input name => exact h.elim
  | output => exact Values.unique hl h h'

theorem Gives.unique (hE : ∀ g env outs outs', E g env outs → E' g env outs' → outs = outs')
    {g : GraphData V} {env : PortValues} {r : ValueRef} {a a' : Arg} (h : Gives W E g env r a)
    (h' : Gives W E' g env r a') : a = a' := by
  induction h generalizing a' with
  | scope h =>
    cases h' with
    | scope h' => exact Option.some.inj (h.symm.trans h')
  | input hn h ha =>
    cases h' with
    | input hn' h' ha' =>
      cases hn.symm.trans hn'
      cases h.symm.trans h'
      exact Option.some.inj (ha.symm.trans ha')
    | node hn' _ h' _ =>
      cases hn.symm.trans hn'
      exact h'.elim
  | node hn _ h ha ih =>
    cases h' with
    | input hn' _ _ =>
      cases hn.symm.trans hn'
      exact h.elim
    | node hn' hlook' h' ha' =>
      cases hn.symm.trans hn'
      cases NodeGives.unique (fun r a a' h h' => ih r a h (hlook' r a' h')) hE h h'
      exact Option.some.inj (ha.symm.trans ha')

theorem GraphGives.unique (W : Interpretation V) : ∀ (depth depth' : Nat) (g : GraphData V)
    (env outs outs' : PortValues), GraphGives W depth g env outs → GraphGives W depth' g env outs' →
      outs = outs'
  | 0, _, _, _, _, _, h, _ => h.elim
  | _ + 1, 0, _, _, _, _, _, h' => h'.elim
  | depth + 1, depth' + 1, g, env, outs, outs', h, h' => by
    obtain ⟨i, inputs, hi, hn, hvals⟩ := h
    obtain ⟨i', inputs', hi', hn', hvals'⟩ := h'
    cases hi.symm.trans hi'
    cases hn.symm.trans hn'
    exact hvals.unique (fun _ _ _ h h' => h.unique (GraphGives.unique W depth depth') h') hvals'

/-- A reference has one value. -/
theorem Denotes.unique {g : GraphData V} {env : PortValues} {r : ValueRef} {bs bs' : Bytes}
    (h : Denotes W g env r bs) (h' : Denotes W g env r bs') : bs = bs' := by
  obtain ⟨depth, h⟩ := h
  obtain ⟨depth', h'⟩ := h'
  exact Arg.value.inj (h.unique (GraphGives.unique W depth depth') h')

end Unique

/-! ## More nodes -/

theorem kindRel_refl {R : ValueRef → ValueRef → Prop} (hR : ∀ r, R r r) {kind : NodeKind V}
    (h : ∀ name, kind ≠ .input name) : KindRel R kind kind := by
  cases kind with
  | function f => exact .function f
  | eval r => exact .eval (hR r)
  | loop r port name => exact .loop port name (hR r)
  | map r => exact .map (hR r)
  | const v => exact .const v
  | ifelse p t f => exact .ifelse (hR p) (hR t) (hR f)
  | eifelse p t f => exact .eifelse (hR p) (hR t) (hR f)
  | input name => exact absurd rfl (h name)
  | output => exact .output

/-- A value is still given when there are more nodes, and graphs give more. -/
theorem Gives.mono {W : Interpretation V} {E E' : GraphData V → PortValues → PortValues → Prop}
    (hE : ∀ g env outs, E g env outs → E' g env outs) {g g' : GraphData V}
    (hg : ∀ i n, g.nodeAt? i = some n → g'.nodeAt? i = some n) {env : PortValues} {r : ValueRef}
    {a : Arg} (h : Gives W E g env r a) : Gives W E' g' env r a := by
  induction h with
  | scope h => exact .scope h
  | input hn h ha => exact .input (hg _ _ hn) h ha
  | node hn _ h ha ih =>
    refine .node (hg _ _ hn) ih (NodeGives.transport (R := Eq) (kindRel_refl (fun _ => rfl) ?_) ?_
      ?_ ?_ hE h) ha
    · rintro name rfl
      exact h
    · exact List.forall₂_same.2 fun _ _ => ⟨rfl, rfl⟩
    · rintro r _ rfl
      rfl
    · rintro r _ a rfl h
      exact h

theorem GraphGives.mono (W : Interpretation V) : ∀ {depth depth' : Nat} (_ : depth ≤ depth')
    (g : GraphData V) (env outs : PortValues), GraphGives W depth g env outs →
      GraphGives W depth' g env outs
  | 0, _, _, _, _, _, h => h.elim
  | depth + 1, 0, hle, _, _, _, _ => absurd hle (by omega)
  | depth + 1, depth' + 1, hle, g, env, outs, h => by
    obtain ⟨i, inputs, hi, hn, hvals⟩ := h
    refine ⟨i, inputs, hi, hn, hvals.imp fun _ _ hv => ⟨hv.1, ?_⟩⟩
    exact hv.2.mono (GraphGives.mono W (Nat.le_of_succ_le_succ hle)) fun _ _ h => h

/-- The value of `y`, and one more. -/
def incGraph : GraphData Bool where
  nodes := [{ kind := .input "y", outputs := .ofList [("y", [1])] },
    { kind := .function "w.inc", inputs := .ofList [("a", (0, "y"))],
      outputs := .ofList [("value", [2])] },
    { kind := .output, inputs := .ofList [("z", (1, "value"))] }]
  graphInputs := {"y"}
  graphOutputIdx := some 2

/-- The double of `x` is handed to a graph where `c` holds. Its function has a breakpoint. -/
def doubleGraph : GraphData Bool where
  nodes := [{ kind := .input "x", outputs := .ofEntries [("x", [2, 3, 7])] },
    { kind := .input "c", outputs := .ofEntries [("c", [4])] },
    { kind := .function "w.double", inputs := .ofEntries [("a", (0, "x"))],
      outputs := .ofEntries [("value", [4])] },
    { kind := .function "w.never", inputs := .ofEntries [("a", (0, "x"))],
      outputs := .ofEntries [("value", [4])] },
    { kind := .ifelse (1, "c") (2, "value") (3, "value"), outputs := .ofEntries [("value", [6])] },
    { kind := .const false, outputs := .ofEntries [("value", [6])] },
    { kind := .eval (5, "value"), inputs := .ofEntries [("y", (4, "value"))],
      outputs := .ofEntries [("z", [7])] },
    { kind := .output, inputs := .ofEntries [("z", (6, "z")), ("x", (0, "x"))] }]
  graphInputs := {"x", "c"}
  graphOutputIdx := some 7
  nodeMetadata := .ofEntries [(2, { hasBreakpoint := true })]

/-- The values are the graphs: the outer one and the one that it evaluates. What the functions give
is told from their argument. -/
def doubleWorker : Interpretation Bool where
  toBytes outer := some (if outer then [123] else [91])
  ofGraph _ := true
  graphOf bs := if bs = [123] then some doubleGraph else if bs = [91] then some incGraph else none
  shouldContinue _ := none
  run _ _ args :=
    match args with
    | [("a", .value bs)] => some (.ofList [("value", if bs = [53] then [49, 48] else bs ++ [43])])
    | _ => none

def doubleInputs : PortValues := .ofEntries [("x", [53]), ("c", trueBytes)]

/-- `x` as it is given, and one more than its double. -/
def doubleOutputs : PortValues := .ofEntries [("z", [49, 48, 43]), ("x", [53])]

theorem gives_inc (env : PortValues) (h : env.get? "y" = some [49, 48]) :
    GraphGives doubleWorker 1 incGraph env (.ofEntries [("z", [49, 48, 43])]) := by
  have hy : Gives doubleWorker (GraphGives doubleWorker 0) incGraph env (0, "y")
      (.value [49, 48]) := .input rfl h rfl
  have hargs : Args (Gives doubleWorker (GraphGives doubleWorker 0) incGraph env)
      (.ofList [("a", (0, "y"))]) [("a", .value [49, 48])] := .cons ⟨rfl, hy⟩ .nil
  have hinc : NodeGives doubleWorker (GraphGives doubleWorker 0)
      (Gives doubleWorker (GraphGives doubleWorker 0) incGraph env) (.ofList [("a", (0, "y"))])
      (.function "w.inc") (.ofList [("value", [49, 48, 43])]) := ⟨_, hargs, rfl⟩
  exact ⟨2, _, rfl, rfl, .cons ⟨rfl, .node rfl (fun _ _ h => h) hinc rfl⟩ .nil⟩

/-- What the outer graph means. Nothing is asked of the branch that is not selected. -/
theorem gives_double : GraphGives doubleWorker 2 doubleGraph (doubleInputs.insert "body" [123])
    doubleOutputs := by
  let look : ValueRef → Arg → Prop := Gives doubleWorker (GraphGives doubleWorker 1) doubleGraph
    (doubleInputs.insert "body" [123])
  have hx : look (0, "x") (.value [53]) := .input rfl rfl rfl
  have hc : look (1, "c") (.value trueBytes) := .input rfl rfl rfl
  have hdouble : look (2, "value") (.value [49, 48]) := by
    have hargs : Args look (.ofEntries [("a", (0, "x"))]) [("a", .value [53])] :=
      .cons ⟨rfl, hx⟩ .nil
    have hgives : NodeGives doubleWorker (GraphGives doubleWorker 1) look
        (.ofEntries [("a", (0, "x"))]) (.function "w.double") (.ofList [("value", [49, 48])]) :=
      ⟨_, hargs, rfl⟩
    exact .node rfl (fun _ _ h => h) hgives rfl
  have hselected : look (4, "value") (.value [49, 48]) := by
    have hgives : NodeGives doubleWorker (GraphGives doubleWorker 1) look ∅
        (.ifelse (1, "c") (2, "value") (3, "value")) (.ofList [("value", [49, 48])]) :=
      ⟨trueBytes, [49, 48], hc, hdouble, rfl⟩
    exact .node rfl (fun _ _ h => h) hgives rfl
  have hgraph : look (5, "value") (.value [91]) := by
    have hgives : NodeGives doubleWorker (GraphGives doubleWorker 1) look ∅ (.const false)
        (.ofList [("value", [91])]) := ⟨[91], rfl, rfl⟩
    exact .node rfl (fun _ _ h => h) hgives rfl
  have hinc : look (6, "z") (.value [49, 48, 43]) := by
    have hvals : Values look (.ofEntries [("y", (4, "value"))]) (.ofEntries [("y", [49, 48])]) :=
      .cons ⟨rfl, hselected⟩ .nil
    have hgives : NodeGives doubleWorker (GraphGives doubleWorker 1) look
        (.ofEntries [("y", (4, "value"))]) (.eval (5, "value"))
        (.ofEntries [("z", [49, 48, 43])]) :=
      ⟨_, _, _, hvals, hgraph, rfl, gives_inc _ rfl⟩
    exact .node rfl (fun _ _ h => h) hgives rfl
  exact ⟨7, _, rfl, rfl, .cons ⟨rfl, hinc⟩ (.cons ⟨rfl, hx⟩ .nil)⟩

end Tierkreis.Controller
