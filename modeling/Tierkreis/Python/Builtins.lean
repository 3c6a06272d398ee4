import Tierkreis.Lib.Float64
import Tierkreis.Python.Texts
import Tierkreis.Python.Values

/-!
# The builtins that both languages have

A call is one of these builtins with arguments of its annotated types. The
Python worker returns what its function returns; the in-memory executor decodes
the same arguments and runs its own.
-/

namespace Tierkreis

open Lib Lib.Float64

/-! ## Arguments -/

/-- A truth value is an integer. -/
inductive IntArg where
  | bool (b : Bool)
  | int (n : Int)

def IntArg.value : IntArg → Int
  | .bool b => if b then 1 else 0
  | .int n => n

def IntArg.toPType : IntArg → PType
  | .bool b => .bool b
  | .int n => .int n

/-- What may stand for a float. -/
inductive Num where
  | int (a : IntArg)
  | float (x : Float)

def Num.toPType : Num → PType
  | .int a => a.toPType
  | .float x => .float x

/-- The exact value, if it is finite. -/
def Num.exact (R : Rounding) : Num → Option Rat
  | .int a => some a.value
  | .float x => R.exact x

/-- The number that a value is. -/
def Num.ofPType : PType → Option Num
  | .bool b => some (.int (.bool b))
  | .int n => some (.int (.int n))
  | .float x => some (.float x)
  | _ => none

/-- A string as `loads` gives it. -/
structure LoadedStr where
  chars : PyStr
  loaded : Loaded chars

/-- An argument for a parameter that expects json: top-level bytes are none. -/
structure JsonArg where
  value : PType
  notBytes : ∀ b, value ≠ .bytes b
  loaded : (docOf value).Loaded

/-! ## The Python functions -/

namespace PyBuiltins

variable (R : Rounding)

def iadd (a b : Int) : Int := a + b

def itimes (a b : Int) : Int := a * b

/-- `//` raises at zero and rounds down. -/
def idivide (a b : Int) : Option Int := if b = 0 then none else some (a.fdiv b)

/-- `%` has the sign of the divisor. -/
def mod (a b : Int) : Option Int := if b = 0 then none else some (a.fmod b)

def igt (a b : Int) : Bool := decide (a > b)

/-- Integers and floats are compared by their exact values. -/
def eqNum : Num → Num → Bool
  | .int a, .int b => decide (a.value = b.value)
  | .int a, .float y => decide (R.exact y = some a.value)
  | .float x, .int b => decide (R.exact x = some b.value)
  | .float x, .float y => x == y

/-- `loads` makes one object of all `NaN`s. -/
def isNan : PType → PType → Bool
  | .float x, .float y => x.isNaN && y.isNaN
  | _, _ => false

mutual

/-- `==` of values that `loads` gives. Parts of lists and dicts are equal also if they are one
object. -/
def eq : PType → PType → Bool
  | .none, .none => true
  | .str s, .str t => decide (s = t)
  | .bytes b, .bytes c => decide (b = c)
  | .list ps, .list qs => eqItems ps qs
  | .dict ps, .dict qs => eqEntries ps qs
  | p, q =>
    match Num.ofPType p, Num.ofPType q with
    | some a, some b => eqNum R a b
    | _, _ => false

def eqItems : List PType → List PType → Bool
  | [], [] => true
  | p :: ps, q :: qs => (isNan p q || eq p q) && eqItems ps qs
  | _, _ => false

def eqEntries : List (PyStr × PType) → List (PyStr × PType) → Bool
  | [], [] => true
  | (k, p) :: ps, (l, q) :: qs => decide (k = l) && (isNan p q || eq p q) && eqEntries ps qs
  | _, _ => false

end

def neq (p q : PType) : Bool := !eq R p q

def strEq (a b : PyStr) : Bool := decide (a = b)

def tkrTuple (a b : PType) : PType := .list [a, b]

def isFloat : Num → Bool
  | .float _ => true
  | .int _ => false

/-- `statistics.mean`: the exact mean, rounded once. The mean of integers is an integer where
it can be. -/
def mean (values : List Num) : Option PType :=
  if values = [] then none
  else
    (values.mapM (Num.exact R)).bind fun exacts =>
      let m := exacts.sum / values.length
      if values.any isFloat = false ∧ m.den = 1 then some (.int m.num)
      else (R.nearest m).map .float

/-- `range` raises at a step of zero. -/
def tkrRange (start stop step : Int) : Option (List Int) :=
  if step = 0 then none
  else if 0 < step then some (rangeItems start stop step)
  else some ((rangeItems (-start) (-stop) (-step)).map fun n => -n)

def conjugate (re im : Float) : PType := .complex re (-im)

end PyBuiltins

/-! ## Calls -/

/-- A task of two parameters of one type. -/
inductive PairTask where
  | iadd | itimes | idivide | mod | igt | randInt | strEq

namespace PairTask

def name : PairTask → String
  | iadd => "iadd"
  | itimes => "itimes"
  | idivide => "idivide"
  | mod => "mod"
  | igt => "igt"
  | randInt => "rand_int"
  | strEq => "str_eq"

/-- A value of the annotated type. -/
def Takes : PairTask → PType → Prop
  | strEq, p => ∃ s, p = .str s
  | _, p => ∃ a : IntArg, p = a.toPType

end PairTask

/-- The annotations are not checked: a task may be given values of another type. -/
inductive Call where
  | iadd (a b : IntArg)
  | itimes (a b : IntArg)
  | idivide (a b : IntArg)
  | mod (a b : IntArg)
  | igt (a b : IntArg)
  | randInt (a b : IntArg)
  | mistyped (task : PairTask) (a b : JsonArg) (h : ¬(task.Takes a.value ∧ task.Takes b.value))
  | eq (a b : JsonArg)
  | neq (a b : JsonArg)
  | strEq (a b : LoadedStr)
  | tkrStr (value : JsonArg)
  | tkrTuple (a b : JsonArg)
  | untuple (a b : PType)
  | mean (values : List Num)
  | tkrRange (start stop : IntArg) (step : Option IntArg)
  | conjugate (re im : Float)

namespace Call

def name : Call → String
  | iadd .. => "iadd"
  | itimes .. => "itimes"
  | idivide .. => "idivide"
  | mod .. => "mod"
  | igt .. => "igt"
  | randInt .. => "rand_int"
  | mistyped task .. => task.name
  | eq .. => "eq"
  | neq .. => "neq"
  | strEq .. => "str_eq"
  | tkrStr .. => "tkr_str"
  | tkrTuple .. => "tkr_tuple"
  | untuple .. => "untuple"
  | mean .. => "mean"
  | tkrRange .. => "tkr_range"
  | conjugate .. => "conjugate"

def args : Call → List (String × PType)
  | iadd a b | itimes a b | idivide a b | mod a b | igt a b | randInt a b =>
    [("a", a.toPType), ("b", b.toPType)]
  | mistyped _ a b _ | eq a b | neq a b => [("a", a.value), ("b", b.value)]
  | strEq a b => [("a", .str a.chars), ("b", .str b.chars)]
  | tkrStr value => [("value", value.value)]
  | tkrTuple a b => [("a", a.value), ("b", b.value)]
  | untuple a b => [("value", .list [a, b])]
  | mean values => [("values", .list (values.map Num.toPType))]
  | tkrRange start stop none => [("start", start.toPType), ("stop", stop.toPType)]
  | tkrRange start stop (some step) =>
    [("start", start.toPType), ("stop", stop.toPType), ("step", step.toPType)]
  | conjugate re im => [("z", .complex re im)]

def inputs (C : PyCodec) (call : Call) : Inputs :=
  .ofList (call.args.map fun e => (e.1, bytesFromPtype C e.2))

/-- What a call may return in Python, by output port. Of values of another type it may return
anything. -/
def Returns (R : Rounding) (P : PyRepr) : Call → List (String × PType) → Prop
  | iadd a b, outputs => outputs = [("value", .int (PyBuiltins.iadd a.value b.value))]
  | itimes a b, outputs => outputs = [("value", .int (PyBuiltins.itimes a.value b.value))]
  | idivide a b, outputs =>
    ∃ n, PyBuiltins.idivide a.value b.value = some n ∧ outputs = [("value", .int n)]
  | mod a b, outputs =>
    ∃ n, PyBuiltins.mod a.value b.value = some n ∧ outputs = [("value", .int n)]
  | igt a b, outputs => outputs = [("value", .bool (PyBuiltins.igt a.value b.value))]
  | randInt a b, outputs => ∃ n, a.value ≤ n ∧ n ≤ b.value ∧ outputs = [("value", .int n)]
  | mistyped .., _ => True
  | eq a b, outputs =>
    ∃ p q, decode (docOf a.value) = some p ∧ decode (docOf b.value) = some q ∧
      outputs = [("value", .bool (PyBuiltins.eq R p q))]
  | neq a b, outputs =>
    ∃ p q, decode (docOf a.value) = some p ∧ decode (docOf b.value) = some q ∧
      outputs = [("value", .bool (PyBuiltins.neq R p q))]
  | strEq a b, outputs => outputs = [("value", .bool (PyBuiltins.strEq a.chars b.chars))]
  | tkrStr value, outputs =>
    ∃ p, decode (docOf value.value) = some p ∧ outputs = [("value", .str (valueStr P p))]
  | tkrTuple a b, outputs => outputs = [("value", PyBuiltins.tkrTuple a.value b.value)]
  | untuple a b, outputs => outputs = [("a", a), ("b", b)]
  | mean values, outputs => ∃ p, PyBuiltins.mean R values = some p ∧ outputs = [("value", p)]
  | tkrRange start stop step, outputs =>
    ∃ items, PyBuiltins.tkrRange start.value stop.value (step.elim 1 IntArg.value) = some items ∧
      outputs = [("value", .list (items.map .int))]
  | conjugate re im, outputs => outputs = [("value", PyBuiltins.conjugate re im)]

/-- The Rust builtin returns outputs which the Python one may return. -/
def Agrees (R : Rounding) (P : PyRepr) (C : PyCodec) (S : ValueSerde) (M : Machine)
    (call : Call) : Prop :=
  ∃ outs outputs, runBuiltin S M call.name (call.inputs C) = .ok outs ∧
    call.Returns R P outputs ∧
      ∀ e ∈ outputs, ∃ bytes, outs.get? e.1 = some bytes ∧ C.loads bytes = some (docOf e.2)

end Call

end Tierkreis
