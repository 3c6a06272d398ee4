import Tierkreis.Executor.InMemory

/-!
# Builtin tasks

The tasks that the in-memory executor runs itself: a table of small operations
on decoded inputs. Arithmetic is that of a build with overflow checks, where an
overflow is a panic; a build without them wraps around at the same inputs.
-/

namespace Tierkreis

open Lib

abbrev Value := JsonValue Float

namespace JsonValue

mutual

/-- An integer never equals a float. -/
def eq : Value → Value → Bool
  | null, null => true
  | bool a, bool b => a == b
  | int a, int b => a == b
  | float a, float b => a == b
  | str a, str b => a == b
  | arr a, arr b => eqItems a b
  | obj a, obj b => eqEntries a b
  | _, _ => false

def eqItems : List Value → List Value → Bool
  | [], [] => true
  | a :: as, b :: bs => eq a b && eqItems as bs
  | _, _ => false

def eqEntries : List (String × Value) → List (String × Value) → Bool
  | [], [] => true
  | (k, a) :: as, (l, b) :: bs => k == l && eq a b && eqEntries as bs
  | _, _ => false

end

/-- Numbers that are not finite are written as `null`. -/
def ofFloat (x : Float) : Value := if x.isFinite then .float x else .null

end JsonValue

/-- The `serde_json` functions of the builtins. `display` is the text of a value, `mismatch` the
error for bytes that are not of an expected type. -/
structure ValueSerde where
  fromSlice : Bytes → Except String Value
  toVec : Value → Bytes
  display : Value → String
  mismatch : String → Bytes → String

/-- What the builtins ask of the machine: room for so many integers, a random integer, which of two
zeros is the greater or smaller one, and the text of a float. -/
structure Machine where
  allocates : Nat → Bool
  random : Int → Int → Int
  takesFirst : Float → Float → Bool
  displayFloat : Float → String

abbrev Inputs := HashMap String Bytes

inductive Builtin where
  | ieq | ine | iltS | igtS | ilteS | igteS
  | imaxS | iminS | iadd | isub | ineg | imul | idivS | imodS | iabs | iand | ior | ixor | itostringS
  | feq | fne | flt | fgt | flte | fgte
  | fmax | fmin | fadd | fsub | fneg | fabs | fmul | idiv | ffloor | fceil | ftostring
  | eq | ne
  | str | strEq | tuple | untuple | mean | range | conjugate | sleep | randInt
  deriving DecidableEq

/-- Some builtins have a second, legacy name. -/
def Builtin.ofName : String → Option Builtin
  | "ieq" => some ieq
  | "ine" => some ine
  | "ilt_s" => some iltS
  | "igt_s" | "igt" => some igtS
  | "ilte_s" => some ilteS
  | "igte_s" => some igteS
  | "imax_s" => some imaxS
  | "imin_s" => some iminS
  | "iadd" => some iadd
  | "isub" => some isub
  | "ineg" => some ineg
  | "imul" | "itimes" => some imul
  | "idiv_s" | "idivide" => some idivS
  | "imod_s" | "mod" => some imodS
  | "iabs" => some iabs
  | "iand" => some iand
  | "ior" => some ior
  | "ixor" => some ixor
  | "itostring_s" => some itostringS
  | "feq" => some feq
  | "fne" => some fne
  | "flt" => some flt
  | "fgt" => some fgt
  | "flte" => some flte
  | "fgte" => some fgte
  | "fmax" => some fmax
  | "fmin" => some fmin
  | "fadd" => some fadd
  | "fsub" => some fsub
  | "fneg" => some fneg
  | "fabs" => some fabs
  | "fmul" => some fmul
  | "idiv" => some idiv
  | "ffloor" => some ffloor
  | "fceil" => some fceil
  | "ftostring" => some ftostring
  | "eq" => some eq
  | "ne" | "neq" => some ne
  | "str" | "tkr_str" => some str
  | "str_eq" => some strEq
  | "tuple" | "tkr_tuple" => some tuple
  | "untuple" => some untuple
  | "mean" => some mean
  | "range" | "tkr_range" => some range
  | "conjugate" => some conjugate
  | "sleep" => some sleep
  | "rand_int" => some randInt
  | _ => none

section

variable (S : ValueSerde)

/-! ## Decoding -/

/-- `i64` -/
def asInt : Value → Option Int
  | .int n => if -2 ^ 63 ≤ n ∧ n < 2 ^ 63 then some n else none
  | _ => none

/-- `f64` -/
def asFloat : Value → Option Float
  | .int n => some (Float.ofInt n)
  | .float x => some x
  | _ => none

def asString : Value → Option String
  | .str s => some s
  | _ => none

def asPair : Value → Option (Value × Value)
  | .arr [a, b] => some (a, b)
  | _ => none

def asFloats : Value → Option (List Float)
  | .arr items => items.mapM asFloat
  | _ => none

/-- A complex number is the pair of its parts. -/
def asComplex (v : Value) : Option (Float × Float) := do
  let (re, im) ← asPair v
  pure (← asFloat re, ← asFloat im)

/-- An optional integer. -/
def asOptionalInt : Value → Option (Option Int)
  | .null => some none
  | v => (asInt v).map some

/-- `from_slice` at a type. -/
def fromSliceAs {α : Type} (expected : String) (as : Value → Option α) (asset : Bytes) : Result α :=
  match S.fromSlice asset with
  | .error e => .error (.miette e)
  | .ok v =>
    match as v with
    | some a => .ok a
    | none => .error (.miette (S.mismatch expected asset))

def extractValue {α : Type} (expected : String) (as : Value → Option α) (inputs : Inputs)
    (name : String) : Result α := do
  let asset ← okOr (inputs.get? name) s!"Missing input: {name}"
  fromSliceAs S expected as asset

def extractOptionalInt (inputs : Inputs) (name : String) : Result (Option Int) :=
  match inputs.get? name with
  | none => pure none
  | some asset => fromSliceAs S "Option<i64>" asOptionalInt asset

def int (inputs : Inputs) (name : String) : Result Int := extractValue S "i64" asInt inputs name

def float (inputs : Inputs) (name : String) : Result Float :=
  extractValue S "f64" asFloat inputs name

def value (inputs : Inputs) (name : String) : Result Value := extractValue S "Value" some inputs name

def outputValue (v : Value) : Result Inputs := pure (.ofList [("value", S.toVec v)])

/-! ## Operations -/

def unOp {α : Type} (get : Inputs → String → Result α) (op : α → Result Value) (inputs : Inputs) :
    Result Inputs := do
  let a ← get inputs "a"
  outputValue S (← op a)

def binOp {α : Type} (get : Inputs → String → Result α) (op : α → α → Result Value)
    (inputs : Inputs) : Result Inputs := do
  let a ← get inputs "a"
  let b ← get inputs "b"
  outputValue S (← op a b)

def InRange (n : Int) : Prop := -2 ^ 63 ≤ n ∧ n < 2 ^ 63

instance (n : Int) : Decidable (InRange n) := inferInstanceAs (Decidable (_ ∧ _))

/-- Arithmetic on `i64`. -/
def checked (text : String) (n : Int) : Result Value :=
  if InRange n then pure (.int n) else .error (.panic s!"attempt to {text} with overflow")

def divide (a b : Int) : Result Value :=
  if b = 0 then .error (.panic "attempt to divide by zero") else checked "divide" (a.tdiv b)

/-- A remainder overflows together with its quotient. -/
def remainder (a b : Int) : Result Value :=
  if b = 0 then .error (.panic "attempt to calculate the remainder with a divisor of zero")
  else if InRange (a.tdiv b) then pure (.int (a.tmod b))
  else .error (.panic "attempt to calculate the remainder with overflow")

/-- An operation on the bits of two `i64`. -/
def bitwise (op : BitVec 64 → BitVec 64 → BitVec 64) (a b : Int) : Result Value :=
  pure (.int (op (.ofInt 64 a) (.ofInt 64 b)).toInt)

def compareInts (op : Int → Int → Bool) (a b : Int) : Result Value := pure (.bool (op a b))

def compareFloats (op : Float → Float → Bool) (a b : Float) : Result Value := pure (.bool (op a b))

def floatOp (op : Float → Float → Float) (a b : Float) : Result Value := pure (.ofFloat (op a b))

/-- `f64::max`: a number before a NaN, and either one of two that are equal. -/
def floatMax (M : Machine) (a b : Float) : Float :=
  if a.isNaN then b
  else if b.isNaN then a
  else if a < b then b
  else if b < a then a
  else if M.takesFirst a b then a else b

/-- `f64::min` -/
def floatMin (M : Machine) (a b : Float) : Float :=
  if a.isNaN then b
  else if b.isNaN then a
  else if b < a then b
  else if a < b then a
  else if M.takesFirst a b then a else b

/-- How many integers there are from `start` up to `stop` in steps of `step`. -/
def rangeLength (start stop step : Int) : Nat := ((stop - start + step - 1) / step).toNat

def rangeItems (start stop step : Int) : List Int :=
  (List.range (rangeLength start stop step)).map fun k => start + step * k

/-- Collect into a vector of `n` integers of 8 bytes. -/
def collect (M : Machine) (n : Nat) (items : List Int) : Result Value :=
  if 2 ^ 60 ≤ n then .error (.panic "capacity overflow")
  else if M.allocates n then pure (.arr (items.map .int))
  else .error (.panic "memory allocation failed")

def rangeImpl (M : Machine) (inputs : Inputs) : Result Inputs := do
  let start ← int S inputs "start"
  let stop ← int S inputs "stop"
  match ← extractOptionalInt S inputs "step" with
  | some step =>
    if step < 0 then .error (.miette "out of range integral type conversion attempted")
    else if step = 0 then .error (.panic "assertion failed: step != 0")
    else outputValue S (← collect M (rangeLength start stop step) (rangeItems start stop step))
  | none => outputValue S (← collect M (rangeLength start stop 1) (rangeItems start stop 1))

def meanImpl (inputs : Inputs) : Result Inputs := do
  let values ← extractValue S "Vec<f64>" asFloats inputs "values"
  if 2 ^ 31 ≤ values.length then .error (.miette "out of range integral type conversion attempted")
  else if values = [] then .error (.miette "Cannot obtain `mean` of an empty list")
  else outputValue S (.ofFloat (values.foldl (· + ·) (-0.0) / Float.ofNat values.length))

/-- `Duration::from_secs_f64` -/
def durationFromSecs (x : Float) : Result Unit :=
  if x < 0 then .error (.panic "cannot convert float seconds to Duration: value is negative")
  else if x < 18446744073709551616 then pure ()
  else .error (.panic
    "cannot convert float seconds to Duration: value is either too big or NaN")

def sleepImpl (inputs : Inputs) : Result Inputs := do
  let delaySeconds ← float S inputs "delay_seconds"
  durationFromSecs delaySeconds
  outputValue S (.bool true)

def randIntImpl (M : Machine) (inputs : Inputs) : Result Inputs := do
  let a ← int S inputs "a"
  let b ← int S inputs "b"
  if a ≤ b then outputValue S (.int (M.random a b)) else .error (.panic "cannot sample empty range")

def untupleImpl (inputs : Inputs) : Result Inputs := do
  let v ← extractValue S "(Value, Value)" asPair inputs "value"
  pure (.ofList [("a", S.toVec v.1), ("b", S.toVec v.2)])

def conjugateImpl (inputs : Inputs) : Result Inputs := do
  let z ← extractValue S "Complex<f64>" asComplex inputs "z"
  outputValue S (.arr [.ofFloat z.1, .ofFloat (-z.2)])

namespace Builtin

def run (M : Machine) (inputs : Inputs) : Builtin → Result Inputs
  | ieq => binOp S (int S) (compareInts fun a b => decide (a = b)) inputs
  | ine => binOp S (int S) (compareInts fun a b => decide (a ≠ b)) inputs
  | iltS => binOp S (int S) (compareInts fun a b => decide (a < b)) inputs
  | igtS => binOp S (int S) (compareInts fun a b => decide (a > b)) inputs
  | ilteS => binOp S (int S) (compareInts fun a b => decide (a ≤ b)) inputs
  | igteS => binOp S (int S) (compareInts fun a b => decide (a ≥ b)) inputs
  | imaxS => binOp S (int S) (fun a b => pure (.int (max a b))) inputs
  | iminS => binOp S (int S) (fun a b => pure (.int (min a b))) inputs
  | iadd => binOp S (int S) (fun a b => checked "add" (a + b)) inputs
  | isub => binOp S (int S) (fun a b => checked "subtract" (a - b)) inputs
  | ineg => unOp S (int S) (fun a => checked "negate" (-a)) inputs
  | imul => binOp S (int S) (fun a b => checked "multiply" (a * b)) inputs
  | idivS => binOp S (int S) divide inputs
  | imodS => binOp S (int S) remainder inputs
  | iabs => unOp S (int S) (fun a => checked "negate" a.natAbs) inputs
  | iand => binOp S (int S) (bitwise (· &&& ·)) inputs
  | ior => binOp S (int S) (bitwise (· ||| ·)) inputs
  | ixor => binOp S (int S) (bitwise (· ^^^ ·)) inputs
  | itostringS => unOp S (int S) (fun a => pure (.str (toString a))) inputs
  | feq => binOp S (float S) (compareFloats fun a b => a == b) inputs
  | fne => binOp S (float S) (compareFloats fun a b => !(a == b)) inputs
  | flt => binOp S (float S) (compareFloats fun a b => decide (a < b)) inputs
  | fgt => binOp S (float S) (compareFloats fun a b => decide (a > b)) inputs
  | flte => binOp S (float S) (compareFloats fun a b => decide (a ≤ b)) inputs
  | fgte => binOp S (float S) (compareFloats fun a b => decide (a ≥ b)) inputs
  | fmax => binOp S (float S) (floatOp (floatMax M)) inputs
  | fmin => binOp S (float S) (floatOp (floatMin M)) inputs
  | fadd => binOp S (float S) (floatOp (· + ·)) inputs
  | fsub => binOp S (float S) (floatOp (· - ·)) inputs
  | fneg => unOp S (float S) (fun a => pure (.ofFloat (-a))) inputs
  | fabs => unOp S (float S) (fun a => pure (.ofFloat a.abs)) inputs
  | fmul => binOp S (float S) (floatOp (· * ·)) inputs
  | idiv => binOp S (float S) (floatOp (· / ·)) inputs
  | ffloor => unOp S (float S) (fun a => pure (.ofFloat a.floor)) inputs
  | fceil => unOp S (float S) (fun a => pure (.ofFloat a.ceil)) inputs
  | ftostring => unOp S (float S) (fun a => pure (.str (M.displayFloat a))) inputs
  | eq => binOp S (value S) (fun a b => pure (.bool (a.eq b))) inputs
  | ne => binOp S (value S) (fun a b => pure (.bool (!a.eq b))) inputs
  | str => do outputValue S (.str (S.display (← value S inputs "value")))
  | strEq => binOp S (extractValue S "String" asString) (fun a b => pure (.bool (a == b))) inputs
  | tuple => binOp S (value S) (fun a b => pure (.arr [a, b])) inputs
  | untuple => untupleImpl S inputs
  | mean => meanImpl S inputs
  | range => rangeImpl S M inputs
  | conjugate => conjugateImpl S inputs
  | sleep => sleepImpl S inputs
  | randInt => randIntImpl S M inputs

end Builtin

def runBuiltin (M : Machine) (taskName : String) (inputs : Inputs) : Result Inputs :=
  match Builtin.ofName taskName with
  | some b => b.run S M inputs
  | none => .error (.miette s!"Unknown task: `{taskName}`")

end

end Tierkreis
