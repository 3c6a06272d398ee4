import Tierkreis.Executor.Builtins

/-!
# Values of the Python binding

A value that comes from Python is written as JSON and read back as the first kind
of value that fits, in the order of the variants of an enum without tags.
-/

namespace Tierkreis

open Lib

/-- The entries of a dict are in the iteration order of its map. -/
inductive BoundValue where
  | bool (b : Bool)
  | int (n : Int)
  | float (x : Float)
  | string (s : String)
  | complex (re im : Float)
  | list (items : List BoundValue)
  | dict (entries : List (String × BoundValue))

/-- What a function of the binding takes or gives back. -/
inductive ValueOrMapping where
  | mapping (entries : HashMap String (Option BoundValue))
  | value (v : BoundValue)

def isI64 (n : Int) : Bool := -2 ^ 63 ≤ n && n < 2 ^ 63

namespace BoundValue

/-! ## Writing -/

mutual

/-- A complex number is the pair of its parts. -/
def serialize : BoundValue → Value
  | .bool b => .bool b
  | .int n => .int n
  | .float x => .ofFloat x
  | .string s => .str s
  | .complex re im => .arr [.ofFloat re, .ofFloat im]
  | .list items => .arr (serializeItems items)
  | .dict entries => .obj (serializeEntries entries)

def serializeItems : List BoundValue → List Value
  | [] => []
  | v :: vs => serialize v :: serializeItems vs

def serializeEntries : List (String × BoundValue) → List (String × Value)
  | [] => []
  | (k, v) :: vs => (k, serialize v) :: serializeEntries vs

end

/-! ## Reading -/

/-- An `f64` takes integers too. -/
def floatOf : Value → Option Float
  | .float x => some x
  | .int n => some (Float.ofInt n)
  | _ => none

/-- A `Complex64` takes a sequence of exactly two numbers. -/
def complexOf : List Value → Option BoundValue
  | [re, im] =>
    match floatOf re, floatOf im with
    | some re, some im => some (.complex re im)
    | _, _ => none
  | _ => none

/-- Later entries overwrite earlier ones. -/
def collectEntries (entries : List (String × BoundValue)) : List (String × BoundValue) :=
  entries.foldr (fun e rest => if rest.any fun r => r.1 = e.1 then rest else e :: rest) []

mutual

/-- The first variant that fits; none fits a `null`. -/
def deserialize : Value → Option BoundValue
  | .null => none
  | .bool b => some (.bool b)
  | .int n => some (if isI64 n then .int n else .float (Float.ofInt n))
  | .float x => some (.float x)
  | .str s => some (.string s)
  | .arr items =>
    match complexOf items with
    | some v => some v
    | none => (deserializeItems items).map .list
  | .obj entries => (deserializeEntries entries).map fun vs => .dict (collectEntries vs)

def deserializeItems : List Value → Option (List BoundValue)
  | [] => some []
  | v :: vs => do
    let b ← deserialize v
    let bs ← deserializeItems vs
    pure (b :: bs)

def deserializeEntries : List (String × Value) → Option (List (String × BoundValue))
  | [] => some []
  | (k, v) :: vs => do
    let b ← deserialize v
    let bs ← deserializeEntries vs
    pure ((k, b) :: bs)

end

variable (S : ValueSerde)

def toVec (v : BoundValue) : Bytes := S.toVec v.serialize

def noVariant : String := "data did not match any variant of untagged enum Value"

def fromSlice (bytes : Bytes) : Except String BoundValue :=
  match S.fromSlice bytes with
  | .ok v => match deserialize v with
    | some b => .ok b
    | none => .error noVariant
  | .error e => .error e

/-- `from_slice` at the type of optional values. -/
def optionFromSlice (bytes : Bytes) : Except String (Option BoundValue) :=
  match S.fromSlice bytes with
  | .ok .null => .ok none
  | .ok v => match deserialize v with
    | some b => .ok (some b)
    | none => .error noVariant
  | .error e => .error e

end BoundValue

variable (S : ValueSerde)

def outputEntry (e : String × Bytes) : Result (String × Option BoundValue) :=
  match BoundValue.optionFromSlice S e.2 with
  | .ok v => .ok (e.1, v)
  | .error text => .error (.miette text)

def convertOutputs (outputs : HashMap String Bytes) : Result ValueOrMapping := do
  let entries ← outputs.toList.mapM (outputEntry S)
  match entries with
  | [("value", some v)] => pure (.value v)
  | [("value", none)] => .error (.panic "No single output value")
  | _ => pure (.mapping (HashMap.ofList entries))

end Tierkreis
