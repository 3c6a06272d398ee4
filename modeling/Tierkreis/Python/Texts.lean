import Tierkreis.Executor.Builtins
import Tierkreis.Lib.Decimal
import Tierkreis.Python.Types

/-!
# Texts of values

What `str` writes in Python, and the json that `serde_json` writes, both by code
points. A text of either kind ends where it has to: what follows it is a comma, a
colon or a bracket. So two lists can only have one text if their elements do, and
the blank that Python writes after a comma tells longer ones apart.
-/

namespace Tierkreis

open Lib

/-! ## Python -/

/-- What `repr` writes for floats and complex numbers, and which characters it leaves as they
are beyond those of ASCII. -/
structure PyRepr where
  float : Float → String
  complex : Float → Float → String
  printable : Nat → Bool

def hexDigit (d : Nat) : Nat := if d < 10 then 48 + d else 87 + d

/-- The last `n` hexadecimal digits. -/
def hexDigits : Nat → Nat → PyStr
  | 0, _ => []
  | n + 1, c => hexDigits n (c / 16) ++ [hexDigit (c % 16)]

/-- A character between quotes. -/
def reprChar (printable : Nat → Bool) (quote c : Nat) : PyStr :=
  if c = quote ∨ c = 92 then [92, c]
  else if c = 9 then [92, 116]
  else if c = 10 then [92, 110]
  else if c = 13 then [92, 114]
  else if c < 32 ∨ c = 127 then [92, 120] ++ hexDigits 2 c
  else if c < 127 ∨ printable c then [c]
  else if c < 256 then [92, 120] ++ hexDigits 2 c
  else if c < 65536 then [92, 117] ++ hexDigits 4 c
  else [92, 85] ++ hexDigits 8 c

/-- Double quotes only stand around a text with an apostrophe and no double quote. -/
def quoteOf (s : PyStr) : Nat := if 39 ∈ s ∧ 34 ∉ s then 34 else 39

def quoted (printable : Nat → Bool) (s : PyStr) : PyStr :=
  quoteOf s :: (s.flatMap (reprChar printable (quoteOf s)) ++ [quoteOf s])

section

variable (P : PyRepr)

mutual

def valueRepr : PType → PyStr
  | .none => pyStr "None"
  | .bool b => pyStr (if b then "True" else "False")
  | .int n => pyStr (toString n)
  | .float x => pyStr (P.float x)
  | .str s => quoted P.printable s
  | .bytes b => 98 :: quoted (fun _ => false) (b.map UInt8.toNat)
  | .complex re im => pyStr (P.complex re im)
  | .list items => 91 :: (reprItems items ++ [93])
  | .dict entries => 123 :: (reprEntries entries ++ [125])

def reprItems : List PType → PyStr
  | [] => []
  | p :: ps => valueRepr p ++ reprMore ps

def reprMore : List PType → PyStr
  | [] => []
  | p :: ps => 44 :: 32 :: (valueRepr p ++ reprMore ps)

def reprEntries : List (PyStr × PType) → PyStr
  | [] => []
  | (k, p) :: ps => quoted P.printable k ++ 58 :: 32 :: (valueRepr p ++ reprMoreEntries ps)

def reprMoreEntries : List (PyStr × PType) → PyStr
  | [] => []
  | (k, p) :: ps =>
    44 :: 32 :: (quoted P.printable k ++ 58 :: 32 :: (valueRepr p ++ reprMoreEntries ps))

end

/-- `str` -/
def valueStr : PType → PyStr
  | .str s => s
  | p => valueRepr P p

end

/-! ## Rust -/

def jsonChar (c : Nat) : PyStr :=
  if c = 34 ∨ c = 92 then [92, c]
  else if c = 8 then [92, 98]
  else if c = 9 then [92, 116]
  else if c = 10 then [92, 110]
  else if c = 12 then [92, 102]
  else if c = 13 then [92, 114]
  else if c < 32 then [92, 117] ++ hexDigits 4 c
  else [c]

def jsonStr (s : PyStr) : PyStr := 34 :: (s.flatMap jsonChar ++ [34])

section

variable (floatText : Float → String)

mutual

/-- The json text of a value, without blanks. -/
def JsonValue.text : Value → PyStr
  | .null => pyStr "null"
  | .bool b => pyStr (if b then "true" else "false")
  | .int n => pyStr (toString n)
  | .float x => pyStr (floatText x)
  | .str s => jsonStr (pyStr s)
  | .arr items => 91 :: (textItems items ++ [93])
  | .obj entries => 123 :: (textEntries entries ++ [125])

def JsonValue.textItems : List Value → PyStr
  | [] => []
  | v :: vs => v.text ++ textMore vs

def JsonValue.textMore : List Value → PyStr
  | [] => []
  | v :: vs => 44 :: (v.text ++ textMore vs)

def JsonValue.textEntries : List (String × Value) → PyStr
  | [] => []
  | (k, v) :: vs => jsonStr (pyStr k) ++ 58 :: (v.text ++ textMoreEntries vs)

def JsonValue.textMoreEntries : List (String × Value) → PyStr
  | [] => []
  | (k, v) :: vs => 44 :: (jsonStr (pyStr k) ++ 58 :: (v.text ++ textMoreEntries vs))

end

end

/-! ## Where a text ends -/

/-- What may follow a text: nothing, or a comma, a colon or a closing bracket. -/
def Follows : PyStr → Prop
  | [] => True
  | c :: _ => c = 44 ∨ c = 58 ∨ c = 93 ∨ c = 125

/-- The characters of numbers, `inf` and `nan`. -/
def NumberText (s : PyStr) : Prop :=
  s ≠ [] ∧ ∀ c ∈ s, c ∉ [32, 34, 39, 44, 58, 91, 93, 123, 125]

end Tierkreis
