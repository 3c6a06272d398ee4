import Tierkreis.Python.Builtins

/-!
# Rules under which builtins agree

For each call, what its arguments have to be for the Rust and the Python builtin to
return the same.
-/

namespace Tierkreis

open Lib Lib.Float64

/-- What is known of the libraries: `serde_json` reads what Python wrote where it can hold it and
rejects the rest, Python reads what it wrote, and it writes values without blanks. Texts of floats
are made of the characters of numbers, and those of `serde_json` are not integers. -/
structure Call.Documented (R : Rounding) (P : PyRepr) (C : PyCodec) (S : ValueSerde) (M : Machine)
    (call : Call) : Prop where
  ieee : R.Ieee
  finite : ∀ {x y}, C.readFloat x = some y → (R.exact y).isSome
  finiteInt : ∀ {n y}, C.readInt n = some y → (R.exact y).isSome
  reads : ∀ e ∈ call.args, ∀ v, readValue C (docOf e.2) = some v →
    S.fromSlice (bytesFromPtype C e.2) = .ok v
  rejects : ∀ e ∈ call.args, readValue C (docOf e.2) = none →
    ∀ v, S.fromSlice (bytesFromPtype C e.2) ≠ .ok v
  writes : ∀ outs, runBuiltin S M call.name (call.inputs C) = .ok outs →
    ∀ port v, outs.get? port = some (S.toVec v) → C.loads (S.toVec v) = some (docOfValue v)
  text : ∀ e ∈ call.args, ∀ v, readValue C (docOf e.2) = some v →
    pyStr (S.display v) = v.text fun x => S.display (.float x)
  floatText : ∀ x, NumberText (pyStr (S.display (.float x)))
  floatRepr : ∀ x, NumberText (pyStr (P.float x))
  displayFloat : ∀ x n, S.display (.float x) ≠ toString (n : Int)
  random : ∀ a b, a ≤ b → a ≤ M.random a b ∧ M.random a b ≤ b

end Tierkreis
