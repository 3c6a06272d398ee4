import Mathlib.Algebra.BigOperators.Group.List.Basic
import Mathlib.Data.Rat.Defs
import Mathlib.Algebra.Field.Rat

/-!
# Floats and rationals

The exact value of a float, and the float nearest to a rational. A sum of floats
is rounded at every step, and a quotient of it once more.
-/

namespace Lib.Float64

/-- `exact` is the value of a finite float, `nearest` rounds what is in range. -/
structure Rounding where
  exact : Float → Option Rat
  nearest : Rat → Option Float

namespace Rounding

variable (R : Rounding)

/-- What the standard says of floats that have a value. -/
structure Ieee : Prop where
  isFinite : ∀ {x a}, R.exact x = some a → x.isFinite = true
  nearest_finite : ∀ {q x}, R.nearest q = some x → (R.exact x).isSome
  zero_finite : ∀ {x a}, R.exact x = some a → R.exact 0 = some 0
  neg : ∀ {x a}, R.exact (-x) = some a → R.exact x = some (-a)
  neg_neg : ∀ {x a}, R.exact x = some a → - -x = x
  beq : ∀ {x y a b}, R.exact x = some a → R.exact y = some b → (x == y) = decide (a = b)
  ofInt : R.exact 0 = some 0 → ∀ n : Int, -2 ^ 63 ≤ n → n < 2 ^ 64 →
    R.nearest n = some (Float.ofInt n)
  add : ∀ {x y z a b}, R.exact x = some a → R.exact y = some b → R.nearest (a + b) = some z →
    R.exact (x + y) = R.exact z
  add_overflow : ∀ {x y a b}, R.exact x = some a → R.exact y = some b → R.nearest (a + b) = none →
    (x + y).isFinite = false
  add_infinite : ∀ {x y b}, x.isFinite = false → R.exact y = some b → (x + y).isFinite = false
  add_negZero : ∀ {x y a b}, R.exact x = some a → R.exact y = some b → x + y = -0.0 →
    x = -0.0 ∧ y = -0.0
  negZero_add : ∀ {x a}, R.exact x = some a → -0.0 + x = x
  zero : ∀ {x}, R.exact x = some 0 → x = 0 ∨ x = -0.0
  negZero : ∀ {a}, R.exact (-0.0) = some a → a = 0
  nearest_zero : R.exact 0 = some 0 → R.nearest 0 = some 0
  zero_div : ∀ {n : Nat}, R.exact 0 = some 0 → 0 < n → 0 / Float.ofNat n = 0
  negZero_div : ∀ {n : Nat}, R.exact 0 = some 0 → 0 < n → (-0.0) / Float.ofNat n = -0.0
  div : ∀ {x a} {n : Nat}, R.exact x = some a → a ≠ 0 → 0 < n → n < 2 ^ 53 →
    R.nearest (a / n) = some (x / Float.ofNat n)
  div_infinite : ∀ {x} {n : Nat}, R.exact 0 = some 0 → x.isFinite = false → 0 < n →
    (x / Float.ofNat n).isFinite = false

variable {R}

end Rounding

end Lib.Float64
