import Mathlib.Algebra.Order.Round
import Mathlib.Data.Int.Log
import Mathlib.Data.List.TakeWhile
import Mathlib.Data.Rat.Floor

/-!
# Double precision by exact values

A float is the rational that it stands for, or is not finite. The two zeros are
one. Results are rounded to the nearest float, ties to even; and a decimal text
is read exactly before it is rounded.
-/

namespace Lib

inductive F64
  | finite (q : Rat)
  | inf (negative : Bool)
  | nan
  deriving DecidableEq, Repr

namespace F64

/-- The nearest integer, the even one at a midpoint. -/
def roundEven (q : Rat) : Int :=
  let k := ⌊q⌋
  if q - k < 1 / 2 then k
  else if 1 / 2 < q - k then k + 1
  else k + k % 2

/-- The exponent of the last of the 53 bits of a number. -/
def exponent (q : Rat) : Int := max (Int.log 2 |q| - 52) (-1074)

/-- The nearest float. -/
def round (q : Rat) : F64 :=
  let r : Rat := roundEven (q / 2 ^ exponent q) * 2 ^ exponent q
  if |r| < 2 ^ 1024 then finite r else inf (r < 0)

def ofNat (n : Nat) : F64 := round n

def negative : F64 → Bool
  | finite q => q < 0
  | inf negative => negative
  | nan => false

def mul : F64 → F64 → F64
  | finite p, finite q => round (p * q)
  | nan, _ => nan
  | _, nan => nan
  | x, y => if x = finite 0 ∨ y = finite 0 then nan else inf (x.negative != y.negative)

/-- The quotient by a finite float that is positive. -/
def divPos : F64 → Rat → F64
  | finite p, q => round (p / q)
  | x, _ => x

def isFinite : F64 → Bool
  | finite _ => true
  | _ => false

/-- Whether a float is below a finite one. -/
def lt (x : F64) (q : Rat) : Bool :=
  match x with
  | finite p => p < q
  | inf negative => negative
  | nan => false

/-- Whether a float is at most a finite one. -/
def le (x : F64) (q : Rat) : Bool :=
  match x with
  | finite p => p ≤ q
  | inf negative => negative
  | nan => false

/-- Clamped to what `u32` holds, and truncated. -/
def toU32 (x : F64) : Nat :=
  match x with
  | finite p => ⌊max 0 (min p (2 ^ 32 - 1))⌋₊
  | inf negative => if negative then 0 else 2 ^ 32 - 1
  | nan => 0

/-! ## Texts -/

/-- The value of the digits behind a point. -/
def fractionOf : List Char → Rat
  | [] => 0
  | c :: cs => ((c.toNat - '0'.toNat : Nat) + fractionOf cs) / 10

def natOf (cs : List Char) : Nat := Nat.ofDigitChars 10 cs 0

/-- An optional sign, and whether it is a minus. -/
def splitSign : List Char → Bool × List Char
  | '-' :: cs => (true, cs)
  | '+' :: cs => (false, cs)
  | cs => (false, cs)

/-- What follows `e`. -/
def readExponent (cs : List Char) : Option Int :=
  let (negative, digits) := splitSign cs
  if digits ≠ [] ∧ digits.all Char.isDigit then
    some (if negative then -(natOf digits : Int) else natOf digits)
  else none

/-- Digits with an optional point among them, and an optional exponent. -/
def readDecimal (cs : List Char) : Option Rat :=
  let whole := cs.takeWhile Char.isDigit
  let rest := cs.dropWhile Char.isDigit
  let (fraction, rest) :=
    match rest with
    | '.' :: rest => (rest.takeWhile Char.isDigit, rest.dropWhile Char.isDigit)
    | rest => ([], rest)
  if whole = [] ∧ fraction = [] then none
  else
    let q : Rat := natOf whole + fractionOf fraction
    match rest with
    | [] => some q
    | c :: rest =>
      if c = 'e' ∨ c = 'E' then (readExponent rest).map fun e => q * 10 ^ e else none

/-- The exact value of a text, if it is that of a number. -/
def exactValue (cs : List Char) : Option Rat :=
  let (negative, cs) := splitSign cs
  (readDecimal cs).map fun q => if negative then -q else q

/-- `str::parse::<f64>`. -/
def parse (cs : List Char) : Option F64 :=
  let (negative, digits) := splitSign cs
  match (String.ofList digits).toLower with
  | "inf" | "infinity" => some (inf negative)
  | "nan" => some nan
  | _ => (exactValue cs).map round

/-! ## Integers are exact -/

@[simp] theorem roundEven_intCast (k : Int) : roundEven (k : Rat) = k := by
  simp [roundEven]

/-- Integers of 53 bits are floats. -/
theorem ofNat_eq_finite {n : Nat} (h : n < 2 ^ 53) : ofNat n = finite n := by
  have hlog : Int.log 2 |(n : Rat)| ≤ 52 := by
    rw [Nat.abs_cast, Int.log_natCast]
    exact_mod_cast Nat.lt_succ_iff.1 (Nat.log_lt_of_lt_pow' (by decide) h)
  have he : exponent (n : Rat) ≤ 0 := max_le (by omega) (by decide)
  obtain ⟨k, hk⟩ : ∃ k : Nat, exponent (n : Rat) = -k := ⟨(-exponent (n : Rat)).toNat, by omega⟩
  have hscaled : (n : Rat) / 2 ^ exponent (n : Rat) = ((n * 2 ^ k : Int) : Rat) := by
    rw [hk, zpow_neg, div_inv_eq_mul, zpow_natCast]
    push_cast
    rfl
  have hvalue : (roundEven ((n : Rat) / 2 ^ exponent (n : Rat)) : Rat) * 2 ^ exponent (n : Rat) = n := by
    rw [hscaled, roundEven_intCast, ← hscaled]
    exact div_mul_cancel₀ _ (zpow_ne_zero _ (by norm_num))
  have hsmall : |(n : Rat)| < 2 ^ 1024 := by
    rw [Nat.abs_cast]
    calc (n : Rat) < 2 ^ 53 := by exact_mod_cast h
      _ ≤ 2 ^ 1024 := pow_le_pow_right₀ one_le_two (by decide)
  unfold ofNat round
  rw [hvalue, if_pos hsmall]

/-! ## Digits -/

section

variable {ds : List Char}

theorem readDecimal_digits (hne : ds ≠ []) (hd : ∀ c ∈ ds, c.isDigit = true) :
    readDecimal ds = some (natOf ds) := by
  have htake : ds.takeWhile Char.isDigit = ds := List.takeWhile_eq_self_iff.2 hd
  have hdrop : ds.dropWhile Char.isDigit = [] := List.dropWhile_eq_nil_iff.2 hd
  simp [readDecimal, htake, hdrop, hne, fractionOf]

theorem splitSign_digits (hd : ∀ c ∈ ds, c.isDigit = true) : splitSign ds = (false, ds) := by
  unfold splitSign
  split
  · exact absurd (hd '-' (.head _)) (by decide)
  · exact absurd (hd '+' (.head _)) (by decide)
  · rfl

/-- A whole number is its own value, with or without its sign. -/
theorem exactValue_digits (hne : ds ≠ []) (hd : ∀ c ∈ ds, c.isDigit = true) {cs : List Char}
    (hcs : cs = ds ∨ cs = '+' :: ds) : exactValue cs = some (natOf ds : Rat) := by
  have hsign : splitSign cs = (false, ds) := by
    rcases hcs with rfl | rfl
    · exact splitSign_digits hd
    · rfl
  simp [exactValue, hsign, readDecimal_digits hne hd]

end

end F64

end Lib
