import Mathlib.Tactic.Common

/-!
# The integers of Python as strings

`int` of a string and `str` of an integer, on code points. `int` takes spaces at the
ends, a sign, and digits of any script with single underscores between them. Both
refuse more digits than a limit.
-/

namespace Lib.PyInt

/-- The spaces and decimal digits beyond ASCII, and the most digits of an integer, 0 where there
is no limit. -/
structure Unicode where
  isSpace : Nat → Bool
  decimal : Nat → Option (Fin 10)
  maxStrDigits : Nat

/-- No digits beyond ASCII. -/
def Unicode.ascii (maxStrDigits : Nat) : Unicode := ⟨fun _ => false, fun _ => none, maxStrDigits⟩

def isDigit (c : Nat) : Bool := 48 ≤ c && c ≤ 57

def isAsciiSpace (c : Nat) : Bool := 9 ≤ c && c ≤ 13 || c = 32

variable (U : Unicode)

/-- What is neither a space nor a digit becomes a question mark. -/
def toAscii (c : Nat) : Nat :=
  if c < 127 then c
  else if U.isSpace c then 32
  else
    match U.decimal c with
    | some d => 48 + d
    | none => 63

def strip (s : List Nat) : List Nat :=
  ((s.dropWhile isAsciiSpace).reverse.dropWhile isAsciiSpace).reverse

def tooLong (n : Nat) : Bool := U.maxStrDigits ≠ 0 && U.maxStrDigits < n

def value (digits : List Nat) : Nat := digits.foldl (fun n c => 10 * n + (c - 48)) 0

def readDigits (s : List Nat) : Option Nat :=
  let groups := s.splitOn 95
  if groups.all (fun g => !g.isEmpty && g.all isDigit) && !tooLong U groups.flatten.length then
    some (value groups.flatten)
  else none

/-- A `ValueError` is `none`. -/
def int (s : List Nat) : Option Int :=
  match strip (s.map (toAscii U)) with
  | 45 :: ds => (readDigits U ds).map fun n : Nat => -(n : Int)
  | 43 :: ds => (readDigits U ds).map fun n : Nat => (n : Int)
  | ds => (readDigits U ds).map fun n : Nat => (n : Int)

def digits (n : Nat) : List Nat := (Nat.toDigits 10 n).map Char.toNat

/-- A `ValueError` is `none`. -/
def str (n : Int) : Option (List Nat) :=
  if tooLong U (digits n.natAbs).length then none
  else some ((if n < 0 then [45] else []) ++ digits n.natAbs)

/-! ## What is written is read -/

theorem isDigit_of_mem_digits {n c : Nat} (h : c ∈ digits n) : isDigit c = true := by
  obtain ⟨d, hd, rfl⟩ := List.mem_map.1 h
  have hdigit : d.isDigit = true := Nat.isDigit_of_mem_toDigits (by decide) (by decide) hd
  rw [Char.isDigit, Bool.and_eq_true, decide_eq_true_eq, decide_eq_true_eq] at hdigit
  rw [isDigit, Bool.and_eq_true, decide_eq_true_eq, decide_eq_true_eq]
  exact ⟨UInt32.le_iff_toNat_le.1 hdigit.1, UInt32.le_iff_toNat_le.1 hdigit.2⟩

theorem digits_ne_nil (n : Nat) : digits n ≠ [] := by
  unfold digits
  simp

theorem value_digits (n : Nat) : value (digits n) = n := by
  have hfold : ∀ (cs : List Char) (m : Nat),
      (cs.map Char.toNat).foldl (fun n c => 10 * n + (c - 48)) m = Nat.ofDigitChars 10 cs m := by
    intro cs
    induction cs with
    | nil => exact fun _ => rfl
    | cons c cs ih =>
      intro m
      rw [Nat.ofDigitChars_cons, ← ih]
      rfl
  rw [value, digits, hfold]
  exact Nat.ofDigitChars_ten_toDigits

theorem isDigit_iff {c : Nat} : isDigit c = true ↔ 48 ≤ c ∧ c ≤ 57 := by
  simp [isDigit]

/-- A sign or a digit. -/
def Plain (c : Nat) : Prop := c = 45 ∨ 48 ≤ c ∧ c ≤ 57

theorem toAscii_of_plain {c : Nat} (h : Plain c) : toAscii U c = c := by
  unfold Plain at h
  exact if_pos (by omega)

theorem isAsciiSpace_of_plain {c : Nat} (h : Plain c) : isAsciiSpace c = false := by
  unfold Plain at h
  simp only [isAsciiSpace, Bool.or_eq_false_iff, Bool.and_eq_false_iff, decide_eq_false_iff_not]
  omega

theorem strip_of_plain {s : List Nat} (h : ∀ c ∈ s, Plain c) : strip s = s := by
  have hdrop : ∀ {s : List Nat}, (∀ c ∈ s, Plain c) → s.dropWhile isAsciiSpace = s := by
    intro s h
    cases s with
    | nil => rfl
    | cons c s =>
      refine List.dropWhile_cons_of_neg ?_
      rw [isAsciiSpace_of_plain (h c (.head _))]
      exact Bool.false_ne_true
  rw [strip, hdrop h, hdrop fun c hc => h c (List.mem_reverse.1 hc), List.reverse_reverse]

theorem plain_digits {n c : Nat} (h : c ∈ digits n) : Plain c :=
  .inr (isDigit_iff.1 (isDigit_of_mem_digits h))

variable {U}

theorem readDigits_digits {n : Nat} (h : tooLong U (digits n).length = false) :
    readDigits U (digits n) = some n := by
  have hsplit : (digits n).splitOn 95 = [digits n] := by
    rw [List.splitOn_eq_splitOnP]
    refine List.splitOnP_eq_singleton fun c hc => ?_
    have hdigit := isDigit_iff.1 (isDigit_of_mem_digits hc)
    rw [beq_eq_false_iff_ne]
    omega
  have hgroup : (!(digits n).isEmpty && (digits n).all isDigit) = true := by
    rw [Bool.and_eq_true, List.all_eq_true, Bool.not_eq_true', List.isEmpty_eq_false_iff]
    exact ⟨digits_ne_nil n, fun c hc => isDigit_of_mem_digits hc⟩
  unfold readDigits
  rw [hsplit]
  simp only [List.flatten_singleton, List.all_cons, List.all_nil, hgroup, h, value_digits]
  rfl

theorem plain_of_str {n : Int} {s : List Nat} (h : str U n = some s) : ∀ c ∈ s, Plain c := by
  unfold str at h
  split at h
  · cases h
  · cases h
    intro c hc
    rcases List.mem_append.1 hc with hc | hc
    · split at hc
      · exact .inl (List.mem_singleton.1 hc)
      · cases hc
    · exact plain_digits hc

/-- What `str` writes `int` reads. -/
theorem int_str {n : Int} {s : List Nat} (h : str U n = some s) : int U s = some n := by
  have hplain := plain_of_str h
  have hmap : s.map (toAscii U) = s :=
    (List.map_congr_left fun c hc => toAscii_of_plain U (hplain c hc)).trans (List.map_id s)
  unfold int
  rw [hmap, strip_of_plain hplain]
  unfold str at h
  split at h
  · cases h
  · rename_i hlong
    have hread := readDigits_digits (Bool.eq_false_iff.2 hlong)
    cases h
    by_cases hn : n < 0
    · rw [if_pos hn]
      change (readDigits U (digits n.natAbs)).map _ = _
      rw [hread]
      refine congrArg some ?_
      change -(n.natAbs : Int) = n
      omega
    · rw [if_neg hn, List.nil_append]
      have hvalue : (n.natAbs : Int) = n := by omega
      split
      · rename_i ds hds
        have hmem : 45 ∈ digits n.natAbs := hds ▸ .head _
        exact absurd (isDigit_of_mem_digits hmem) (by decide)
      · rename_i ds hds
        have hmem : 43 ∈ digits n.natAbs := hds ▸ .head _
        exact absurd (isDigit_of_mem_digits hmem) (by decide)
      · rw [hread]
        exact congrArg some hvalue

end Lib.PyInt
