import Mathlib.Tactic.Common

/-!
# Unsigned decimal numbers

`parseUnsigned max` reads an optional plus sign and digits, and refuses a number
above `max`. It reads back what `Nat.repr` writes, which is digits alone.
-/

namespace Lib.Decimal

inductive IntError where
  | empty
  | invalidDigit
  | tooLarge
  deriving DecidableEq, Repr

def IntError.toText : IntError → String
  | empty => "cannot parse integer from empty string"
  | invalidDigit => "invalid digit found in string"
  | tooLarge => "number too large to fit in target type"

/-- The digits from the left; the check of a digit comes before that of the size. -/
def readDigits (max : Nat) : Nat → List Char → Except IntError Nat
  | acc, [] => .ok acc
  | acc, c :: cs =>
    if c.isDigit then
      if 10 * acc + (c.toNat - '0'.toNat) ≤ max then
        readDigits max (10 * acc + (c.toNat - '0'.toNat)) cs
      else .error .tooLarge
    else .error .invalidDigit

def parseUnsigned (max : Nat) : List Char → Except IntError Nat
  | [] => .error .empty
  | ['+'] => .error .invalidDigit
  | '+' :: cs => readDigits max 0 cs
  | cs => readDigits max 0 cs

variable {max acc : Nat} {cs : List Char}

theorem le_ofDigitChars : acc ≤ Nat.ofDigitChars 10 cs acc := by
  induction cs generalizing acc with
  | nil => exact Nat.le_refl acc
  | cons c cs ih =>
    rw [Nat.ofDigitChars_cons]
    have h := @ih (10 * acc + (c.toNat - '0'.toNat))
    omega

theorem readDigits_eq_ok (hd : ∀ c ∈ cs, c.isDigit = true)
    (hm : Nat.ofDigitChars 10 cs acc ≤ max) :
    readDigits max acc cs = .ok (Nat.ofDigitChars 10 cs acc) := by
  induction cs generalizing acc with
  | nil => rfl
  | cons c cs ih =>
    rw [Nat.ofDigitChars_cons] at hm ⊢
    have hle : 10 * acc + (c.toNat - '0'.toNat) ≤ max := Nat.le_trans le_ofDigitChars hm
    rw [readDigits, if_pos (hd c (.head _)), if_pos hle]
    exact ih (fun d hd' => hd d (.tail _ hd')) hm

theorem readDigits_le {n : Nat} (ha : acc ≤ max) (h : readDigits max acc cs = .ok n) :
    n ≤ max := by
  induction cs generalizing acc with
  | nil =>
    cases h
    exact ha
  | cons c cs ih =>
    rw [readDigits] at h
    split at h
    · split at h
      · rename_i hle
        exact ih hle h
      · cases h
    · cases h

theorem parseUnsigned_le {n : Nat} (h : parseUnsigned max cs = .ok n) : n ≤ max := by
  unfold parseUnsigned at h
  split at h
  · cases h
  · cases h
  · exact readDigits_le (Nat.zero_le max) h
  · exact readDigits_le (Nat.zero_le max) h

theorem parseUnsigned_of_digits (hn : cs ≠ []) (hd : ∀ c ∈ cs, c.isDigit = true) :
    parseUnsigned max cs = readDigits max 0 cs := by
  unfold parseUnsigned
  split
  · exact absurd rfl hn
  · exact absurd (hd '+' (.head _)) (by decide)
  · exact absurd (hd '+' (.head _)) (by decide)
  · rfl

theorem of_readDigits {n : Nat} (h : readDigits max acc cs = .ok n) :
    (∀ c ∈ cs, c.isDigit = true) ∧ Nat.ofDigitChars 10 cs acc = n := by
  induction cs generalizing acc with
  | nil =>
    cases h
    exact ⟨fun _ hc => (by cases hc), rfl⟩
  | cons c cs ih =>
    rw [readDigits] at h
    split at h
    · rename_i hc
      split at h
      · obtain ⟨hd, hn⟩ := ih h
        exact ⟨List.forall_mem_cons.2 ⟨hc, hd⟩, hn⟩
      · cases h
    · cases h

/-- What is read: an optional plus sign, and digits of a number that fits. -/
theorem parseUnsigned_eq_ok_iff {n : Nat} :
    parseUnsigned max cs = .ok n ↔
      ∃ ds, (cs = ds ∨ cs = '+' :: ds) ∧ ds ≠ [] ∧ (∀ c ∈ ds, c.isDigit = true) ∧
        Nat.ofDigitChars 10 ds 0 = n ∧ n ≤ max := by
  constructor
  · intro h
    have hle := parseUnsigned_le h
    unfold parseUnsigned at h
    split at h
    · cases h
    · cases h
    · rename_i ds hne
      obtain ⟨hd, hn⟩ := of_readDigits h
      exact ⟨ds, .inr rfl, fun h => hne (by rw [h]), hd, hn, hle⟩
    · rename_i hne _ _
      obtain ⟨hd, hn⟩ := of_readDigits h
      exact ⟨cs, .inl rfl, hne, hd, hn, hle⟩
  · rintro ⟨ds, hcs, hne, hd, rfl, hle⟩
    have hread := readDigits_eq_ok hd hle
    rcases hcs with rfl | rfl
    · rw [parseUnsigned_of_digits hne hd, hread]
    · cases ds with
      | nil => exact absurd rfl hne
      | cons d ds => exact hread

theorem isDigit_of_mem_repr {n : Nat} {c : Char} (h : c ∈ n.repr.toList) : c.isDigit = true := by
  rw [Nat.toList_repr] at h
  exact Nat.isDigit_of_mem_toDigits (by decide) (by decide) h

theorem toList_repr_ne_nil (n : Nat) : n.repr.toList ≠ [] := by
  rw [Nat.toList_repr]
  exact Nat.toDigits_ne_nil

/-- A number that fits is read back. -/
theorem parseUnsigned_repr {n : Nat} (h : n ≤ max) : parseUnsigned max n.repr.toList = .ok n := by
  have hd : ∀ c ∈ n.repr.toList, c.isDigit = true := fun c => isDigit_of_mem_repr
  have hv : Nat.ofDigitChars 10 n.repr.toList 0 = n := by
    rw [Nat.toList_repr]
    exact Nat.ofDigitChars_ten_toDigits
  rw [parseUnsigned_of_digits (toList_repr_ne_nil n) hd, readDigits_eq_ok hd (by rwa [hv]), hv]

/-- The digits of a number are its own. -/
theorem repr_inj {m n : Nat} (h : m.repr = n.repr) : m = n := by
  have hm : parseUnsigned (max m n) m.repr.toList = .ok m := parseUnsigned_repr (Nat.le_max_left m n)
  rw [h, parseUnsigned_repr (Nat.le_max_right m n)] at hm
  exact (Except.ok.inj hm).symm

end Lib.Decimal
