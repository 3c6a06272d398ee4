import Mathlib.Tactic.Common

/-!
# base64

The encoder of three bytes to four characters, and the lenient decoder that skips
what is not in the alphabet and stops at the padding of an open group.
-/

namespace Lib.Base64

/-- The character of six bits. -/
def symbol (v : Nat) : Nat :=
  if v < 26 then v + 65
  else if v < 52 then v + 71
  else if v < 62 then v - 4
  else if v = 62 then 43
  else 47

def value? (c : Nat) : Option Nat :=
  if 65 ≤ c ∧ c ≤ 90 then some (c - 65)
  else if 97 ≤ c ∧ c ≤ 122 then some (c - 71)
  else if 48 ≤ c ∧ c ≤ 57 then some (c + 4)
  else if c = 43 then some 62
  else if c = 47 then some 63
  else none

def pad : Nat := 61

def encode : List UInt8 → List Nat
  | [] => []
  | [a] => [symbol (a.toNat / 4), symbol (a.toNat % 4 * 16), pad, pad]
  | [a, b] =>
    [symbol (a.toNat / 4), symbol (a.toNat % 4 * 16 + b.toNat / 16), symbol (b.toNat % 16 * 4), pad]
  | a :: b :: c :: bytes =>
    symbol (a.toNat / 4) :: symbol (a.toNat % 4 * 16 + b.toNat / 16) ::
      symbol (b.toNat % 16 * 4 + c.toNat / 64) :: symbol (c.toNat % 64) :: encode bytes

/-- Decode from within a group of four, with the bits left over and the pads seen. -/
def decodeFrom (quad left pads : Nat) : List Nat → Option (List UInt8)
  | [] => if quad = 0 then some [] else none
  | c :: cs =>
    if c = pad then
      if quad < 2 then decodeFrom quad left pads cs
      else if 4 ≤ quad + (pads + 1) then some []
      else decodeFrom quad left (pads + 1) cs
    else
      match value? c with
      | none => decodeFrom quad left pads cs
      | some v =>
        match quad with
        | 0 => decodeFrom 1 v 0 cs
        | 1 => (decodeFrom 2 (v % 16) 0 cs).map (UInt8.ofNat (left * 4 + v / 16) :: ·)
        | 2 => (decodeFrom 3 (v % 4) 0 cs).map (UInt8.ofNat (left * 16 + v / 4) :: ·)
        | _ => (decodeFrom 0 0 0 cs).map (UInt8.ofNat (left * 64 + v) :: ·)

def decode (cs : List Nat) : Option (List UInt8) := decodeFrom 0 0 0 cs

/-! ## Symbols -/

theorem value?_symbol {v : Nat} (h : v < 64) : value? (symbol v) = some v := by
  revert v
  decide

theorem symbol_ne_pad (v : Nat) : symbol v ≠ pad := by
  unfold symbol pad
  split_ifs <;> omega

theorem symbol_lt (v : Nat) : symbol v < 128 := by
  unfold symbol
  split_ifs <;> omega

theorem decodeFrom_symbol {v : Nat} (h : v < 64) (quad left pads : Nat) (cs : List Nat) :
    decodeFrom quad left pads (symbol v :: cs) =
      match quad with
      | 0 => decodeFrom 1 v 0 cs
      | 1 => (decodeFrom 2 (v % 16) 0 cs).map (UInt8.ofNat (left * 4 + v / 16) :: ·)
      | 2 => (decodeFrom 3 (v % 4) 0 cs).map (UInt8.ofNat (left * 16 + v / 4) :: ·)
      | _ => (decodeFrom 0 0 0 cs).map (UInt8.ofNat (left * 64 + v) :: ·) := by
  rw [decodeFrom, if_neg (symbol_ne_pad v), value?_symbol h]

/-! ## The round trip -/

theorem ofNat_of_eq {a : UInt8} {n : Nat} (h : n = a.toNat) : UInt8.ofNat n = a := by
  rw [h, UInt8.ofNat_toNat]

theorem decode_encode (bytes : List UInt8) : decode (encode bytes) = some bytes := by
  fun_induction encode bytes with
  | case1 => rfl
  | case2 a =>
    have ha : a.toNat < 256 := a.toNat_lt
    have hfirst : UInt8.ofNat (a.toNat / 4 * 4 + a.toNat % 4 * 16 / 16) = a :=
      ofNat_of_eq (by omega)
    rw [decode, decodeFrom_symbol (by omega)]
    simp only
    rw [decodeFrom_symbol (by omega)]
    simp only
    rw [hfirst]
    rfl
  | case3 a b =>
    have ha : a.toNat < 256 := a.toNat_lt
    have hb : b.toNat < 256 := b.toNat_lt
    have hfirst : UInt8.ofNat (a.toNat / 4 * 4 + (a.toNat % 4 * 16 + b.toNat / 16) / 16) = a :=
      ofNat_of_eq (by omega)
    have hsecond :
        UInt8.ofNat ((a.toNat % 4 * 16 + b.toNat / 16) % 16 * 16 + b.toNat % 16 * 4 / 4) = b :=
      ofNat_of_eq (by omega)
    rw [decode, decodeFrom_symbol (by omega)]
    simp only
    rw [decodeFrom_symbol (by omega)]
    simp only
    rw [decodeFrom_symbol (by omega)]
    simp only
    rw [hfirst, hsecond]
    rfl
  | case4 a b c bytes ih =>
    have ha : a.toNat < 256 := a.toNat_lt
    have hb : b.toNat < 256 := b.toNat_lt
    have hc : c.toNat < 256 := c.toNat_lt
    have hfirst : UInt8.ofNat (a.toNat / 4 * 4 + (a.toNat % 4 * 16 + b.toNat / 16) / 16) = a :=
      ofNat_of_eq (by omega)
    have hsecond : UInt8.ofNat ((a.toNat % 4 * 16 + b.toNat / 16) % 16 * 16 +
        (b.toNat % 16 * 4 + c.toNat / 64) / 4) = b := ofNat_of_eq (by omega)
    have hthird : UInt8.ofNat ((b.toNat % 16 * 4 + c.toNat / 64) % 4 * 64 + c.toNat % 64) = c :=
      ofNat_of_eq (by omega)
    rw [decode] at ih ⊢
    rw [decodeFrom_symbol (by omega)]
    simp only
    rw [decodeFrom_symbol (by omega)]
    simp only
    rw [decodeFrom_symbol (by omega)]
    simp only
    rw [decodeFrom_symbol (by omega)]
    simp only
    rw [ih, hfirst, hsecond, hthird]
    rfl

theorem encode_lt (bytes : List UInt8) : ∀ c ∈ encode bytes, c < 128 := by
  fun_induction encode bytes with
  | case1 => exact nofun
  | case2 a => simp [symbol_lt, pad]
  | case3 a b => simp [symbol_lt, pad]
  | case4 a b c bytes ih => simpa [symbol_lt] using ih

theorem length_decodeFrom_le {quad left pads : Nat} {cs : List Nat} {bytes : List UInt8}
    (h : decodeFrom quad left pads cs = some bytes) : bytes.length ≤ cs.length := by
  have hmap : ∀ {o : Option (List UInt8)} {c : UInt8} {bytes : List UInt8} {n : Nat},
      (∀ bs, o = some bs → bs.length ≤ n) → o.map (c :: ·) = some bytes → bytes.length ≤ n + 1 := by
    intro o c bytes n ho h
    obtain ⟨bs, hbs, rfl⟩ := Option.map_eq_some_iff.1 h
    exact Nat.succ_le_succ (ho bs hbs)
  induction cs generalizing quad left pads bytes with
  | nil =>
    rw [decodeFrom] at h
    split at h
    · cases h
      exact Nat.le_refl 0
    · cases h
  | cons c cs ih =>
    rw [decodeFrom] at h
    rw [List.length_cons]
    split at h
    · split at h
      · exact Nat.le_succ_of_le (ih h)
      · split at h
        · cases h
          exact Nat.zero_le _
        · exact Nat.le_succ_of_le (ih h)
    · split at h
      · exact Nat.le_succ_of_le (ih h)
      · split at h
        · exact Nat.le_succ_of_le (ih h)
        · exact hmap (fun _ => ih) h
        · exact hmap (fun _ => ih) h
        · exact hmap (fun _ => ih) h

theorem length_decode_le {cs : List Nat} {bytes : List UInt8} (h : decode cs = some bytes) :
    bytes.length ≤ cs.length := length_decodeFrom_le h

end Lib.Base64
