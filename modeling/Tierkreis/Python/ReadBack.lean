import Tierkreis.Python.Annotated

/-!
# What json reads of what it wrote

`dumps` escapes strings in UTF-16, so that `loads` joins two surrogates that fit.
Everything else is read as it was written, and a dict is filled key by key, where a
later value takes the place of an earlier one.
-/

namespace Tierkreis.Annotated

open Lib

/-! ## Strings -/

def IsHigh (c : Nat) : Prop := 0xD800 ≤ c ∧ c ≤ 0xDBFF

def IsLow (c : Nat) : Prop := 0xDC00 ≤ c ∧ c ≤ 0xDFFF

instance (c : Nat) : Decidable (IsHigh c) := inferInstanceAs (Decidable (_ ∧ _))

instance (c : Nat) : Decidable (IsLow c) := inferInstanceAs (Decidable (_ ∧ _))

/-- The character of two surrogates. -/
def joined (c d : Nat) : Nat := 0x10000 + (c - 0xD800) * 0x400 + (d - 0xDC00)

def joinPairs : PyStr → PyStr
  | c :: d :: s => if IsHigh c ∧ IsLow d then joined c d :: joinPairs s else c :: joinPairs (d :: s)
  | s => s

/-- No high surrogate stands right before a low one. -/
def Unpaired (s : PyStr) : Prop := s.IsChain fun c d => ¬ (IsHigh c ∧ IsLow d)

theorem joinPairs_of_unpaired {s : PyStr} (h : Unpaired s) : joinPairs s = s := by
  fun_induction joinPairs s with
  | case1 c d s hpair ih => exact absurd hpair (List.isChain_cons_cons.1 h).1
  | case2 c d s hpair ih => rw [ih (List.isChain_cons_cons.1 h).2]
  | case3 => rfl

theorem unpaired_of_lt {s : PyStr} (h : ∀ c ∈ s, c < 0xD800) : Unpaired s := by
  induction s with
  | nil => exact .nil
  | cons c s ih =>
    cases s with
    | nil => exact .singleton _
    | cons d s =>
      refine List.isChain_cons_cons.2 ⟨fun hpair => ?_, ih fun e he => h e (.tail _ he)⟩
      exact absurd hpair.1.1 (Nat.not_le_of_lt (h c (.head _)))

theorem joinPairs_cons (c : Nat) (s : PyStr) :
    ∃ e t, joinPairs (c :: s) = e :: t ∧ (e = c ∨ 0x10000 ≤ e) := by
  cases s with
  | nil => exact ⟨c, [], rfl, .inl rfl⟩
  | cons d s =>
    rw [joinPairs]
    split
    · exact ⟨_, _, rfl, .inr (by unfold joined; omega)⟩
    · exact ⟨_, _, rfl, .inl rfl⟩

theorem unpaired_cons_joinPairs {e c : Nat} {s : PyStr} (he : ¬ (IsHigh e ∧ IsLow c))
    (h : Unpaired (joinPairs (c :: s))) : Unpaired (e :: joinPairs (c :: s)) := by
  obtain ⟨d, t, heq, hd⟩ := joinPairs_cons c s
  rw [heq] at h ⊢
  refine List.isChain_cons_cons.2 ⟨?_, h⟩
  rcases hd with rfl | hd
  · exact he
  · rintro ⟨-, -, hlow⟩
    omega

/-- What has been joined holds no pair. -/
theorem unpaired_joinPairs (s : PyStr) : Unpaired (joinPairs s) := by
  fun_induction joinPairs s with
  | case1 c d s hpair ih =>
    cases s with
    | nil => exact .singleton _
    | cons c' s =>
      refine unpaired_cons_joinPairs ?_ ih
      rintro ⟨⟨-, hhigh⟩, -⟩
      unfold joined at hhigh
      omega
  | case2 c d s hpair ih => exact unpaired_cons_joinPairs hpair ih
  | case3 s h =>
    cases s with
    | nil => exact .nil
    | cons c s =>
      cases s with
      | nil => exact .singleton _
      | cons d s => exact absurd rfl (h c d s)

/-! ## Dicts -/

section

variable {α : Type}

theorem setItem_of_notMem {d : List (PyStr × α)} {e : PyStr × α} (h : e.1 ∉ d.map Prod.fst) :
    setItem d e = d ++ [e] := by
  induction d with
  | nil => rfl
  | cons e' d ih =>
    rw [List.map_cons, List.mem_cons, not_or] at h
    rw [setItem, if_neg (Ne.symm h.1), ih h.2]
    rfl

theorem mem_setItem {d : List (PyStr × α)} {e e' : PyStr × α} (h : e' ∈ setItem d e) :
    e' ∈ d ∨ e' = e := by
  induction d with
  | nil => exact .inr (List.mem_singleton.1 h)
  | cons e₁ d ih =>
    rw [setItem] at h
    split at h
    · rename_i hkey
      rcases List.mem_cons.1 h with rfl | h
      · exact .inr (Prod.ext hkey rfl)
      · exact .inl (.tail _ h)
    · rcases List.mem_cons.1 h with rfl | h
      · exact .inl (.head _)
      · exact (ih h).imp_left (.tail _)

theorem mem_of_mem_dictOf {entries : List (PyStr × α)} {e : PyStr × α} (h : e ∈ dictOf entries) :
    e ∈ entries := by
  have hs : ∀ {entries d : List (PyStr × α)}, e ∈ entries.foldl setItem d → e ∈ d ∨ e ∈ entries := by
    intro entries
    induction entries with
    | nil => exact fun h => .inl h
    | cons e' entries ih =>
      intro d h
      rcases ih h with h | h
      · rcases mem_setItem h with h | rfl
        · exact .inl h
        · exact .inr (.head _)
      · exact .inr (.tail _ h)
  exact (hs h).resolve_left List.not_mem_nil

/-- Distinct keys stay as they are. -/
theorem dictOf_of_nodup {entries : List (PyStr × α)} (h : (entries.map Prod.fst).Nodup) :
    dictOf entries = entries := by
  have hs : ∀ {entries d : List (PyStr × α)}, ((d ++ entries).map Prod.fst).Nodup →
      entries.foldl setItem d = d ++ entries := by
    intro entries
    induction entries with
    | nil => exact fun _ => (List.append_nil _).symm
    | cons e entries ih =>
      intro d h
      have hnot : e.1 ∉ d.map Prod.fst := by
        rw [List.map_append, List.map_cons, List.nodup_middle, List.nodup_cons, List.mem_append,
          not_or] at h
        exact h.1.1
      rw [List.foldl_cons, setItem_of_notMem hnot, ih (by simpa using h), List.append_assoc]
      rfl
  exact hs h

end

/-! ## Documents -/

mutual

/-- What is read of a document that has been written. -/
def normalise : Doc → Doc
  | .null => .null
  | .bool b => .bool b
  | .int n => .int n
  | .float x => .float x
  | .str s => .str (joinPairs s)
  | .arr items => .arr (normaliseItems items)
  | .obj entries => .obj (normaliseEntries entries)

def normaliseItems : List Doc → List Doc
  | [] => []
  | d :: ds => normalise d :: normaliseItems ds

def normaliseEntries : List (PyStr × Doc) → List (PyStr × Doc)
  | [] => []
  | (k, d) :: ds => (joinPairs k, normalise d) :: normaliseEntries ds

end

mutual

/-- The characters of the strings in a document, and one for each object. -/
def textSize : Doc → Nat
  | .str s => s.length
  | .arr items => textSizeItems items
  | .obj entries => 1 + textSizeEntries entries
  | _ => 0

def textSizeItems : List Doc → Nat
  | [] => 0
  | d :: ds => textSize d + textSizeItems ds

def textSizeEntries : List (PyStr × Doc) → Nat
  | [] => 0
  | (k, d) :: ds => k.length + textSize d + textSizeEntries ds

end

end Tierkreis.Annotated
