import Mathlib.Data.List.AList
import Mathlib.Data.List.Sort

/-!
# Finite maps

A hash map is an association list without repeated keys, in the order its
iterator would visit them. Lookups never depend on that order; the functions
that walk the entries do, so a statement quantified over a `HashMap` covers
every iteration order.
-/

namespace Lib

abbrev HashMap (κ ν : Type) := AList fun _ : κ => ν

namespace HashMap

variable {κ ν ω : Type}

/-- The entries in iteration order. -/
def toList (m : HashMap κ ν) : List (κ × ν) := m.entries.map fun e => (e.1, e.2)

/-- The entries in the order of a map that is sorted by key. -/
def inKeyOrder (m : HashMap κ ν) (le : κ → κ → Bool) : List (κ × ν) :=
  m.toList.insertionSort fun a b => le a.1 b.1

/-- Keep and rewrite the entries for which `f` gives a value. -/
def filterMap (f : κ → ν → Option ω) (m : HashMap κ ν) : HashMap κ ω where
  entries := m.entries.filterMap fun e => (f e.1 e.2).map fun w => ⟨e.1, w⟩
  nodupKeys := by
    refine List.Nodup.sublist ?_ m.nodupKeys
    change List.Sublist ((m.entries.filterMap _).map Sigma.fst) (m.entries.map Sigma.fst)
    induction m.entries with
    | nil => exact List.Sublist.refl _
    | cons e l ih =>
      cases h : f e.1 e.2 with
      | none => simpa [h] using ih.cons e.1
      | some w => simpa [h] using ih.cons_cons e.1

variable [DecidableEq κ]

def get? (m : HashMap κ ν) (k : κ) : Option ν := m.lookup k

def contains (m : HashMap κ ν) (k : κ) : Bool := (m.get? k).isSome

def insert (m : HashMap κ ν) (k : κ) (v : ν) : HashMap κ ν := AList.insert k v m

def erase (m : HashMap κ ν) (k : κ) : HashMap κ ν := AList.erase k m

/-- Later pairs overwrite earlier ones. -/
def ofList (l : List (κ × ν)) : HashMap κ ν := l.foldl (fun m e => m.insert e.1 e.2) ∅

/-- The map with the given entries in their order. Their keys are distinct. -/
def ofEntries (l : List (κ × ν)) : HashMap κ ν := ofList l.reverse

/-- `m` overlaid by `m'`. -/
def extend (m m' : HashMap κ ν) : HashMap κ ν := m' ∪ m

/-- Rewrite the entry at `k`, which is `d` when there is none. -/
def modify (m : HashMap κ ν) (d : ν) (k : κ) (f : ν → ν) : HashMap κ ν :=
  m.insert k (f ((m.get? k).getD d))

@[simp] theorem get?_empty (k : κ) : get? (∅ : HashMap κ ν) k = none := rfl

theorem get?_insert (m : HashMap κ ν) (k j : κ) (v : ν) :
    (m.insert k v).get? j = if j = k then some v else m.get? j := by
  by_cases h : j = k
  · subst h; simp [get?, insert]
  · simp [get?, insert, h]

@[simp] theorem get?_insert_self (m : HashMap κ ν) (k : κ) (v : ν) :
    (m.insert k v).get? k = some v := by simp [get?_insert]

theorem get?_insert_ne (m : HashMap κ ν) {k j : κ} (v : ν) (h : j ≠ k) :
    (m.insert k v).get? j = m.get? j := by simp [get?_insert, h]

theorem contains_insert (m : HashMap κ ν) (k j : κ) (v : ν) :
    (m.insert k v).contains j = (decide (j = k) || m.contains j) := by
  unfold contains
  rw [get?_insert]
  by_cases h : j = k <;> simp [h]

theorem get?_erase (m : HashMap κ ν) (k j : κ) :
    (m.erase k).get? j = if j = k then none else m.get? j := by
  by_cases h : j = k
  · subst h; simp [get?, erase]
  · simp [get?, erase, h]

theorem get?_extend (m m' : HashMap κ ν) (k : κ) :
    (m.extend m').get? k = (m'.get? k).or (m.get? k) := by
  unfold get? extend
  by_cases h : k ∈ m'
  · obtain ⟨v, hv⟩ := Option.isSome_iff_exists.1 (AList.lookup_isSome.2 h)
    rw [AList.lookup_union_left h, hv, Option.some_or]
  · rw [AList.lookup_union_right h, AList.lookup_eq_none.2 h, Option.none_or]

theorem get?_modify (m : HashMap κ ν) (d : ν) (k j : κ) (f : ν → ν) :
    (m.modify d k f).get? j = if j = k then some (f ((m.get? k).getD d)) else m.get? j :=
  get?_insert _ _ _ _

theorem get?_eq_some_iff {m : HashMap κ ν} {k : κ} {v : ν} :
    m.get? k = some v ↔ (k, v) ∈ m.toList := by
  unfold get? toList
  rw [← Option.mem_def, AList.mem_lookup_iff, List.mem_map]
  constructor
  · exact fun h => ⟨_, h, rfl⟩
  · rintro ⟨⟨a, b⟩, h, e⟩
    cases e
    exact h

theorem get?_filterMap (f : κ → ν → Option ω) (m : HashMap κ ν) (k : κ) :
    (m.filterMap f).get? k = (m.get? k).bind (f k) := by
  ext w
  rw [get?_eq_some_iff, Option.bind_eq_some_iff]
  simp only [filterMap, toList, List.mem_map, List.mem_filterMap, Option.map_eq_some_iff]
  constructor
  · rintro ⟨_, ⟨e, he, w', hw', rfl⟩, h⟩
    cases h
    exact ⟨e.2, get?_eq_some_iff.2 (List.mem_map.2 ⟨e, he, rfl⟩), hw'⟩
  · rintro ⟨v, hv, hw⟩
    obtain ⟨e, he, h⟩ := List.mem_map.1 (get?_eq_some_iff.1 hv)
    cases h
    exact ⟨⟨e.1, w⟩, ⟨e, he, w, hw, rfl⟩, rfl⟩

omit [DecidableEq κ] in
/-- The keys of the entries are distinct. -/
theorem nodup_toList (m : HashMap κ ν) : (m.toList.map Prod.fst).Nodup := by
  have h : m.toList.map Prod.fst = m.keys := by simp [toList, AList.keys, List.keys]
  rw [h]
  exact m.keys_nodup

omit [DecidableEq κ] in
theorem toList_inj {m m' : HashMap κ ν} (h : m.toList = m'.toList) : m = m' := by
  refine AList.ext (List.map_injective_iff.2 (fun e e' he => ?_) h)
  exact Sigma.ext (congrArg Prod.fst he) (heq_of_eq (congrArg Prod.snd he))

theorem find?_toList (m : HashMap κ ν) (k : κ) :
    (m.toList.find? fun e => e.1 = k).map Prod.snd = m.get? k := by
  cases h : m.get? k with
  | none =>
    rw [List.find?_eq_none.2, Option.map_none]
    intro e he hek
    have hv := get?_eq_some_iff.2 he
    rw [of_decide_eq_true hek, h] at hv
    cases hv
  | some v =>
    cases hf : m.toList.find? fun e => e.1 = k with
    | none =>
      have := List.find?_eq_none.1 hf _ (get?_eq_some_iff.1 h)
      simp at this
    | some e =>
      have hk : e.1 = k := by simpa using List.find?_some hf
      have hv := get?_eq_some_iff.2 (List.mem_of_find?_eq_some hf)
      rw [hk, h] at hv
      rw [Option.map_some, Option.some.inj hv]

theorem get?_ofList_cons_notMem {l : List (κ × ν)} {k : κ} :
    ∀ {m : HashMap κ ν}, k ∉ l.map Prod.fst →
      (l.foldl (fun m e => m.insert e.1 e.2) m).get? k = m.get? k := by
  induction l with
  | nil => exact fun _ => rfl
  | cons e l ih =>
    intro m h
    simp only [List.map_cons, List.mem_cons, not_or] at h
    rw [List.foldl_cons, ih h.2, get?_insert_ne _ _ h.1]

theorem get?_ofList_concat (l : List (κ × ν)) (k : κ) (v : ν) :
    (ofList (l ++ [(k, v)])).get? k = some v := by
  rw [ofList, List.foldl_append, List.foldl_cons, List.foldl_nil, get?_insert_self]

theorem get?_foldl_insert_of_mem {l : List (κ × ν)} (h : (l.map Prod.fst).Nodup) {k : κ} {v : ν}
    (hm : (k, v) ∈ l) (m : HashMap κ ν) :
    (l.foldl (fun m e => m.insert e.1 e.2) m).get? k = some v := by
  induction l generalizing m with
  | nil => cases hm
  | cons e l ih =>
    rw [List.map_cons, List.nodup_cons] at h
    rw [List.foldl_cons]
    rcases List.mem_cons.1 hm with rfl | hm
    · rw [get?_ofList_cons_notMem h.1, get?_insert_self]
    · exact ih h.2 hm _

theorem get?_ofList_of_mem {l : List (κ × ν)} (h : (l.map Prod.fst).Nodup) {k : κ} {v : ν}
    (hm : (k, v) ∈ l) : (ofList l).get? k = some v := get?_foldl_insert_of_mem h hm ∅

/-- What pairs are written over a map takes the place of its entries. -/
theorem get?_foldl_insert_or (l : List (κ × ν)) (m : HashMap κ ν) (k : κ) :
    (l.foldl (fun m e => m.insert e.1 e.2) m).get? k = ((ofList l).get? k).or (m.get? k) := by
  induction l generalizing m with
  | nil => rfl
  | cons e l ih =>
    rw [ofList, List.foldl_cons, List.foldl_cons, ih, ih (insert ∅ e.1 e.2), get?_insert, get?_insert,
      get?_empty, Option.or_assoc]
    by_cases h : k = e.1
    · rw [if_pos h, if_pos h, Option.some_or]
    · rw [if_neg h, if_neg h, Option.none_or]

theorem get?_ofList_cons (e : κ × ν) (l : List (κ × ν)) (k : κ) :
    (ofList (e :: l)).get? k =
      ((ofList l).get? k).or (if k = e.1 then some e.2 else none) := by
  rw [ofList, List.foldl_cons, get?_foldl_insert_or, get?_insert, get?_empty]

theorem toList_insert_of_notMem {m : HashMap κ ν} {k : κ} (h : k ∉ m.toList.map Prod.fst) (v : ν) :
    (m.insert k v).toList = (k, v) :: m.toList := by
  have hk : k ∉ m.entries.keys := by
    intro hk
    obtain ⟨e, he, rfl⟩ := List.mem_map.1 hk
    exact h (List.mem_map_of_mem (List.mem_map_of_mem he))
  unfold insert toList
  rw [AList.entries_insert_of_notMem hk, List.map_cons]

theorem toList_ofEntries {l : List (κ × ν)} (h : (l.map Prod.fst).Nodup) :
    (ofEntries l).toList = l := by
  unfold ofEntries ofList
  induction l with
  | nil => rfl
  | cons e l ih =>
    obtain ⟨hk, h⟩ := List.nodup_cons.1 h
    rw [List.reverse_cons, List.foldl_append, List.foldl_cons, List.foldl_nil,
      toList_insert_of_notMem (by rwa [ih h]), ih h]

theorem mem_of_get?_ofList {l : List (κ × ν)} {k : κ} {v : ν} (h : (ofList l).get? k = some v) :
    (k, v) ∈ l := by
  have hs : ∀ (l : List (κ × ν)) (m : HashMap κ ν),
      (l.foldl (fun m e => m.insert e.1 e.2) m).get? k = some v →
        (k, v) ∈ l ∨ m.get? k = some v := by
    intro l
    induction l with
    | nil => exact fun m hm => .inr hm
    | cons e l ih =>
      intro m hm
      rcases ih _ hm with hl | hins
      · exact .inl (List.mem_cons_of_mem _ hl)
      · rw [get?_insert] at hins
        split at hins
        · rename_i hk
          exact .inl (hk ▸ Option.some.inj hins ▸ List.mem_cons_self)
        · exact .inr hins
  exact (hs l ∅ h).resolve_right (by simp)

/-- Entries of a map that cover its keys make up the map. -/
theorem get?_ofList_of_forall {m : HashMap κ ν} {l : List (κ × ν)}
    (h : ∀ e ∈ l, m.get? e.1 = some e.2) {k : κ} (hk : k ∈ l.map Prod.fst) :
    (ofList l).get? k = m.get? k := by
  suffices hs : ∀ m' : HashMap κ ν,
      (l.foldl (fun m e => m.insert e.1 e.2) m').get? k = m.get? k from hs ∅
  induction l with
  | nil => cases hk
  | cons e l ih =>
    intro m'
    rw [List.forall_mem_cons] at h
    rw [List.foldl_cons]
    by_cases hkl : k ∈ l.map Prod.fst
    · exact ih h.2 hkl _
    · obtain rfl : k = e.1 := (List.mem_cons.1 hk).resolve_right hkl
      rw [get?_ofList_cons_notMem hkl, get?_insert_self, h.1]

/-- Pairing each key of a list with its value. -/
theorem get?_ofList_map (f : κ → ν) (l : List κ) (k : κ) :
    (ofList (l.map fun k => (k, f k))).get? k = if k ∈ l then some (f k) else none := by
  suffices h : ∀ m : HashMap κ ν, (l.foldl (fun m k => m.insert k (f k)) m).get? k =
      if k ∈ l then some (f k) else m.get? k by
    rw [ofList, List.foldl_map, h, get?_empty]
  induction l with
  | nil => exact fun _ => rfl
  | cons j l ih =>
    intro m
    rw [List.foldl_cons, ih, get?_insert]
    by_cases h : k = j <;> simp [h]

/-- Writing the entries of a map, rewritten, over those of another. -/
theorem get?_foldl_insert (m : HashMap κ ω) (m' : HashMap κ ν) (f : ν → ω) (k : κ) :
    (m'.toList.foldl (fun m e => m.insert e.1 (f e.2)) m).get? k =
      ((m'.get? k).map f).or (m.get? k) := by
  rw [← find?_toList m']
  have hnodup := m'.nodup_toList
  generalize m'.toList = l at hnodup
  induction l generalizing m with
  | nil => rfl
  | cons e l ih =>
    rw [List.map_cons, List.nodup_cons] at hnodup
    rw [List.foldl_cons, ih _ hnodup.2, get?_insert]
    by_cases h : e.1 = k
    · have hnone : l.find? (fun e => e.1 = k) = none :=
        List.find?_eq_none.2 fun e' he' heq =>
          hnodup.1 (h.trans (of_decide_eq_true heq).symm ▸ List.mem_map_of_mem he')
      simp [h, hnone]
    · simp [h, Ne.symm h]

/-- Pairing each key of a list with its value, where it has one. -/
theorem get?_ofList_filterMap (f : κ → Option ν) (l : List κ) (k : κ) :
    (ofList (l.filterMap fun k => (f k).map fun v => (k, v))).get? k =
      if k ∈ l then f k else none := by
  suffices h : ∀ m : HashMap κ ν,
      ((l.filterMap fun k => (f k).map fun v => (k, v)).foldl (fun m e => m.insert e.1 e.2) m).get? k =
        (if k ∈ l then f k else none).or (m.get? k) by
    rw [ofList, h, get?_empty, Option.or_none]
  induction l with
  | nil => exact fun _ => rfl
  | cons j l ih =>
    intro m
    cases hj : f j with
    | none =>
      rw [List.filterMap_cons_none (by rw [hj, Option.map_none]), ih]
      by_cases h : k = j
      · subst h
        simp [hj]
      · simp [h]
    | some v =>
      rw [List.filterMap_cons_some (by rw [hj, Option.map_some]), List.foldl_cons, ih, get?_insert]
      by_cases h : k = j
      · subst h
        by_cases hk : k ∈ l <;> simp [hj, hk]
      · simp [h]

/-- The entries in the order of their keys, whatever the order of the iterator. -/
theorem inKeyOrder_congr {le : κ → κ → Bool} (htotal : ∀ a b, le a b = true ∨ le b a = true)
    (htrans : ∀ a b c, le a b = true → le b c = true → le a c = true)
    (hanti : ∀ a b, le a b = true → le b a = true → a = b) {m m' : HashMap κ ν}
    (h : ∀ k, m.get? k = m'.get? k) : m.inKeyOrder le = m'.inKeyOrder le := by
  have hmem : ∀ e, e ∈ m.toList ↔ e ∈ m'.toList := fun e => by
    rw [← get?_eq_some_iff, ← get?_eq_some_iff, h]
  have hperm : m.toList.Perm m'.toList :=
    (List.perm_ext_iff_of_nodup (List.Nodup.of_map _ m.nodup_toList)
      (List.Nodup.of_map _ m'.nodup_toList)).2 hmem
  let r : κ × ν → κ × ν → Prop := fun a b => le a.1 b.1
  have : Std.Total r := ⟨fun a b => htotal a.1 b.1⟩
  have : IsTrans (κ × ν) r := ⟨fun a b c => htrans a.1 b.1 c.1⟩
  refine List.Perm.eq_of_pairwise ?_ (List.pairwise_insertionSort r m.toList)
    (List.pairwise_insertionSort r m'.toList) ?_
  · intro a b ha hb hab hba
    have ha := get?_eq_some_iff.2 ((List.mem_insertionSort _).1 ha)
    have hb := get?_eq_some_iff.2 ((List.mem_insertionSort _).1 hb)
    have hkey := hanti a.1 b.1 hab hba
    rw [h, hkey, hb] at ha
    exact Prod.ext hkey (Option.some.inj ha).symm
  · exact (List.perm_insertionSort _ _).trans (hperm.trans (List.perm_insertionSort _ _).symm)

/-- A fold that writes the entry `k e` for each `e`, from entries that no other `e` writes. -/
theorem get?_foldl_put {ι : Type} (put : HashMap κ ν → ι → HashMap κ ν) (k : ι → κ)
    (new : HashMap κ ν → ι → Option ν) (D : κ → Prop) (hk : ∀ e, D (k e))
    (hput : ∀ m e j, (put m e).get? j = if j = k e then new m e else m.get? j)
    (hnew : ∀ m m' e, m.get? (k e) = m'.get? (k e) → (∀ j, ¬ D j → m.get? j = m'.get? j) →
      new m e = new m' e) {l : List ι} :
    ∀ {m : HashMap κ ν}, (l.map k).Nodup →
      (∀ e ∈ l, (l.foldl put m).get? (k e) = new m e) ∧
        ∀ j, j ∉ l.map k → (l.foldl put m).get? j = m.get? j := by
  induction l with
  | nil => exact fun _ => ⟨fun e he => (by cases he), fun _ _ => rfl⟩
  | cons e l ih =>
    intro m hl
    rw [List.map_cons, List.nodup_cons] at hl
    obtain ⟨hin, hout⟩ := ih (m := put m e) hl.2
    rw [List.foldl_cons]
    refine ⟨fun e' he' => ?_, fun j hj => ?_⟩
    · rcases List.mem_cons.1 he' with rfl | he'
      · rw [hout _ hl.1, hput, if_pos rfl]
      · have hne : k e' ≠ k e := fun h => hl.1 (h ▸ List.mem_map_of_mem he')
        rw [hin e' he']
        refine hnew _ _ _ ?_ fun j hj => ?_
        · rw [hput, if_neg hne]
        · rw [hput, if_neg fun h : j = k e => hj (h ▸ hk e)]
    · rw [List.map_cons, List.mem_cons, not_or] at hj
      rw [hout j hj.2, hput, if_neg hj.1]

/-- The entry of a key is rewritten in place, up to order. -/
theorem toList_modify_perm (m : HashMap κ ν) (d : ν) (k : κ) (f : ν → ν) :
    ∃ rest, (m.modify d k f).toList = (k, f ((m.get? k).getD d)) :: rest ∧
      m.toList.Perm (((m.get? k).toList.map fun v => (k, v)) ++ rest) := by
  refine ⟨(m.entries.kerase k).map fun e => (e.1, e.2), ?_, ?_⟩
  · simp [modify, insert, toList, AList.entries_insert]
  · by_cases h : k ∈ m.entries.keys
    · obtain ⟨v, l₁, l₂, hn, he, hk⟩ := List.exists_of_kerase h
      have hv : m.get? k = some v := by
        rw [get?_eq_some_iff, toList, he]
        simp
      rw [hk, hv, toList, he]
      simp only [List.map_append, List.map_cons]
      exact List.perm_middle
    · have hv : m.get? k = none := by
        rw [get?, AList.lookup_eq_none]
        exact h
      rw [List.kerase_of_notMem_keys h, hv]
      exact .refl _

theorem flatMap_modify_append (m : HashMap κ (List ν)) (k : κ) (x : ν) :
    ((m.modify [] k (· ++ [x])).toList.flatMap Prod.snd).Perm (m.toList.flatMap Prod.snd ++ [x]) := by
  obtain ⟨rest, hm, hp⟩ := m.toList_modify_perm [] k (· ++ [x])
  have hp := (hp.flatMap_right Prod.snd).append_right [x]
  refine .trans ?_ hp.symm
  rw [hm]
  cases m.get? k with
  | none => simpa using (List.perm_append_singleton x _).symm
  | some v =>
    simp only [List.flatMap_cons, Option.getD_some, Option.toList_some, List.map_cons, List.map_nil,
      List.singleton_append, List.append_assoc]
    exact (List.perm_append_singleton x _).symm.append_left v

end HashMap

end Lib
