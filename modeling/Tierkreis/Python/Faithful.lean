import Mathlib.Data.List.Forall2
import Tierkreis.Python.Verdict

/-!
# Values that their annotation gives back

What json gives back of a value is some other value, and an annotation turns it into a
third. Here is when the third is the first: a condition on the value and its
annotation, part by part.
-/

namespace Tierkreis.Annotated

open Lib Lib.StateExcept

variable {J : PyJson} {K : Classes}

/-! ## Well-formed values -/

/-- A name that a field of a named tuple may have. -/
def FieldName (k : PyStr) : Prop := Unpaired k ∧ k.head? ≠ some '_'.toNat

/-- The keys of a dict are distinct, the fields of a struct are those of a named tuple, and
`to_dict` and `to_list` return a dict and a list. -/
inductive Val.WF : Val → Prop
  | none : Val.none.WF
  | bool (b : Bool) : (Val.bool b).WF
  | int (n : Int) : (Val.int n).WF
  | float (x : Float) : (Val.float x).WF
  | str (s : PyStr) : (Val.str s).WF
  | bytes (b : Bytes) : (Val.bytes b).WF
  | complex (re im : Float) : (Val.complex re im).WF
  | list {items : List Val} (h : ∀ p ∈ items, p.WF) : (Val.list items).WF
  | tuple {items : List Val} (h : ∀ p ∈ items, p.WF) : (Val.tuple items).WF
  | dict {entries : List (Val × Val)} (hn : (entries.map Prod.fst).Nodup)
      (h : ∀ e ∈ entries, e.2.WF) : (Val.dict entries).WF
  | struct {cls : String} {fields : List (PyStr × Val)} (hn : (fields.map Prod.fst).Nodup)
      (hf : ∀ e ∈ fields, FieldName e.1) (h : ∀ e ∈ fields, e.2.WF) : (Val.struct cls fields).WF
  | instDict {cls : String} {id : Nat} {entries : List (Val × Val)} (h : (Val.dict entries).WF) :
      (Val.inst cls id (.dict entries)).WF
  | instList {cls : String} {id : Nat} {items : List Val} (h : (Val.list items).WF) :
      (Val.inst cls id (.list items)).WF

/-! ## Dicts -/

/-- The decoder takes an object with both keys for bytes. -/
def Marked (es : List (PyStr × Val)) : Prop :=
  pyStr "__tkr_bytes__" ∈ es.map Prod.fst ∧ pyStr "bytes" ∈ es.map Prod.fst

/-- The keys of a dict that comes back as one. -/
def PlainKeys (es : List (PyStr × Val)) : Prop := (∀ e ∈ es, Unpaired e.1) ∧ ¬ Marked es

theorem lookup_eq_none_iff {es : List (PyStr × Val)} {k : PyStr} :
    es.lookup k = none ↔ k ∉ es.map Prod.fst := by
  rw [List.lookup_eq_none_iff, List.mem_map]
  constructor
  · rintro h ⟨e, he, rfl⟩
    exact absurd (h e he) (by simp)
  · intro h e he
    rw [bne_iff_ne]
    exact fun hk => h ⟨e, he, hk.symm⟩

theorem objectHook_cases (es : List (PyStr × Val)) :
    (¬ Marked es ∧ objectHook es = some (.dict (strEntries es))) ∨
      (Marked es ∧ ∀ v, objectHook es = some v → ∃ b, v = .bytes b) := by
  have hmem : ∀ {k : PyStr} {v : Val}, es.lookup k = some v → k ∈ es.map Prod.fst := by
    intro k v h
    by_contra hnot
    rw [lookup_eq_none_iff.2 hnot] at h
    cases h
  have hmapped : ∀ {o : Option Bytes} {v : Val}, o.map Val.bytes = some v → ∃ b, v = .bytes b := by
    intro o v h
    obtain ⟨b, -, rfl⟩ := Option.map_eq_some_iff.1 h
    exact ⟨b, rfl⟩
  unfold objectHook
  split
  · rename_i hmark hbytes
    exact .inr ⟨⟨hmem hmark, hmem hbytes⟩, fun v => hmapped⟩
  · rename_i hmark hbytes
    exact .inr ⟨⟨hmem hmark, hmem hbytes⟩, fun v => hmapped⟩
  · rename_i hmark hbytes
    exact .inr ⟨⟨hmem hmark, hmem hbytes⟩, nofun⟩
  · rename_i hnone
    refine .inl ⟨?_, rfl⟩
    rintro ⟨hmark, hbytes⟩
    cases hm : es.lookup (pyStr "__tkr_bytes__") with
    | none => exact lookup_eq_none_iff.1 hm hmark
    | some m =>
      cases hb : es.lookup (pyStr "bytes") with
      | none => exact lookup_eq_none_iff.1 hb hbytes
      | some b => exact hnone m b hm hb

theorem objectHook_of_not_marked {es : List (PyStr × Val)} (h : ¬ Marked es) :
    objectHook es = some (.dict (strEntries es)) := by
  rcases objectHook_cases es with h' | h'
  · exact h'.2
  · exact absurd h'.1 h

theorem strEntries_inj {es es' : List (PyStr × Val)} (h : strEntries es = strEntries es') :
    es = es' := by
  refine List.map_injective_iff.2 (fun e e' he => ?_) h
  obtain ⟨k, v⟩ := e
  obtain ⟨k', v'⟩ := e'
  cases he
  rfl

theorem of_objectHook_eq_dict {es : List (PyStr × Val)} {E : List (Val × Val)}
    (h : objectHook es = some (.dict E)) : ¬ Marked es ∧ E = strEntries es := by
  rcases objectHook_cases es with ⟨hm, heq⟩ | ⟨-, hbytes⟩
  · cases h.symm.trans heq
    exact ⟨hm, rfl⟩
  · obtain ⟨b, hb⟩ := hbytes _ h
    cases hb

theorem fst_strEntries (es : List (PyStr × Val)) :
    (strEntries es).map Prod.fst = (es.map Prod.fst).map Val.str := by
  rw [strEntries, List.map_map, List.map_map]
  rfl

theorem nodup_of_strEntries {es : List (PyStr × Val)} (h : ((strEntries es).map Prod.fst).Nodup) :
    (es.map Prod.fst).Nodup := by
  rw [fst_strEntries] at h
  exact List.Nodup.of_map _ h

/-- Entries of which the keys are strings. -/
theorem exists_strEntries {entries : List (Val × Val)} {ks : List PyStr}
    (h : entries.map Prod.fst = ks.map Val.str) :
    ∃ es, entries = strEntries es ∧ es.map Prod.fst = ks := by
  induction entries generalizing ks with
  | nil =>
    cases ks with
    | nil => exact ⟨[], rfl, rfl⟩
    | cons k ks => cases h
  | cons e entries ih =>
    cases ks with
    | nil => cases h
    | cons k ks =>
      obtain ⟨hk, hks⟩ := List.cons.inj h
      obtain ⟨es, rfl, rfl⟩ := ih hks
      obtain ⟨key, v⟩ := e
      cases hk
      exact ⟨(k, v) :: es, rfl, rfl⟩

/-! ## What is read back -/

theorem readItems_eq_some_iff {items js : List Val} :
    readItems J items = some js ↔ List.Forall₂ (fun p j => readBack J p = some j) items js := by
  induction items generalizing js with
  | nil =>
    constructor
    · intro h
      cases h
      exact .nil
    · intro h
      cases h
      rfl
  | cons p items ih =>
    rw [readItems, Option.bind_eq_bind, Option.bind_eq_some_iff]
    constructor
    · rintro ⟨j, hj, h⟩
      obtain ⟨js, hjs, h⟩ := Option.bind_eq_some_iff.1 h
      cases h
      exact .cons hj (ih.1 hjs)
    · intro h
      cases h with
      | cons hj hjs => exact ⟨_, hj, Option.bind_eq_some_iff.2 ⟨_, ih.2 hjs, rfl⟩⟩

theorem readFields_eq_some_iff {fields es : List (PyStr × Val)} :
    readFields J fields = some es ↔
      List.Forall₂ (fun p e => e.1 = joinPairs p.1 ∧ readBack J p.2 = some e.2) fields es := by
  induction fields generalizing es with
  | nil =>
    constructor
    · intro h
      cases h
      exact .nil
    · intro h
      cases h
      rfl
  | cons p fields ih =>
    rw [readFields, Option.bind_eq_bind, Option.bind_eq_some_iff]
    constructor
    · rintro ⟨j, hj, h⟩
      obtain ⟨js, hjs, h⟩ := Option.bind_eq_some_iff.1 h
      cases h
      exact .cons ⟨rfl, hj⟩ (ih.1 hjs)
    · intro h
      cases h with
      | @cons _ e _ es he hes =>
        obtain ⟨k, j⟩ := e
        obtain ⟨hk, hj⟩ := he
        dsimp only at hk hj
        subst hk
        exact ⟨j, hj, Option.bind_eq_some_iff.2 ⟨es, ih.2 hes, rfl⟩⟩

theorem readEntries_strEntries (es : List (PyStr × Val)) :
    readEntries J (strEntries es) = readFields J es := by
  induction es with
  | nil => rfl
  | cons e es ih =>
    change (some e.1 >>= fun k => readBack J e.2 >>= fun q => readEntries J (strEntries es) >>=
      fun qs => pure ((joinPairs k, q) :: qs)) = _
    rw [ih]
    rfl

/-- All keys that are read are joined. -/
theorem unpaired_of_readEntries {entries : List (Val × Val)} {es : List (PyStr × Val)}
    (h : readEntries J entries = some es) : ∀ e ∈ es, Unpaired e.1 := by
  induction entries generalizing es with
  | nil =>
    cases h
    exact nofun
  | cons p entries ih =>
    rw [readEntries, Option.bind_eq_bind, Option.bind_eq_some_iff] at h
    obtain ⟨k, -, h⟩ := h
    obtain ⟨j, -, h⟩ := Option.bind_eq_some_iff.1 h
    obtain ⟨js, hjs, h⟩ := Option.bind_eq_some_iff.1 h
    cases h
    exact List.forall_mem_cons.2 ⟨unpaired_joinPairs k, ih hjs⟩

theorem fst_readFields {fields es : List (PyStr × Val)} (hu : ∀ e ∈ fields, Unpaired e.1)
    (h : List.Forall₂ (fun p e => e.1 = joinPairs p.1 ∧ readBack J p.2 = some e.2) fields es) :
    es.map Prod.fst = fields.map Prod.fst := by
  induction h with
  | nil => rfl
  | cons he _ ih =>
    obtain ⟨hp, hu⟩ := List.forall_mem_cons.1 hu
    rw [List.map_cons, List.map_cons, ih hu, he.1, joinPairs_of_unpaired hp]

/-- Plain keys stay, and the values are read one by one. -/
theorem readFields_plain {fields : List (PyStr × Val)} (hu : ∀ e ∈ fields, Unpaired e.1)
    (hn : (fields.map Prod.fst).Nodup) (hm : ¬ Marked fields) {es : List (PyStr × Val)}
    (h : readFields J fields = some es) :
    objectHook (dictOf es) = some (.dict (strEntries es)) ∧ es.map Prod.fst = fields.map Prod.fst := by
  have hfst := fst_readFields hu (readFields_eq_some_iff.1 h)
  rw [dictOf_of_nodup (hfst ▸ hn)]
  refine ⟨objectHook_of_not_marked ?_, hfst⟩
  unfold Marked at hm ⊢
  rwa [hfst]

/-- When a dict is read back as a dict with the same keys. -/
theorem readBack_dict_iff {entries E : List (Val × Val)} (hn : (entries.map Prod.fst).Nodup) :
    (readBack J (.dict entries) = some (.dict E) ∧ E.map Prod.fst = entries.map Prod.fst) ↔
      ∃ es es', entries = strEntries es ∧ PlainKeys es ∧ readFields J es = some es' ∧
        E = strEntries es' := by
  constructor
  · rintro ⟨h, hkeys⟩
    obtain ⟨es', hes', h⟩ := Option.bind_eq_some_iff.1 h
    obtain ⟨hm, rfl⟩ := of_objectHook_eq_dict h
    rw [fst_strEntries] at hkeys
    obtain ⟨es, rfl, hks⟩ := exists_strEntries hkeys.symm
    rw [readEntries_strEntries] at hes'
    have hu : ∀ e ∈ es, Unpaired e.1 := by
      intro e he
      have hk : e.1 ∈ (dictOf es').map Prod.fst := hks ▸ List.mem_map_of_mem he
      obtain ⟨e', he', hkey⟩ := List.mem_map.1 hk
      rw [← hkey]
      refine @unpaired_of_readEntries J (strEntries es) es' ?_ e' (mem_of_mem_dictOf he')
      rw [readEntries_strEntries, hes']
    have hnodup := nodup_of_strEntries hn
    have hm' : ¬ Marked es := by
      unfold Marked at hm ⊢
      rwa [hks]
    obtain ⟨hhook, -⟩ := readFields_plain hu hnodup hm' hes'
    have heq := (of_objectHook_eq_dict hhook).2
    exact ⟨es, es', rfl, ⟨hu, hm'⟩, hes', heq.symm⟩
  · rintro ⟨es, es', rfl, ⟨hu, hm⟩, hes', rfl⟩
    obtain ⟨hhook, hfst⟩ := readFields_plain hu (nodup_of_strEntries hn) hm hes'
    refine ⟨?_, by rw [fst_strEntries, fst_strEntries, hfst]⟩
    rw [readBack, readEntries_strEntries, hes']
    exact hhook

/-- A struct is read back as a dict of its fields. -/
theorem readBack_struct {cls : String} {fields : List (PyStr × Val)}
    (hn : (fields.map Prod.fst).Nodup) (hf : ∀ e ∈ fields, FieldName e.1) {j : Val} :
    readBack J (.struct cls fields) = some j ↔
      ∃ es, readFields J fields = some es ∧ j = .dict (strEntries es) := by
  have hm : ¬ Marked fields := by
    rintro ⟨hmark, -⟩
    obtain ⟨e, he, hk⟩ := List.mem_map.1 hmark
    exact (hf e he).2 (by rw [hk]; rfl)
  rw [readBack, Option.bind_eq_some_iff]
  constructor
  · rintro ⟨es, hes, h⟩
    obtain ⟨hhook, -⟩ := readFields_plain (fun e he => (hf e he).1) hn hm hes
    exact ⟨es, hes, Option.some.inj (h.symm.trans hhook)⟩
  · rintro ⟨es, hes, rfl⟩
    exact ⟨es, hes, (readFields_plain (fun e he => (hf e he).1) hn hm hes).1⟩

/-! ## Values that json itself gives back -/

inductive Raw : Val → Prop
  | none : Raw .none
  | bool (b : Bool) : Raw (.bool b)
  | int (n : Int) : Raw (.int n)
  | float (x : Float) : Raw (.float x)
  | str {s : PyStr} (h : Unpaired s) : Raw (.str s)
  | bytes (b : Bytes) : Raw (.bytes b)
  | list {items : List Val} (h : ∀ p ∈ items, Raw p) : Raw (.list items)
  | dict {es : List (PyStr × Val)} (hk : PlainKeys es) (h : ∀ e ∈ es, Raw e.2) :
      Raw (.dict (strEntries es))

theorem readBack_list {items : List Val} {j : Val} :
    readBack J (.list items) = some j ↔
      ∃ js, List.Forall₂ (fun p j => readBack J p = some j) items js ∧ j = .list js := by
  rw [readBack, Option.map_eq_some_iff]
  refine exists_congr fun js => and_congr readItems_eq_some_iff ⟨Eq.symm, Eq.symm⟩

theorem readBack_tuple {items : List Val} {j : Val} :
    readBack J (.tuple items) = some j ↔
      ∃ js, List.Forall₂ (fun p j => readBack J p = some j) items js ∧ j = .list js := by
  rw [readBack, Option.map_eq_some_iff]
  refine exists_congr fun js => and_congr readItems_eq_some_iff ⟨Eq.symm, Eq.symm⟩

theorem readBack_inst_cases {cls : String} {id : Nat} {converted j : Val}
    (h : (Val.inst cls id converted).WF) (hj : readBack J (.inst cls id converted) = some j) :
    (∃ js, j = .list js) ∨ (∃ E, j = .dict E) ∨ ∃ b, j = .bytes b := by
  cases h with
  | instDict h =>
    obtain ⟨es, -, hhook⟩ := Option.bind_eq_some_iff.1 hj
    rcases objectHook_cases (dictOf es) with ⟨-, heq⟩ | ⟨-, hbytes⟩
    · cases hhook.symm.trans heq
      exact .inr (.inl ⟨_, rfl⟩)
    · exact .inr (.inr (hbytes j hhook))
  | instList h =>
    obtain ⟨js, -, rfl⟩ := readBack_list.1 hj
    exact .inl ⟨js, rfl⟩

theorem raw_list_iff {items : List Val} : Raw (.list items) ↔ ∀ p ∈ items, Raw p :=
  ⟨fun h => by cases h with | list h => exact h, .list⟩

theorem raw_dict_iff {entries : List (Val × Val)} :
    Raw (.dict entries) ↔ ∃ es, entries = strEntries es ∧ PlainKeys es ∧ ∀ e ∈ es, Raw e.2 := by
  constructor
  · intro h
    cases h with
    | dict hk h => exact ⟨_, rfl, hk, h⟩
  · rintro ⟨es, rfl, hk, h⟩
    exact .dict hk h

theorem readBack_self_iff {v : Val} (hv : v.WF) : readBack J v = some v ↔ Raw v := by
  induction v using Val.induct with
  | none => exact iff_of_true rfl .none
  | bool b => exact iff_of_true rfl (.bool b)
  | int n => exact iff_of_true rfl (.int n)
  | float x => exact iff_of_true rfl (.float x)
  | bytes b => exact iff_of_true rfl (.bytes b)
  | str s =>
    constructor
    · intro h
      have heq : joinPairs s = s := Val.str.inj (Option.some.inj h)
      exact .str (heq ▸ unpaired_joinPairs s)
    · intro h
      cases h with
      | str h => exact congrArg (fun s => some (Val.str s)) (joinPairs_of_unpaired h)
  | complex re im =>
    refine iff_of_false (fun h => ?_) nofun
    cases h
  | list items ih =>
    cases hv with
    | list hv =>
      have hitems : (∀ p ∈ items, readBack J p = some p) ↔ ∀ p ∈ items, Raw p :=
        forall₂_congr fun p hp => ih p hp (hv p hp)
      rw [readBack_list, raw_list_iff, ← hitems]
      constructor
      · rintro ⟨js, hjs, heq⟩
        cases heq
        exact List.forall₂_same.1 hjs
      · exact fun h => ⟨items, List.forall₂_same.2 h, rfl⟩
  | tuple items ih =>
    refine iff_of_false (fun h => ?_) nofun
    obtain ⟨js, -, heq⟩ := readBack_tuple.1 h
    cases heq
  | dict entries ih =>
    cases hv with
    | dict hn hv =>
      rw [raw_dict_iff]
      constructor
      · intro h
        obtain ⟨es, es', rfl, hk, hes, heq⟩ := (readBack_dict_iff hn).1 ⟨h, rfl⟩
        cases strEntries_inj heq
        refine ⟨es, rfl, hk, fun e he => ?_⟩
        have hself := List.forall₂_same.1 (readFields_eq_some_iff.1 hes) e he
        have hmem : ((Val.str e.1, e.2) : Val × Val) ∈ strEntries es :=
          List.mem_map_of_mem he
        exact (ih _ hmem (hv _ hmem)).1 hself.2
      · rintro ⟨es, rfl, hk, hraw⟩
        refine ((readBack_dict_iff hn).2 ⟨es, es, rfl, hk, ?_, rfl⟩).1
        refine readFields_eq_some_iff.2 (List.forall₂_same.2 fun e he => ?_)
        have hmem : ((Val.str e.1, e.2) : Val × Val) ∈ strEntries es :=
          List.mem_map_of_mem he
        exact ⟨(joinPairs_of_unpaired (hk.1 e he)).symm, (ih _ hmem (hv _ hmem)).2 (hraw e he)⟩
  | struct cls fields ih =>
    cases hv with
    | struct hn hf hv =>
      refine iff_of_false (fun h => ?_) nofun
      obtain ⟨es, -, heq⟩ := (readBack_struct hn hf).1 h
      cases heq
  | inst cls id converted ih =>
    refine iff_of_false (fun h => ?_) nofun
    rcases readBack_inst_cases hv h with ⟨js, h⟩ | ⟨E, h⟩ | ⟨b, h⟩ <;> cases h

/-! ## Values that their annotation gives back -/

mutual

/-- The annotation makes the value again of what json gives back of it. -/
def Faithful (J : PyJson) (K : Classes) : Hint → Val → Prop
  | .union args, v => FaithfulUnion J K args v
  | .complex, v => v = .none ∨ ∃ re im, v = .complex re im
  | .convertible cls, v => v = .none ∨ ∃ j, j ≠ .none ∧ readBack J v = some j ∧ K.fromVal cls j = .ok v
  | .struct cls fields, v =>
    v = .none ∨ ∃ vs, v = .struct cls vs ∧ FaithfulFields J K fields vs
  | .tuple (arg :: _), v => v = .none ∨ ∃ items, v = .list items ∧ ∀ p ∈ items, Faithful J K arg p
  | .list arg, v => v = .none ∨ ∃ items, v = .list items ∧ ∀ p ∈ items, Faithful J K arg p
  | .dict _ arg, v =>
    v = .none ∨ ∃ es, v = .dict (strEntries es) ∧ PlainKeys es ∧ ∀ e ∈ es, Faithful J K arg e.2
  | _, v => Raw v

/-- The members before the one that gives the value back refuse what json has read. -/
def FaithfulUnion (J : PyJson) (K : Classes) : List Hint → Val → Prop
  | [], _ => False
  | arg :: args, v =>
    Faithful J K arg v ∨
      (∃ j, readBack J v = some j ∧ Verdict K arg j false) ∧ FaithfulUnion J K args v

def FaithfulFields (J : PyJson) (K : Classes) : List (PyStr × Hint) → List (PyStr × Val) → Prop
  | [], [] => True
  | (k, arg) :: fields, (k', v) :: vs => k' = k ∧ Faithful J K arg v ∧ FaithfulFields J K fields vs
  | _, _ => False

end

/-- Read back, the value is coerced to itself. -/
def Reads (J : PyJson) (K : Classes) (t : Hint) (v : Val) : Prop :=
  ∃ j, readBack J v = some j ∧ coerceFromAnnotation K t j = .ok v

/-- `Faithful` says when that is so. -/
def Decided (J : PyJson) (K : Classes) (t : Hint) : Prop :=
  ∀ v : Val, v.WF → (Reads J K t v ↔ Faithful J K t v)

theorem reads_none {t : Hint} (h : ∀ args, t ≠ .union args) : Reads J K t .none :=
  ⟨.none, rfl, coerce_null h⟩

theorem decided_plain {t : Hint} (h : t.IsPlain) : Decided J K t := by
  intro v hv
  have hreads : Reads J K t v ↔ readBack J v = some v := by
    unfold Reads
    simp only [coerce_plain h]
    constructor
    · rintro ⟨j, hj, heq⟩
      cases heq
      exact hj
    · exact fun h => ⟨v, h, rfl⟩
  have hfaithful : Faithful J K t v ↔ Raw v := by
    cases t with
    | none | bool | int | float | str | bytes => exact Iff.rfl
    | tuple args =>
      cases args with
      | nil => exact Iff.rfl
      | cons arg args => exact h.elim
    | complex | list | dict | union | struct | convertible => exact h.elim
  rw [hreads, hfaithful, readBack_self_iff hv]

theorem complexOf_eq_ok {p x : Val} (h : complexOf p = .ok x) : ∃ re im, x = .complex re im := by
  unfold complexOf at h
  split at h
  · obtain ⟨re, -, h⟩ := except_bind_eq_ok.1 h
    obtain ⟨im, -, h⟩ := except_bind_eq_ok.1 h
    cases h
    exact ⟨re, im, rfl⟩
  · cases h
    exact ⟨_, _, rfl⟩
  · cases h

theorem decided_complex : Decided J K .complex := by
  intro v _
  constructor
  · rintro ⟨j, hj, hc⟩
    by_cases hnone : j = .none
    · subst hnone
      exact .inl (Except.ok.inj hc).symm
    · rw [coerce_complex hnone] at hc
      exact .inr (complexOf_eq_ok hc)
  · rintro (rfl | ⟨re, im, rfl⟩)
    · exact reads_none nofun
    · exact ⟨_, rfl, rfl⟩

theorem decided_convertible (cls : String) : Decided J K (.convertible cls) := by
  intro v _
  constructor
  · rintro ⟨j, hj, hc⟩
    by_cases hnone : j = .none
    · subst hnone
      exact .inl (Except.ok.inj hc).symm
    · rw [coerce_convertible hnone] at hc
      exact .inr ⟨j, hnone, hj, hc⟩
  · rintro (rfl | ⟨j, hnone, hj, hc⟩)
    · exact reads_none nofun
    · exact ⟨j, hj, (coerce_convertible hnone).trans hc⟩

/-- Two lists that correspond both ways. -/
theorem exists_forall₂_iff {α β : Type} {R : α → β → Prop} {S : β → α → Prop} {l : List α} :
    (∃ l', List.Forall₂ R l l' ∧ List.Forall₂ S l' l) ↔ ∀ a ∈ l, ∃ b, R a b ∧ S b a := by
  induction l with
  | nil => exact iff_of_true ⟨[], .nil, .nil⟩ nofun
  | cons a l ih =>
    rw [List.forall_mem_cons, ← ih]
    constructor
    · rintro ⟨_, hr, hs⟩
      cases hr with
      | cons hr hrs =>
        cases hs with
        | cons hs hss => exact ⟨⟨_, hr, hs⟩, _, hrs, hss⟩
    · rintro ⟨⟨b, hr, hs⟩, l', hrs, hss⟩
      exact ⟨b :: l', .cons hr hrs, .cons hs hss⟩

theorem reads_items_iff {t arg : Hint} (ht : ItemsOf t arg) (v : Val) : Reads J K t v ↔
    v = .none ∨ ∃ items, v = .list items ∧ ∀ p ∈ items, Reads J K arg p := by
  have hunion : ∀ args, t ≠ .union args := by
    rintro args rfl
    cases ht
  constructor
  · rintro ⟨j, hj, hc⟩
    by_cases hnone : j = .none
    · subst hnone
      exact .inl (Except.ok.inj ((coerce_null hunion).symm.trans hc)).symm
    · rw [coerce_items ht hnone] at hc
      obtain ⟨js, hjs, hc⟩ := except_bind_eq_ok.1 hc
      obtain ⟨xs, hxs, hc⟩ := except_bind_eq_ok.1 hc
      cases hc
      obtain ⟨js', hback, rfl⟩ := readBack_list.1 hj
      cases hjs
      exact .inr ⟨xs, rfl, exists_forall₂_iff.1 ⟨js, hback, mapM_eq_ok_iff.1 hxs⟩⟩
  · rintro (rfl | ⟨items, rfl, h⟩)
    · exact reads_none hunion
    · obtain ⟨js, hback, hxs⟩ := exists_forall₂_iff.2 h
      refine ⟨.list js, readBack_list.2 ⟨js, hback, rfl⟩, ?_⟩
      have hne : Val.list js ≠ .none := nofun
      rw [coerce_items ht hne]
      exact except_bind_eq_ok.2 ⟨js, rfl, except_bind_eq_ok.2 ⟨items, mapM_eq_ok_iff.2 hxs, rfl⟩⟩

theorem reads_dict_iff {key arg : Hint} {v : Val} (hv : v.WF) : Reads J K (.dict key arg) v ↔
    v = .none ∨ ∃ es, v = .dict (strEntries es) ∧ PlainKeys es ∧ ∀ e ∈ es, Reads J K arg e.2 := by
  let f : Val × Val → Except Exc (Val × Val) := fun e =>
    coerceFromAnnotation K arg e.2 >>= fun x => pure (e.1, x)
  have hf : ∀ {e e' : Val × Val}, f e = .ok e' ↔
      e'.1 = e.1 ∧ coerceFromAnnotation K arg e.2 = .ok e'.2 := by
    intro e e'
    rw [except_bind_eq_ok]
    constructor
    · rintro ⟨x, hx, heq⟩
      cases heq
      exact ⟨rfl, hx⟩
    · rintro ⟨hk, hx⟩
      exact ⟨e'.2, hx, congrArg Except.ok (Prod.ext hk.symm rfl)⟩
  constructor
  · rintro ⟨j, hj, hc⟩
    by_cases hnone : j = .none
    · subst hnone
      exact .inl (Except.ok.inj hc).symm
    by_cases hd : ∃ E, j = .dict E
    · obtain ⟨E, rfl⟩ := hd
      obtain ⟨entries, hentries, heq⟩ := except_bind_eq_ok.1 hc
      cases heq
      have hforall := mapM_eq_ok_iff.1 hentries
      have hkeys : E.map Prod.fst = entries.map Prod.fst := by
        clear hentries hj hc hv hnone
        induction hforall with
        | nil => rfl
        | cons h _ ih => rw [List.map_cons, List.map_cons, ih, (hf.1 h).1]
      cases hv with
      | dict hn hv =>
        obtain ⟨es, es', rfl, hk, hes, rfl⟩ := (readBack_dict_iff hn).1 ⟨hj, hkeys⟩
        refine .inr ⟨es, rfl, hk, fun e he => ?_⟩
        have hback := readFields_eq_some_iff.1 hes
        rw [strEntries, strEntries, List.forall₂_map_left_iff, List.forall₂_map_right_iff] at hforall
        obtain ⟨e', ⟨-, hj⟩, hx⟩ := exists_forall₂_iff.1 ⟨es', hback, hforall⟩ e he
        exact ⟨e'.2, hj, (hf.1 hx).2⟩
    · rw [coerce_dict_other key arg hnone hd] at hc
      cases hc
  · rintro (rfl | ⟨es, rfl, hk, h⟩)
    · exact reads_none nofun
    · have hpairs : ∀ e ∈ es, ∃ e' : PyStr × Val,
          (e'.1 = joinPairs e.1 ∧ readBack J e.2 = some e'.2) ∧
            f (.str e'.1, e'.2) = .ok (.str e.1, e.2) := by
        intro e he
        obtain ⟨j, hj, hc⟩ := h e he
        have hkey := joinPairs_of_unpaired (hk.1 e he)
        exact ⟨(joinPairs e.1, j), ⟨rfl, hj⟩, hf.2 ⟨congrArg Val.str hkey.symm, hc⟩⟩
      obtain ⟨es', hback, hforall⟩ := exists_forall₂_iff.2 hpairs
      cases hv with
      | dict hn hv =>
        refine ⟨.dict (strEntries es'), ((readBack_dict_iff hn).2
          ⟨es, es', rfl, hk, readFields_eq_some_iff.2 hback, rfl⟩).1, ?_⟩
        have hmap : (strEntries es').mapM f = .ok (strEntries es) := by
          rw [mapM_eq_ok_iff, strEntries, strEntries, List.forall₂_map_left_iff,
            List.forall₂_map_right_iff]
          exact hforall
        rw [coerce_dict]
        exact except_bind_eq_ok.2 ⟨_, hmap, rfl⟩

/-! ### Structs -/

theorem getEntry_of_mem {es : List (PyStr × Val)} (hn : (es.map Prod.fst).Nodup) {e : PyStr × Val}
    (h : e ∈ es) : getEntry e.1 (strEntries es) = .ok e.2 := by
  induction es with
  | nil => cases h
  | cons e' es ih =>
    rw [List.map_cons, List.nodup_cons] at hn
    change (if e'.1 = e.1 then Except.ok e'.2 else getEntry e.1 (strEntries es)) = _
    rcases List.mem_cons.1 h with rfl | h
    · exact if_pos rfl
    · have hne : e'.1 ≠ e.1 := fun hk => hn.1 (hk ▸ List.mem_map_of_mem h)
      rw [if_neg hne]
      exact ih hn.2 h

theorem faithfulFields_iff {fields : List (PyStr × Hint)} {vs : List (PyStr × Val)} :
    FaithfulFields J K fields vs ↔
      List.Forall₂ (fun f e => e.1 = f.1 ∧ Faithful J K f.2 e.2) fields vs := by
  induction fields generalizing vs with
  | nil =>
    cases vs with
    | nil => exact iff_of_true trivial .nil
    | cons e vs => exact iff_of_false id nofun
  | cons f fields ih =>
    cases vs with
    | nil => exact iff_of_false id nofun
    | cons e vs => rw [List.forall₂_cons, ← ih, FaithfulFields, and_assoc]

theorem makeStruct_full {cls : String} {names : List PyStr} {xs : List Val}
    (h : xs.length = names.length) : makeStruct K cls names xs = .ok (.struct cls (names.zip xs)) := by
  unfold makeStruct
  rw [if_neg (by omega), List.drop_of_length_le (by omega)]
  change Except.ok (Val.struct cls (names.zip (xs ++ []))) = _
  rw [List.append_nil]

section Fields

variable {E : List (Val × Val)}

/-- What a struct that is read back makes of the entries of a dict. -/
def readField (K : Classes) (E : List (Val × Val)) (f : PyStr × Hint) : Except Exc Val :=
  getEntry f.1 E >>= coerceFromAnnotation K f.2

theorem fields_of_read {fields : List (PyStr × Hint)} {xs : List Val} {es : List (PyStr × Val)}
    (hx : List.Forall₂ (fun f x => readField K E f = .ok x) fields xs)
    (hback : List.Forall₂ (fun p e => e.1 = joinPairs p.1 ∧ readBack J p.2 = some e.2)
      ((fields.map Prod.fst).zip xs) es)
    (hkeys : es.map Prod.fst = fields.map Prod.fst)
    (hE : ∀ e ∈ es, getEntry e.1 E = .ok e.2) :
    List.Forall₂ (fun f e => e.1 = f.1 ∧ Reads J K f.2 e.2) fields ((fields.map Prod.fst).zip xs) := by
  induction hx generalizing es with
  | nil => exact .nil
  | @cons f x fields xs hx _ ih =>
    rw [List.map_cons, List.zip_cons_cons] at hback ⊢
    cases hback with
    | @cons _ e _ es he hes =>
      obtain ⟨hkey, hkeys⟩ := List.cons.inj hkeys
      obtain ⟨hget, hE⟩ := List.forall_mem_cons.1 hE
      refine .cons ⟨rfl, e.2, he.2, ?_⟩ (ih hes hkeys hE)
      obtain ⟨j, hj, hc⟩ := except_bind_eq_ok.1 hx
      rw [← hkey, hget] at hj
      cases hj
      exact hc

theorem read_of_fields {fields : List (PyStr × Hint)} {vs es : List (PyStr × Val)}
    (h : List.Forall₂ (fun f e => e.1 = f.1 ∧ Reads J K f.2 e.2) fields vs)
    (hback : List.Forall₂ (fun p e => e.1 = joinPairs p.1 ∧ readBack J p.2 = some e.2) vs es)
    (hkeys : es.map Prod.fst = vs.map Prod.fst) (hE : ∀ e ∈ es, getEntry e.1 E = .ok e.2) :
    List.Forall₂ (fun f x => readField K E f = .ok x) fields (vs.map Prod.snd) := by
  induction h generalizing es with
  | nil => exact .nil
  | @cons f v fields vs hv _ ih =>
    cases hback with
    | @cons _ e _ es he hes =>
      obtain ⟨hkey, hkeys⟩ := List.cons.inj hkeys
      obtain ⟨hget, hE⟩ := List.forall_mem_cons.1 hE
      refine .cons ?_ (ih hes hkeys hE)
      obtain ⟨hf, j, hj, hc⟩ := hv
      cases hj.symm.trans he.2
      refine except_bind_eq_ok.2 ⟨e.2, ?_, hc⟩
      rw [← hf, ← hkey, hget]

end Fields

theorem exists_readFields {fields : List (PyStr × Hint)} {vs : List (PyStr × Val)}
    (h : List.Forall₂ (fun f e => e.1 = f.1 ∧ Reads J K f.2 e.2) fields vs) :
    ∃ es : List (PyStr × Val),
      List.Forall₂ (fun p e => e.1 = joinPairs p.1 ∧ readBack J p.2 = some e.2) vs es := by
  induction h with
  | nil => exact ⟨[], .nil⟩
  | @cons f v _ _ hv _ ih =>
    obtain ⟨es, hes⟩ := ih
    obtain ⟨-, j, hj, -⟩ := hv
    exact ⟨(joinPairs v.1, j) :: es, .cons ⟨rfl, hj⟩ hes⟩

theorem reads_struct_iff {cls : String} {fields : List (PyStr × Hint)} {v : Val} (hv : v.WF) :
    Reads J K (.struct cls fields) v ↔ v = .none ∨ ∃ vs, v = .struct cls vs ∧
      List.Forall₂ (fun f e => e.1 = f.1 ∧ Reads J K f.2 e.2) fields vs := by
  have hstruct : ∀ {names : List PyStr} {xs : List Val} {x : Val},
      makeStruct K cls names xs = .ok x → ∃ vs, x = .struct cls vs := by
    intro names xs x h
    unfold makeStruct at h
    split at h
    · cases h
    · split at h
      · cases h
        exact ⟨_, rfl⟩
      · cases h
  constructor
  · rintro ⟨j, hj, hc⟩
    by_cases hnone : j = .none
    · subst hnone
      exact .inl (Except.ok.inj hc).symm
    have hmade : ∃ vs, v = .struct cls vs := by
      cases hs : sequenceItems j with
      | some items =>
        rw [coerce_struct_items hs] at hc
        obtain ⟨xs, -, hc⟩ := except_bind_eq_ok.1 hc
        exact hstruct hc
      | none =>
        cases j with
        | dict E =>
          rw [coerce_struct_entries] at hc
          obtain ⟨xs, -, hc⟩ := except_bind_eq_ok.1 hc
          exact hstruct hc
        | none => exact absurd rfl hnone
        | list | str | bytes => cases hs
        | bool | int | float | complex | tuple | struct | inst => cases hc
    obtain ⟨vs, rfl⟩ := hmade
    cases hv with
    | struct hn hf hv =>
      obtain ⟨es, hes, rfl⟩ := (readBack_struct hn hf).1 hj
      rw [coerce_struct_entries] at hc
      obtain ⟨xs, hxs, hc⟩ := except_bind_eq_ok.1 hc
      have hforall := mapM_eq_ok_iff.1 hxs
      rw [makeStruct_full (by rw [List.length_map, hforall.length_eq])] at hc
      cases hc
      have hback := readFields_eq_some_iff.1 hes
      have hkeys := fst_readFields (fun e he => (hf e he).1) hback
      have hlen : (fields.map Prod.fst).length ≤ xs.length := by
        rw [List.length_map, hforall.length_eq]
      refine .inr ⟨_, rfl, fields_of_read hforall hback ?_ fun e he => ?_⟩
      · rw [hkeys, List.map_fst_zip hlen]
      · exact getEntry_of_mem (hkeys ▸ hn) he
  · rintro (rfl | ⟨vs, rfl, h⟩)
    · exact reads_none nofun
    · cases hv with
      | struct hn hf hv =>
        obtain ⟨es, hback⟩ := exists_readFields h
        have hkeys := fst_readFields (fun e he => (hf e he).1) hback
        refine ⟨_, (readBack_struct hn hf).2 ⟨es, readFields_eq_some_iff.2 hback, rfl⟩, ?_⟩
        have hxs := read_of_fields h hback hkeys fun e he => getEntry_of_mem (hkeys ▸ hn) he
        rw [coerce_struct_entries]
        refine except_bind_eq_ok.2 ⟨_, mapM_eq_ok_iff.2 hxs, ?_⟩
        have hnames : fields.map Prod.fst = vs.map Prod.fst := by
          clear hxs hback hkeys hn hf hv
          induction h with
          | nil => rfl
          | cons h _ ih => rw [List.map_cons, List.map_cons, ih, h.1]
        have hlen : (vs.map Prod.snd).length = (fields.map Prod.fst).length := by
          rw [hnames, List.length_map, List.length_map]
        rw [makeStruct_full hlen, hnames]
        exact congrArg (fun vs => Except.ok (Val.struct cls vs)) (List.zip_of_prod rfl rfl).symm

/-! ### All annotations -/

theorem decided_items {t arg : Hint} (ht : ItemsOf t arg) (ih : Decided J K arg)
    (hf : ∀ v, Faithful J K t v ↔
      v = .none ∨ ∃ items, v = .list items ∧ ∀ p ∈ items, Faithful J K arg p) : Decided J K t := by
  intro v hv
  rw [reads_items_iff ht, hf]
  refine or_congr_right (exists_congr fun items => and_congr_right ?_)
  rintro rfl
  cases hv with
  | list hv => exact forall₂_congr fun p hp => ih p (hv p hp)

theorem decided_dict {key arg : Hint} (ih : Decided J K arg) : Decided J K (.dict key arg) := by
  intro v hv
  rw [reads_dict_iff hv, Faithful]
  refine or_congr_right (exists_congr fun es => and_congr_right ?_)
  rintro rfl
  cases hv with
  | dict hn hv =>
    have hmem : ∀ e ∈ es, ((Val.str e.1, e.2) : Val × Val) ∈ strEntries es := fun e he =>
      List.mem_map_of_mem he
    exact and_congr_right fun _ => forall₂_congr fun e he => ih e.2 (hv _ (hmem e he))

theorem decided_struct {cls : String} {fields : List (PyStr × Hint)}
    (ih : ∀ e ∈ fields, Decided J K e.2) : Decided J K (.struct cls fields) := by
  intro v hv
  rw [reads_struct_iff hv, Faithful]
  refine or_congr_right (exists_congr fun vs => and_congr_right ?_)
  rintro rfl
  rw [faithfulFields_iff]
  cases hv with
  | struct hn hf hv =>
    clear hn hf
    induction fields generalizing vs with
    | nil =>
      cases vs with
      | nil => exact iff_of_true .nil .nil
      | cons e vs => exact iff_of_false nofun nofun
    | cons f fields ihl =>
      cases vs with
      | nil => exact iff_of_false nofun nofun
      | cons e vs =>
        obtain ⟨he, hv⟩ := List.forall_mem_cons.1 hv
        rw [List.forall₂_cons, List.forall₂_cons, ih f (.head _) e.2 he]
        exact and_congr_right fun _ => ihl (fun g hg => ih g (.tail _ hg)) vs hv

theorem decided_union {args : List Hint} (ih : ∀ arg ∈ args, Decided J K arg) :
    Decided J K (.union args) := by
  intro v hv
  have hunion : (∃ j, readBack J v = some j ∧ coerceUnion K args j = .ok v) ↔
      FaithfulUnion J K args v := by
    induction args with
    | nil => exact iff_of_false (fun ⟨j, _, h⟩ => nomatch h) id
    | cons arg args ihl =>
      rw [FaithfulUnion, ← ihl fun t ht => ih t (.tail _ ht), ← ih arg (.head _) v hv, Reads]
      constructor
      · rintro ⟨j, hj, hc⟩
        rw [coerceUnion] at hc
        split at hc
        · rename_i hrefused
          exact .inr ⟨⟨j, hj, (decides arg j).2.1 hrefused⟩, j, hj, hc⟩
        · exact .inl ⟨j, hj, hc⟩
      · rintro (⟨j, hj, hc⟩ | ⟨⟨j, hj, hrefused⟩, j', hj', hc⟩)
        · refine ⟨j, hj, ?_⟩
          rw [coerceUnion, hc]
        · cases hj.symm.trans hj'
          refine ⟨j, hj, ?_⟩
          rw [coerceUnion, (decides arg j).2.2 hrefused]
          exact hc
  rw [Faithful, ← hunion, Reads]
  simp only [coerce_union]

/-- The annotation gives a value back exactly when the value is faithful to it. -/
theorem reads_iff (t : Hint) : Decided J K t := by
  induction t using Hint.induct with
  | none | bool | int | float | str | bytes => exact decided_plain trivial
  | complex => exact decided_complex
  | list arg ih => exact decided_items (.list arg) ih fun _ => Iff.rfl
  | dict key arg ih => exact decided_dict ih
  | tuple args ih =>
    cases args with
    | nil => exact decided_plain trivial
    | cons arg args => exact decided_items (.tuple arg args) (ih arg (.head _)) fun _ => Iff.rfl
  | union args ih => exact decided_union ih
  | struct cls fields ih => exact decided_struct ih
  | convertible cls => exact decided_convertible cls

end Tierkreis.Annotated
