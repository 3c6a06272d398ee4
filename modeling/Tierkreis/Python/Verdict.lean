import Tierkreis.Lib.StateExcept
import Tierkreis.Python.AnnotatedRoundTrip

/-!
# Which annotations take a value

A union tries its members in turn, and goes on to the next only where a class refuses
its part of the value before anything else goes wrong.
-/

namespace Tierkreis.Annotated

open Lib Lib.StateExcept

variable {K : Classes}

/-- Annotations whose values are left as they are. -/
def Hint.IsPlain : Hint → Prop
  | .none | .bool | .int | .float | .str | .bytes | .tuple [] => True
  | _ => False

/-- Annotations of lists, by the annotation of their items. -/
inductive ItemsOf : Hint → Hint → Prop
  | list (arg : Hint) : ItemsOf (.list arg) arg
  | tuple (arg : Hint) (args : List Hint) : ItemsOf (.tuple (arg :: args)) arg

/-- A named tuple can be made of values for its first `n` fields. -/
def Completes (K : Classes) (cls : String) (names : List PyStr) (n : Nat) : Prop :=
  n ≤ names.length ∧ ∀ k ∈ names.drop n, ((K.defaults cls).lookup k).isSome

/-- Whether what `json` has read is taken for the annotation. It is `false` where the first class
that does not take its part refuses it. -/
inductive Verdict (K : Classes) : Hint → Val → Bool → Prop
  | null {t : Hint} (h : ∀ args, t ≠ .union args) : Verdict K t .none true
  | plain {t : Hint} (p : Val) (h : t.IsPlain) : Verdict K t p true
  | complex {p x : Val} (h : complexOf p = .ok x) : Verdict K .complex p true
  | convertible {cls : String} {p x : Val} (hp : p ≠ .none) (h : K.fromVal cls p = .ok x) :
      Verdict K (.convertible cls) p true
  | refused {cls : String} {p : Val} (hp : p ≠ .none) (h : K.fromVal cls p = .error .refused) :
      Verdict K (.convertible cls) p false
  | items {t arg : Hint} {p : Val} {items : List Val} (ht : ItemsOf t arg) (hp : iterate p = .ok items)
      (h : ∀ x ∈ items, Verdict K arg x true) : Verdict K t p true
  | itemRefused {t arg : Hint} {p : Val} {before after : List Val} {x : Val} (ht : ItemsOf t arg)
      (hp : iterate p = .ok (before ++ x :: after)) (hb : ∀ y ∈ before, Verdict K arg y true)
      (h : Verdict K arg x false) : Verdict K t p false
  | dict {key arg : Hint} {entries : List (Val × Val)} (h : ∀ e ∈ entries, Verdict K arg e.2 true) :
      Verdict K (.dict key arg) (.dict entries) true
  | entryRefused {key arg : Hint} {before after : List (Val × Val)} {e : Val × Val}
      (hb : ∀ e ∈ before, Verdict K arg e.2 true) (h : Verdict K arg e.2 false) :
      Verdict K (.dict key arg) (.dict (before ++ e :: after)) false
  | structItems {cls : String} {fields : List (PyStr × Hint)} {p : Val} {items : List Val}
      (hp : sequenceItems p = some items) (h : ∀ e ∈ fields.zip items, Verdict K e.1.2 e.2 true)
      (hd : Completes K cls (fields.map Prod.fst) (fields.zip items).length) :
      Verdict K (.struct cls fields) p true
  | structItemRefused {cls : String} {fields : List (PyStr × Hint)} {p : Val} {items : List Val}
      {before after : List ((PyStr × Hint) × Val)} {e : (PyStr × Hint) × Val}
      (hp : sequenceItems p = some items) (hz : fields.zip items = before ++ e :: after)
      (hb : ∀ e ∈ before, Verdict K e.1.2 e.2 true) (h : Verdict K e.1.2 e.2 false) :
      Verdict K (.struct cls fields) p false
  | structEntries {cls : String} {fields : List (PyStr × Hint)} {entries : List (Val × Val)}
      (he : ∀ e ∈ fields, ∃ x, getEntry e.1 entries = .ok x)
      (h : ∀ e ∈ fields, ∀ x, getEntry e.1 entries = .ok x → Verdict K e.2 x true) :
      Verdict K (.struct cls fields) (.dict entries) true
  | structEntryRefused {cls : String} {before after : List (PyStr × Hint)} {e : PyStr × Hint}
      {entries : List (Val × Val)} {x : Val} (he : ∀ e ∈ before, ∃ x, getEntry e.1 entries = .ok x)
      (hb : ∀ e ∈ before, ∀ x, getEntry e.1 entries = .ok x → Verdict K e.2 x true)
      (hx : getEntry e.1 entries = .ok x) (h : Verdict K e.2 x false) :
      Verdict K (.struct cls (before ++ e :: after)) (.dict entries) false
  | union {before after : List Hint} {arg : Hint} {p : Val} (hb : ∀ t ∈ before, Verdict K t p false)
      (h : Verdict K arg p true) : Verdict K (.union (before ++ arg :: after)) p true

/-! ## The decoder by its loops -/

theorem coerceZip_eq (fields : List (PyStr × Hint)) (items : List Val) :
    coerceZip K fields items = (fields.zip items).mapM fun e => coerceFromAnnotation K e.1.2 e.2 := by
  induction fields generalizing items with
  | nil =>
    cases items <;> rfl
  | cons f fields ih =>
    cases items with
    | nil => rfl
    | cons p items => rw [coerceZip, List.zip_cons_cons, List.mapM_cons, ih]

theorem coerceFields_eq (fields : List (PyStr × Hint)) (entries : List (Val × Val)) :
    coerceFields K fields entries =
      fields.mapM fun e => getEntry e.1 entries >>= coerceFromAnnotation K e.2 := by
  induction fields with
  | nil => rfl
  | cons f fields ih =>
    rw [coerceFields, List.mapM_cons, ih]
    cases getEntry f.1 entries <;> rfl

theorem coerce_null {t : Hint} (h : ∀ args, t ≠ .union args) :
    coerceFromAnnotation K t .none = .ok .none := by
  cases t with
  | union args => exact absurd rfl (h args)
  | tuple args => cases args <;> rfl
  | _ => rfl

theorem coerce_plain {t : Hint} (h : t.IsPlain) (p : Val) : coerceFromAnnotation K t p = .ok p := by
  cases t with
  | none | bool | int | float | str | bytes => cases p <;> rfl
  | tuple args =>
    cases args with
    | nil => cases p <;> rfl
    | cons arg args => exact h.elim
  | complex | list | dict | union | struct | convertible => exact h.elim

theorem coerce_complex {p : Val} (hp : p ≠ .none) : coerceFromAnnotation K .complex p = complexOf p := by
  cases p <;> first | rfl | exact absurd rfl hp

theorem coerce_convertible {cls : String} {p : Val} (hp : p ≠ .none) :
    coerceFromAnnotation K (.convertible cls) p = K.fromVal cls p := by
  cases p <;> first | rfl | exact absurd rfl hp

theorem coerce_items {t arg : Hint} (ht : ItemsOf t arg) {p : Val} (hp : p ≠ .none) :
    coerceFromAnnotation K t p = (iterate p >>= fun items =>
      (items.mapM <| coerceFromAnnotation K arg) >>= fun xs => pure (.list xs)) := by
  cases ht <;> cases p <;> first | rfl | exact absurd rfl hp

theorem coerce_dict (key arg : Hint) (entries : List (Val × Val)) :
    coerceFromAnnotation K (.dict key arg) (.dict entries) =
      (entries.mapM fun e => coerceFromAnnotation K arg e.2 >>= fun x => pure (e.1, x)) >>=
        fun es => pure (.dict es) := rfl

theorem coerce_dict_other (key arg : Hint) {p : Val} (hp : p ≠ .none)
    (hd : ¬ ∃ entries, p = .dict entries) :
    coerceFromAnnotation K (.dict key arg) p = .error .other := by
  cases p <;> first | rfl | exact absurd rfl hp | exact absurd ⟨_, rfl⟩ hd

theorem coerce_struct_items {cls : String} {fields : List (PyStr × Hint)} {p : Val} {items : List Val}
    (hp : sequenceItems p = some items) :
    coerceFromAnnotation K (.struct cls fields) p =
      ((fields.zip items).mapM fun e => coerceFromAnnotation K e.1.2 e.2) >>=
        makeStruct K cls (fields.map Prod.fst) := by
  rw [← coerceZip_eq]
  cases p with
  | list | str | bytes =>
    cases hp
    rfl
  | none | bool | int | float | complex | tuple | dict | struct | inst => cases hp

theorem coerce_struct_entries {cls : String} {fields : List (PyStr × Hint)}
    {entries : List (Val × Val)} :
    coerceFromAnnotation K (.struct cls fields) (.dict entries) =
      (fields.mapM fun e => getEntry e.1 entries >>= coerceFromAnnotation K e.2) >>=
        makeStruct K cls (fields.map Prod.fst) := by
  rw [← coerceFields_eq]
  rfl

theorem coerce_union (args : List Hint) (p : Val) :
    coerceFromAnnotation K (.union args) p = coerceUnion K args p := by
  cases p <;> rfl

/-! ## What is neither taken nor refused -/

theorem pure_ne_refused {α : Type} (a : α) : (pure a : Except Exc α) ≠ .error .refused := nofun

theorem realOf_ne_refused (p : Val) : realOf p ≠ .error .refused := by
  unfold realOf
  split
  · exact nofun
  · split <;> exact nofun
  · exact nofun
  · exact nofun

theorem complexOf_ne_refused (p : Val) : complexOf p ≠ .error .refused := by
  unfold complexOf
  split
  · rename_i re im _
    intro h
    cases hre : realOf re with
    | error e =>
      rw [hre] at h
      cases h
      exact realOf_ne_refused re hre
    | ok x =>
      cases him : realOf im with
      | error e =>
        rw [hre, him] at h
        cases h
        exact realOf_ne_refused im him
      | ok y =>
        rw [hre, him] at h
        cases h
  · exact nofun
  · exact nofun

theorem iterate_ne_refused (p : Val) : iterate p ≠ .error .refused := by
  unfold iterate
  split
  · exact nofun
  · split <;> exact nofun

theorem makeStruct_ne_refused (cls : String) (names : List PyStr) (xs : List Val) :
    makeStruct K cls names xs ≠ .error .refused := by
  unfold makeStruct
  split
  · exact nofun
  · split <;> exact nofun

theorem getEntry_ne_refused (k : PyStr) (entries : List (Val × Val)) :
    getEntry k entries ≠ .error .refused := by
  fun_induction getEntry k entries with
  | case1 => exact nofun
  | case2 => exact nofun
  | case3 _ _ _ _ ih => exact ih
  | case4 _ _ _ ih => exact ih

theorem exists_makeStruct_iff {cls : String} {names : List PyStr} {xs : List Val} :
    (∃ x, makeStruct K cls names xs = .ok x) ↔ Completes K cls names xs.length := by
  have hmap : ∀ l : List PyStr, (∃ rest, (l.mapM fun k => (K.defaults cls).lookup k) = some rest) ↔
      ∀ k ∈ l, ((K.defaults cls).lookup k).isSome := by
    intro l
    induction l with
    | nil => exact iff_of_true ⟨[], rfl⟩ nofun
    | cons k l ih =>
      rw [List.forall_mem_cons, ← ih, List.mapM_cons]
      cases hk : (K.defaults cls).lookup k with
      | none =>
        refine iff_of_false ?_ fun h => absurd h.1 (by simp)
        rintro ⟨rest, h⟩
        cases h
      | some v =>
        constructor
        · rintro ⟨vs, h⟩
          obtain ⟨_, -, h⟩ := Option.bind_eq_some_iff.1 h
          obtain ⟨rest, hrest, -⟩ := Option.bind_eq_some_iff.1 h
          exact ⟨rfl, rest, hrest⟩
        · rintro ⟨-, rest, hrest⟩
          refine ⟨v :: rest, Option.bind_eq_some_iff.2 ⟨v, rfl, ?_⟩⟩
          exact Option.bind_eq_some_iff.2 ⟨rest, hrest, rfl⟩
  unfold makeStruct Completes
  rw [← hmap]
  by_cases hlen : names.length < xs.length
  · rw [if_pos hlen]
    refine iff_of_false (fun ⟨x, h⟩ => nomatch h) fun h => ?_
    omega
  · rw [if_neg hlen]
    cases (names.drop xs.length).mapM fun k => (K.defaults cls).lookup k with
    | none => exact iff_of_false (fun ⟨x, h⟩ => nomatch h) fun ⟨_, _, h⟩ => nomatch h
    | some rest => exact iff_of_true ⟨_, rfl⟩ ⟨Nat.le_of_not_lt hlen, rest, rfl⟩

theorem not_refused_plain {t : Hint} {p : Val} (h : t.IsPlain) : ¬ Verdict K t p false := by
  intro hv
  cases hv with
  | refused => exact h.elim
  | itemRefused ht => cases ht <;> exact h.elim
  | entryRefused => exact h.elim
  | structItemRefused => exact h.elim
  | structEntryRefused => exact h.elim

theorem not_refused_null {t : Hint} : ¬ Verdict K t .none false := by
  intro hv
  cases hv with
  | refused hp => exact hp rfl
  | itemRefused _ hp => cases hp
  | structItemRefused hp => cases hp

/-! ## The verdict of the decoder -/

section MapM

variable {α β : Type} {f : α → Except Exc β} {A R : α → Prop} {l : List α}

theorem exists_mapM_verdict (ha : ∀ a ∈ l, (∃ b, f a = .ok b) ↔ A a) :
    (∃ bs, l.mapM f = .ok bs) ↔ ∀ a ∈ l, A a :=
  exists_mapM_iff.trans (forall₂_congr ha)

theorem mapM_refused_iff (ha : ∀ a ∈ l, (∃ b, f a = .ok b) ↔ A a)
    (hr : ∀ a ∈ l, f a = .error .refused ↔ R a) : l.mapM f = .error .refused ↔
      ∃ before a after, l = before ++ a :: after ∧ (∀ b ∈ before, A b) ∧ R a := by
  rw [mapM_eq_error_iff]
  refine exists_congr fun before => exists_congr fun a => exists_congr fun after =>
    and_congr_right fun hl => ?_
  subst hl
  refine and_congr (forall₂_congr fun b hb => ha b (List.mem_append_left _ hb)) ?_
  exact hr a (List.mem_append_right _ (.head _))

theorem exists_bind_iff {x : Except Exc α} {g : α → Except Exc β} :
    (∃ b, x >>= g = .ok b) ↔ ∃ a, x = .ok a ∧ ∃ b, g a = .ok b := by
  simp only [except_bind_eq_ok]
  exact ⟨fun ⟨b, a, ha, hb⟩ => ⟨a, ha, b, hb⟩, fun ⟨a, ha, b, hb⟩ => ⟨b, a, ha, hb⟩⟩

/-- What is done with a result does not refuse. -/
theorem bind_refused_iff {x : Except Exc α} {g : α → Except Exc β}
    (hg : ∀ a, g a ≠ .error .refused) : x >>= g = .error .refused ↔ x = .error .refused := by
  cases x with
  | error e =>
    exact ⟨fun h => congrArg Except.error (Except.error.inj h),
      fun h => congrArg Except.error (Except.error.inj h)⟩
  | ok a => exact iff_of_false (hg a) nofun

/-- A loop of which the results are packed. -/
theorem exists_pack_iff (pack : List β → Val) (ha : ∀ a ∈ l, (∃ b, f a = .ok b) ↔ A a) :
    (∃ x, l.mapM f >>= (fun bs => pure (pack bs)) = .ok x) ↔ ∀ a ∈ l, A a := by
  rw [exists_bind_iff, ← exists_mapM_verdict ha]
  exact exists_congr fun bs => and_iff_left ⟨_, rfl⟩

theorem pack_refused_iff (pack : List β → Val) (ha : ∀ a ∈ l, (∃ b, f a = .ok b) ↔ A a)
    (hr : ∀ a ∈ l, f a = .error .refused ↔ R a) :
    l.mapM f >>= (fun bs => pure (pack bs)) = .error .refused ↔
      ∃ before a after, l = before ++ a :: after ∧ (∀ b ∈ before, A b) ∧ R a := by
  rw [bind_refused_iff fun _ => pure_ne_refused _, mapM_refused_iff ha hr]

/-- A loop of which the results make up a struct. -/
theorem exists_struct_iff {f : α → Except Exc Val} {cls : String} {names : List PyStr}
    (ha : ∀ a ∈ l, (∃ b, f a = .ok b) ↔ A a) :
    (∃ x, l.mapM f >>= makeStruct K cls names = .ok x) ↔
      (∀ a ∈ l, A a) ∧ Completes K cls names l.length := by
  rw [exists_bind_iff, ← exists_mapM_verdict ha]
  constructor
  · rintro ⟨xs, hxs, hx⟩
    rw [exists_makeStruct_iff, ← (mapM_eq_ok_iff.1 hxs).length_eq] at hx
    exact ⟨⟨xs, hxs⟩, hx⟩
  · rintro ⟨⟨xs, hxs⟩, hx⟩
    rw [(mapM_eq_ok_iff.1 hxs).length_eq] at hx
    exact ⟨xs, hxs, exists_makeStruct_iff.2 hx⟩

theorem struct_refused_iff {f : α → Except Exc Val} {cls : String} {names : List PyStr}
    (ha : ∀ a ∈ l, (∃ b, f a = .ok b) ↔ A a) (hr : ∀ a ∈ l, f a = .error .refused ↔ R a) :
    l.mapM f >>= makeStruct K cls names = .error .refused ↔
      ∃ before a after, l = before ++ a :: after ∧ (∀ b ∈ before, A b) ∧ R a := by
  rw [bind_refused_iff fun xs => makeStruct_ne_refused cls names xs, mapM_refused_iff ha hr]

end MapM

def Refuses (K : Classes) (t : Hint) (p : Val) : Prop :=
  coerceFromAnnotation K t p = .error .refused

/-- `K` gives the verdict that the decoder acts on. -/
def Decides (K : Classes) (t : Hint) : Prop := ∀ p,
  ((∃ x, coerceFromAnnotation K t p = .ok x) ↔ Verdict K t p true) ∧
    (Refuses K t p ↔ Verdict K t p false)

theorem decides_null {t : Hint} (h : ∀ args, t ≠ .union args) :
    ((∃ x, coerceFromAnnotation K t .none = .ok x) ↔ Verdict K t .none true) ∧
      (Refuses K t .none ↔ Verdict K t .none false) := by
  rw [Refuses, coerce_null h]
  exact ⟨iff_of_true ⟨_, rfl⟩ (.null h), iff_of_false nofun not_refused_null⟩

theorem decides_plain {t : Hint} (h : t.IsPlain) : Decides K t := by
  intro p
  rw [Refuses, coerce_plain h]
  exact ⟨iff_of_true ⟨_, rfl⟩ (.plain p h), iff_of_false nofun (not_refused_plain h)⟩

theorem decides_complex : Decides K .complex := by
  intro p
  by_cases hp : p = .none
  · exact hp ▸ decides_null nofun
  rw [Refuses, coerce_complex hp]
  constructor
  · constructor
    · rintro ⟨x, h⟩
      exact .complex h
    · intro h
      cases h with
      | null => exact absurd rfl hp
      | plain _ h => exact h.elim
      | complex h => exact ⟨_, h⟩
      | items ht => cases ht
  · refine iff_of_false (complexOf_ne_refused p) fun h => ?_
    cases h with
    | itemRefused ht => cases ht

theorem decides_convertible (cls : String) : Decides K (.convertible cls) := by
  intro p
  by_cases hp : p = .none
  · exact hp ▸ decides_null nofun
  rw [Refuses, coerce_convertible hp]
  constructor
  · constructor
    · rintro ⟨x, h⟩
      exact .convertible hp h
    · intro h
      cases h with
      | null => exact absurd rfl hp
      | plain _ h => exact h.elim
      | convertible _ h => exact ⟨_, h⟩
      | items ht => cases ht
  · constructor
    · exact fun h => .refused hp h
    · intro h
      cases h with
      | refused _ h => exact h
      | itemRefused ht => cases ht

theorem ItemsOf.unique {t arg arg' : Hint} (h : ItemsOf t arg) (h' : ItemsOf t arg') : arg = arg' := by
  cases h <;> cases h' <;> rfl

theorem ItemsOf.not_plain {t arg : Hint} (h : ItemsOf t arg) : ¬ t.IsPlain := by
  cases h <;> exact id

theorem decides_items {t arg : Hint} (ht : ItemsOf t arg) (ih : Decides K arg) : Decides K t := by
  intro p
  by_cases hp : p = .none
  · refine hp ▸ decides_null fun args he => ?_
    subst he
    cases ht
  rw [Refuses, coerce_items ht hp]
  cases hi : iterate p with
  | error e =>
    have hne : e ≠ .refused := fun he => iterate_ne_refused p (he ▸ hi)
    refine ⟨iff_of_false (fun ⟨x, h⟩ => nomatch h) fun h => ?_,
      iff_of_false (fun h => hne (Except.error.inj h)) fun h => ?_⟩
    · cases h with
      | null => exact hp rfl
      | plain _ h => exact ht.not_plain h
      | items _ h => cases hi.symm.trans h
      | complex | convertible | dict | structItems | structEntries | union => cases ht
    · cases h with
      | itemRefused _ h => cases hi.symm.trans h
      | refused | entryRefused | structItemRefused | structEntryRefused => cases ht
  | ok items =>
    have hok := fun (x : Val) (_ : x ∈ items) => (ih x).1
    change ((∃ x, (items.mapM <| coerceFromAnnotation K arg) >>= (fun xs => pure (Val.list xs)) =
        .ok x) ↔ _) ∧
      ((items.mapM <| coerceFromAnnotation K arg) >>= (fun xs => pure (Val.list xs)) = _ ↔ _)
    rw [exists_pack_iff Val.list hok, pack_refused_iff Val.list hok fun x _ => (ih x).2]
    constructor
    · constructor
      · exact fun h => .items ht hi h
      · intro h
        cases h with
        | null => exact absurd rfl hp
        | plain _ h => exact (ht.not_plain h).elim
        | items ht' hi' h =>
          cases ht.unique ht'
          cases hi.symm.trans hi'
          exact h
        | complex | convertible | dict | structItems | structEntries | union => cases ht
    · constructor
      · rintro ⟨before, x, after, rfl, hbefore, hx⟩
        exact .itemRefused ht hi hbefore hx
      · intro h
        cases h with
        | itemRefused ht' hi' hbefore h =>
          cases ht.unique ht'
          cases hi.symm.trans hi'
          exact ⟨_, _, _, rfl, hbefore, h⟩
        | refused | entryRefused | structItemRefused | structEntryRefused => cases ht

theorem decides_dict {key arg : Hint} (ih : Decides K arg) : Decides K (.dict key arg) := by
  intro p
  by_cases hp : p = .none
  · exact hp ▸ decides_null nofun
  by_cases hd : ∃ entries, p = .dict entries
  · obtain ⟨entries, rfl⟩ := hd
    have hok : ∀ e ∈ entries, (∃ x, (do
        let x ← coerceFromAnnotation K arg e.2
        pure (e.1, x) : Except Exc (Val × Val)) = .ok x) ↔ Verdict K arg e.2 true := by
      intro e _
      rw [exists_bind_iff, ← (ih e.2).1]
      exact exists_congr fun x => and_iff_left ⟨_, rfl⟩
    have hrefused : ∀ e ∈ entries, (do
        let x ← coerceFromAnnotation K arg e.2
        pure (e.1, x) : Except Exc (Val × Val)) = .error .refused ↔ Verdict K arg e.2 false := by
      intro e _
      exact (bind_refused_iff fun _ => pure_ne_refused _).trans (ih e.2).2
    rw [Refuses, coerce_dict, exists_pack_iff Val.dict hok, pack_refused_iff Val.dict hok hrefused]
    constructor
    · constructor
      · exact fun h => .dict h
      · intro h
        cases h with
        | plain _ h => exact h.elim
        | dict h => exact h
        | items ht => cases ht
    · constructor
      · rintro ⟨before, e, after, rfl, hbefore, he⟩
        exact .entryRefused hbefore he
      · intro h
        cases h with
        | entryRefused hbefore h => exact ⟨_, _, _, rfl, hbefore, h⟩
        | itemRefused ht => cases ht
  · rw [Refuses, coerce_dict_other key arg hp hd]
    refine ⟨iff_of_false (fun ⟨x, h⟩ => nomatch h) fun h => ?_, iff_of_false nofun fun h => ?_⟩
    · cases h with
      | null => exact hp rfl
      | plain _ h => exact h
      | dict => exact hd ⟨_, rfl⟩
      | items ht => cases ht
    · cases h with
      | entryRefused => exact hd ⟨_, rfl⟩
      | itemRefused ht => cases ht

theorem decides_struct {cls : String} {fields : List (PyStr × Hint)}
    (ih : ∀ e ∈ fields, Decides K e.2) : Decides K (.struct cls fields) := by
  intro p
  by_cases hp : p = .none
  · exact hp ▸ decides_null nofun
  cases hs : sequenceItems p with
  | some items =>
    have hin : ∀ e ∈ fields.zip items, Decides K e.1.2 := fun e he => ih e.1 (List.of_mem_zip he).1
    have hok := fun (e : (PyStr × Hint) × Val) he => (hin e he e.2).1
    rw [Refuses, coerce_struct_items hs, exists_struct_iff hok,
      struct_refused_iff hok fun e he => (hin e he e.2).2]
    constructor
    · constructor
      · exact fun h => .structItems hs h.1 h.2
      · intro h
        cases h with
        | null => exact absurd rfl hp
        | plain _ h => exact h.elim
        | items ht => cases ht
        | structItems hs' h hd =>
          cases hs.symm.trans hs'
          exact ⟨h, hd⟩
        | structEntries => cases hs
    · constructor
      · rintro ⟨before, e, after, hz, hbefore, he⟩
        exact .structItemRefused hs hz hbefore he
      · intro h
        cases h with
        | itemRefused ht => cases ht
        | structItemRefused hs' hz hbefore h =>
          cases hs.symm.trans hs'
          exact ⟨_, _, _, hz, hbefore, h⟩
        | structEntryRefused => cases hs
  | none =>
    by_cases hd : ∃ entries, p = .dict entries
    · obtain ⟨entries, rfl⟩ := hd
      have hall : Completes K cls (fields.map Prod.fst) fields.length := by
        refine ⟨Nat.le_of_eq (List.length_map _).symm, fun k hk => ?_⟩
        rw [List.drop_of_length_le (Nat.le_of_eq (List.length_map _))] at hk
        cases hk
      have hok : ∀ e ∈ fields, (∃ x, getEntry e.1 entries >>= coerceFromAnnotation K e.2 = .ok x) ↔
          (∃ x, getEntry e.1 entries = .ok x) ∧
            ∀ x, getEntry e.1 entries = .ok x → Verdict K e.2 x true := by
        intro e he
        rw [exists_bind_iff]
        constructor
        · rintro ⟨x, hx, hy⟩
          refine ⟨⟨x, hx⟩, fun x' hx' => ?_⟩
          cases hx.symm.trans hx'
          exact (ih e he x).1.1 hy
        · rintro ⟨⟨x, hx⟩, h⟩
          exact ⟨x, hx, (ih e he x).1.2 (h x hx)⟩
      have hrefused : ∀ e ∈ fields,
          getEntry e.1 entries >>= coerceFromAnnotation K e.2 = .error .refused ↔
            ∃ x, getEntry e.1 entries = .ok x ∧ Verdict K e.2 x false := by
        intro e he
        cases hx : getEntry e.1 entries with
        | error r =>
          refine iff_of_false (fun h => ?_) fun ⟨x, h, _⟩ => nomatch h
          cases h
          exact getEntry_ne_refused _ _ hx
        | ok x =>
          refine (ih e he x).2.trans ⟨fun h => ⟨x, rfl, h⟩, ?_⟩
          rintro ⟨x', hx', h⟩
          cases hx'
          exact h
      rw [Refuses, coerce_struct_entries, exists_struct_iff hok, struct_refused_iff hok hrefused,
        and_iff_left hall]
      constructor
      · constructor
        · exact fun h => .structEntries (fun e he => (h e he).1) fun e he => (h e he).2
        · intro h
          cases h with
          | plain _ h => exact h.elim
          | items ht => cases ht
          | structItems hs' => cases hs'
          | structEntries he h => exact fun e hm => ⟨he e hm, h e hm⟩
      · constructor
        · rintro ⟨before, e, after, rfl, hbefore, x, hx, h⟩
          exact .structEntryRefused (fun e he => (hbefore e he).1) (fun e he => (hbefore e he).2) hx h
        · intro h
          cases h with
          | itemRefused ht => cases ht
          | structItemRefused hs' => cases hs'
          | structEntryRefused he hb hx h =>
            exact ⟨_, _, _, rfl, fun e hm => ⟨he e hm, hb e hm⟩, _, hx, h⟩
    · have hother : coerceFromAnnotation K (.struct cls fields) p = .error .other := by
        cases p <;> first | rfl | exact absurd ⟨_, rfl⟩ hd | exact absurd rfl hp | cases hs
      rw [Refuses, hother]
      refine ⟨iff_of_false (fun ⟨x, h⟩ => nomatch h) fun h => ?_, iff_of_false nofun fun h => ?_⟩
      · cases h with
        | null => exact hp rfl
        | plain _ h => exact h
        | items ht => cases ht
        | structItems hs' => cases hs.symm.trans hs'
        | structEntries => exact hd ⟨_, rfl⟩
      · cases h with
        | itemRefused ht => cases ht
        | structItemRefused hs' => cases hs.symm.trans hs'
        | structEntryRefused => exact hd ⟨_, rfl⟩

theorem decides_union {args : List Hint} (ih : ∀ arg ∈ args, Decides K arg) :
    Decides K (.union args) := by
  intro p
  have hunion : ((∃ x, coerceUnion K args p = .ok x) ↔ ∃ before arg after,
      args = before ++ arg :: after ∧ (∀ t ∈ before, Verdict K t p false) ∧ Verdict K arg p true) ∧
        coerceUnion K args p ≠ .error .refused := by
    induction args with
    | nil =>
      refine ⟨iff_of_false (fun ⟨x, h⟩ => nomatch h) ?_, nofun⟩
      rintro ⟨before, arg, after, h, -⟩
      exact absurd h (by simp)
    | cons arg args ihl =>
      obtain ⟨hiff, hne⟩ := ihl fun t ht => ih t (.tail _ ht)
      have harg := ih arg (.head _) p
      rw [coerceUnion]
      cases hc : coerceFromAnnotation K arg p with
      | ok x =>
        refine ⟨iff_of_true ⟨x, rfl⟩ ⟨[], arg, args, rfl, nofun, harg.1.1 ⟨x, hc⟩⟩, nofun⟩
      | error e =>
        have hnot : ¬ Verdict K arg p true := fun h => by
          obtain ⟨x, hx⟩ := harg.1.2 h
          cases hc.symm.trans hx
        cases e with
        | refused =>
          refine ⟨?_, hne⟩
          refine Iff.trans hiff ⟨?_, ?_⟩
          · rintro ⟨before, arg', after, rfl, hbefore, h⟩
            exact ⟨arg :: before, arg', after, rfl,
              List.forall_mem_cons.2 ⟨harg.2.1 hc, hbefore⟩, h⟩
          · rintro ⟨before, arg', after, heq, hbefore, h⟩
            cases before with
            | nil =>
              obtain ⟨rfl, -⟩ := List.cons.inj heq
              exact absurd h hnot
            | cons t before =>
              exact ⟨before, arg', after, (List.cons.inj heq).2,
                (List.forall_mem_cons.1 hbefore).2, h⟩
        | other =>
          refine ⟨iff_of_false (fun ⟨x, h⟩ => nomatch h) ?_, nofun⟩
          rintro ⟨before, arg', after, heq, hbefore, h⟩
          cases before with
          | nil =>
            obtain ⟨rfl, -⟩ := List.cons.inj heq
            exact hnot h
          | cons t before =>
            obtain ⟨rfl, -⟩ := List.cons.inj heq
            have hrefused := harg.2.2 ((List.forall_mem_cons.1 hbefore).1)
            cases hc.symm.trans hrefused
  rw [Refuses, coerce_union, hunion.1]
  constructor
  · constructor
    · rintro ⟨before, arg, after, rfl, hbefore, h⟩
      exact .union hbefore h
    · intro h
      cases h with
      | null h => exact absurd rfl (h args)
      | plain _ h => exact h.elim
      | items ht => cases ht
      | union hbefore h => exact ⟨_, _, _, rfl, hbefore, h⟩
  · refine iff_of_false hunion.2 fun h => ?_
    cases h with
    | itemRefused ht => cases ht

theorem decides (t : Hint) : Decides K t := by
  induction t using Hint.induct with
  | none | bool | int | float | str | bytes => exact decides_plain trivial
  | complex => exact decides_complex
  | list arg ih => exact decides_items (.list arg) ih
  | dict key arg ih => exact decides_dict ih
  | tuple args ih =>
    cases args with
    | nil => exact decides_plain trivial
    | cons arg args => exact decides_items (.tuple arg args) (ih arg (.head _))
  | union args ih => exact decides_union ih
  | struct cls fields ih => exact decides_struct ih
  | convertible cls => exact decides_convertible cls

end Tierkreis.Annotated
