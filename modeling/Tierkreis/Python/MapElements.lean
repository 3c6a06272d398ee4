import Tierkreis.Python.Types

/-!
# Map elements between the languages

A `Map` node unfolds the json list of a Python worker into elements and folds the
results of its elements into a json list. An element survives when the two
encodings of Python agree on it and `serde_json` holds it exactly.
-/

namespace Tierkreis

open Lib

/-! ## Values that survive -/

/-- The values of an annotation. An integer may stand for a float, and a truth value for an
integer. -/
inductive Fits : PType → Annotation → Prop
  | none (ann : Annotation) (h : ann ≠ .bytes) : Fits .none ann
  | bool (b : Bool) : Fits (.bool b) .bool
  | boolInt (b : Bool) : Fits (.bool b) .int
  | int (n : Int) : Fits (.int n) .int
  | intFloat (n : Int) : Fits (.int n) .float
  | float (x : Float) : Fits (.float x) .float
  | str {s : PyStr} (h : ∀ c ∈ s, c < 0x110000) : Fits (.str s) .str
  | bytes (b : Bytes) : Fits (.bytes b) .bytes
  | complex (re im : Float) : Fits (.complex re im) .complex
  | list {items : List PType} {arg : Annotation} (h : ∀ p ∈ items, Fits p arg) :
      Fits (.list items) (.list arg)
  | dict {entries : List (PyStr × PType)} {arg : Annotation}
      (hk : ∀ e ∈ entries, ∀ c ∈ e.1, c < 0x110000) (h : ∀ e ∈ entries, Fits e.2 arg) :
      Fits (.dict entries) (.dict arg)

def NoSurrogates (s : PyStr) : Prop := ∀ c ∈ s, isSurrogate c = false

instance (s : PyStr) : Decidable (NoSurrogates s) :=
  inferInstanceAs (Decidable (∀ c ∈ s, isSurrogate c = false))

/-- The dict is not taken for bytes. -/
def NotBytes (entries : List (PyStr × PType)) : Prop :=
  pyStr "__tkr_bytes__" ∉ entries.map Prod.fst ∨ pyStr "bytes" ∉ entries.map Prod.fst

/-- `serde_json` holds the value exactly and Python reads it back. -/
inductive Survives (C : PyCodec) : PType → Prop
  | none : Survives C .none
  | bool (b : Bool) : Survives C (.bool b)
  | int {n : Int} (h : -2 ^ 63 ≤ n ∧ n < 2 ^ 64) : Survives C (.int n)
  | float {x : Float} (h : C.readFloat x = some x) : Survives C (.float x)
  | str {s : PyStr} (h : NoSurrogates s) : Survives C (.str s)
  | bytes (b : Bytes) : Survives C (.bytes b)
  | complex {re im : Float} (hre : C.readFloat re = some re) (him : C.readFloat im = some im) :
      Survives C (.complex re im)
  | list {items : List PType} (h : ∀ p ∈ items, Survives C p) : Survives C (.list items)
  | dict {entries : List (PyStr × PType)} (hk : ∀ e ∈ entries, NoSurrogates e.1)
      (hb : NotBytes entries) (h : ∀ e ∈ entries, Survives C e.2) : Survives C (.dict entries)

/-- The numbers of a document are read as they were written. -/
inductive Numbers (C : PyCodec) : Doc → Prop
  | null : Numbers C .null
  | bool (b : Bool) : Numbers C (.bool b)
  | int {n : Int} (h : -2 ^ 63 ≤ n ∧ n < 2 ^ 64 → C.number (toString n) = .int n)
      (hl : ∀ x ∈ C.readInt n, C.number (C.floatText x) = .float x) : Numbers C (.int n)
  | float {x : Float} (h : ∀ y ∈ C.readFloat x, C.number (C.floatText y) = .float y) :
      Numbers C (.float x)
  | str (s : PyStr) : Numbers C (.str s)
  | arr {items : List Doc} (h : ∀ d ∈ items, Numbers C d) : Numbers C (.arr items)
  | obj {entries : List (PyStr × Doc)} (h : ∀ e ∈ entries, Numbers C e.2) :
      Numbers C (.obj entries)

/-! ## Strings -/

theorem isSurrogate_toNat (c : Char) : isSurrogate c.toNat = false := by
  have h := c.valid
  unfold isSurrogate
  simp only [Bool.and_eq_false_iff, decide_eq_false_iff_not, not_le]
  rcases h with h | ⟨h, -⟩
  · exact .inl h
  · exact .inr h

theorem toNat_ofNat {c : Nat} (hs : isSurrogate c = false) (hc : c < 0x110000) :
    (Char.ofNat c).toNat = c := by
  have hv : c.isValidChar := by
    unfold isSurrogate at hs
    simp only [Bool.and_eq_false_iff, decide_eq_false_iff_not, not_le] at hs
    rcases hs with h | h
    · exact .inl h
    · exact .inr ⟨h, hc⟩
  unfold Char.ofNat
  rw [dif_pos hv]
  rfl

theorem rustChars_of_noSurrogates {s : PyStr} (h : NoSurrogates s) :
    rustChars s = some (s.map Char.ofNat) := by
  fun_induction rustChars s with
  | case1 => rfl
  | case2 c d s hc hpair ih => exact absurd hc (by rw [h c (by simp)]; exact Bool.false_ne_true)
  | case3 c d s hc hpair => exact absurd hc (by rw [h c (by simp)]; exact Bool.false_ne_true)
  | case4 c d s hc ih =>
    rw [ih fun e he => h e (List.mem_cons_of_mem c he)]
    rfl
  | case5 c hc => exact absurd hc (by rw [h c (by simp)]; exact Bool.false_ne_true)
  | case6 c hc => rfl

/-- A string comes back from Rust unless it has surrogates. -/
theorem rustStr_iff {s : PyStr} (hc : ∀ c ∈ s, c < 0x110000) :
    (∃ t, rustStr s = some t ∧ pyStr t = s) ↔ NoSurrogates s := by
  constructor
  · rintro ⟨t, -, rfl⟩ c hc
    obtain ⟨d, -, rfl⟩ := List.mem_map.1 hc
    exact isSurrogate_toNat d
  · intro h
    refine ⟨String.ofList (s.map Char.ofNat), ?_, ?_⟩
    · rw [rustStr, rustChars_of_noSurrogates h]
      rfl
    · rw [pyStr, String.toList_ofList, List.map_map]
      refine (List.map_congr_left fun c hm => ?_).trans (List.map_id s)
      exact toNat_ofNat (h c hm) (hc c hm)

/-! ## Lists of values -/

/-- What comes back of an element on the way through three functions. -/
def ComesBack {α β γ : Type} (f : α → Option β) (g : β → Option γ) (k : γ → Option α) (a : α) :
    Prop := ∃ b c, f a = some b ∧ g b = some c ∧ k c = some a

/-- A list comes back if and only if each of its elements does. -/
theorem comesBack_mapM_iff {α β γ : Type} {f : α → Option β} {g : β → Option γ}
    {k : γ → Option α} {l : List α} :
    ComesBack (List.mapM f) (List.mapM g) (List.mapM k) l ↔ ∀ a ∈ l, ComesBack f g k a := by
  induction l with
  | nil => exact iff_of_true ⟨[], [], rfl, rfl, rfl⟩ nofun
  | cons a l ih =>
    rw [List.forall_mem_cons, ← ih]
    constructor
    · rintro ⟨bs, cs, hf, hg, hk⟩
      rw [List.mapM_cons, Option.bind_eq_bind, Option.bind_eq_some_iff] at hf
      obtain ⟨b, hb, hf⟩ := hf
      rw [Option.bind_eq_bind, Option.bind_eq_some_iff] at hf
      obtain ⟨bs', hbs, hf⟩ := hf
      cases hf
      rw [List.mapM_cons, Option.bind_eq_bind, Option.bind_eq_some_iff] at hg
      obtain ⟨c, hc, hg⟩ := hg
      rw [Option.bind_eq_bind, Option.bind_eq_some_iff] at hg
      obtain ⟨cs', hcs, hg⟩ := hg
      cases hg
      rw [List.mapM_cons, Option.bind_eq_bind, Option.bind_eq_some_iff] at hk
      obtain ⟨a', ha, hk⟩ := hk
      rw [Option.bind_eq_bind, Option.bind_eq_some_iff] at hk
      obtain ⟨l', hl, hk⟩ := hk
      cases hk
      exact ⟨⟨b, c, hb, hc, ha⟩, bs', cs', hbs, hcs, hl⟩
    · rintro ⟨⟨b, c, hb, hc, ha⟩, bs, cs, hbs, hcs, hl⟩
      refine ⟨b :: bs, c :: cs, ?_, ?_, ?_⟩
      · rw [List.mapM_cons, hb, hbs]
        rfl
      · rw [List.mapM_cons, hc, hcs]
        rfl
      · rw [List.mapM_cons, ha, hl]
        rfl

variable {C : PyCodec}

/-- A value comes back from Rust below the top level. -/
def RoundTrips (C : PyCodec) (ann : Annotation) (p : PType) : Prop :=
  ComesBack (fun p => toRust C (docOf p)) (fun v => decode (ofRust C v))
    (fun p => coerceFromAnnotation ann p) p

theorem b64decode_b64encode (b : Bytes) : b64decode (b64encode b) = some b := by
  have hascii : (b64encode b).all (· < 128) = true := by
    rw [List.all_eq_true]
    exact fun c hc => decide_eq_true (Base64.encode_lt b c hc)
  rw [b64decode, if_pos hascii]
  exact Base64.decode_encode b

theorem noSurrogates_of_ascii {s : PyStr} (h : ∀ c ∈ s, c < 128) : NoSurrogates s := by
  intro c hc
  have := h c hc
  unfold isSurrogate
  simp only [Bool.and_eq_false_iff, decide_eq_false_iff_not]
  omega

theorem survives_int_iff {n : Int} : Survives C (.int n) ↔ -2 ^ 63 ≤ n ∧ n < 2 ^ 64 :=
  ⟨fun h => by cases h with | int h => exact h, .int⟩

theorem survives_list_iff {items : List PType} :
    Survives C (.list items) ↔ ∀ p ∈ items, Survives C p :=
  ⟨fun h => by cases h with | list h => exact h, .list⟩

theorem roundTrips_int_iff {n : Int} {ann : Annotation} (hann : ann = .int ∨ ann = .float)
    (hn : Numbers C (.int n)) : RoundTrips C ann (.int n) ↔ Survives C (.int n) := by
  obtain ⟨hr, hl⟩ : (-2 ^ 63 ≤ n ∧ n < 2 ^ 64 → C.number (toString n) = .int n) ∧
      ∀ x ∈ C.readInt n, C.number (C.floatText x) = .float x := by
    cases hn with | int h hl => exact ⟨h, hl⟩
  rw [survives_int_iff]
  unfold RoundTrips ComesBack
  simp only [docOf, toRust, JsonReader.read, jsonReader]
  split_ifs with h
  · refine iff_of_true ⟨_, _, rfl, congrArg (decode) (hr h), ?_⟩ h
    rcases hann with rfl | rfl <;> rfl
  · refine iff_of_false ?_ h
    rintro ⟨v, q, hv, hq, hc⟩
    obtain ⟨x, hx, rfl⟩ := Option.map_eq_some_iff.1 hv
    rw [ofRust, hl x hx] at hq
    cases hq
    rcases hann with rfl | rfl <;> cases hc

theorem readFloat_comesBack {x : Float} (hn : Numbers C (.float x)) {v : Json} {q : PType}
    (hv : toRust C (.float x) = some v) (hq : decode (ofRust C v) = some q) :
    ∃ y, C.readFloat x = some y ∧ q = .float y := by
  obtain ⟨y, hy, rfl⟩ := Option.map_eq_some_iff.1 hv
  cases hn with
  | float h =>
    rw [ofRust, h y hy] at hq
    cases hq
    exact ⟨y, hy, rfl⟩

theorem toRust_float {x : Float} (hn : Numbers C (.float x)) (h : C.readFloat x = some x) :
    ∃ v, toRust C (.float x) = some v ∧ decode (ofRust C v) = some (.float x) := by
  cases hn with
  | float hl =>
    refine ⟨.num (C.floatText x), ?_, ?_⟩
    · exact congrArg (Option.map fun y => Json.num (C.floatText y)) h
    · rw [ofRust, hl x h]
      rfl

theorem roundTrips_float_iff {x : Float} (hn : Numbers C (.float x)) :
    RoundTrips C .float (.float x) ↔ Survives C (.float x) := by
  constructor
  · rintro ⟨v, q, hv, hq, hc⟩
    obtain ⟨y, hy, rfl⟩ := readFloat_comesBack hn hv hq
    cases hc
    exact .float hy
  · intro h
    cases h with
    | float h =>
      obtain ⟨v, hv, hq⟩ := toRust_float hn h
      exact ⟨v, _, hv, hq, rfl⟩

theorem roundTrips_str_iff {s : PyStr} (hs : ∀ c ∈ s, c < 0x110000) :
    RoundTrips C .str (.str s) ↔ Survives C (.str s) := by
  have hsurvives : Survives C (.str s) ↔ NoSurrogates s :=
    ⟨fun h => by cases h with | str h => exact h, .str⟩
  rw [hsurvives, ← rustStr_iff hs]
  constructor
  · rintro ⟨v, q, hv, hq, hc⟩
    obtain ⟨t, ht, rfl⟩ := Option.map_eq_some_iff.1 hv
    cases hq
    cases hc
    exact ⟨t, ht, rfl⟩
  · rintro ⟨t, ht, hp⟩
    refine ⟨.str t, .str s, ?_, ?_, rfl⟩
    · simp only [docOf, toRust, JsonReader.read, ht, Option.map_some, jsonReader]
    · simp only [ofRust, hp, decode]

theorem roundTrips_bytes (b : Bytes) : RoundTrips C .bytes (.bytes b) := by
  have hs : NoSurrogates (b64encode b) := noSurrogates_of_ascii (Base64.encode_lt b)
  obtain ⟨t, ht, hp⟩ := (rustStr_iff fun c hc => by
    have := Base64.encode_lt b c hc
    omega).2 hs
  refine ⟨.obj [("__tkr_bytes__", .bool true), ("bytes", .str t)], .bytes b, ?_, ?_, rfl⟩
  · simp only [docOf, toRust, JsonReader.read, JsonReader.readEntries, ht]
    rfl
  · have hlookup : objectHook [(pyStr "__tkr_bytes__", .bool true),
        (pyStr "bytes", .str (b64encode b))] = (b64decode (b64encode b)).map .bytes := rfl
    simp only [ofRust, ofRustEntries, hp, decode, decodeEntries, Option.bind_eq_bind,
      Option.bind_some, Option.pure_def]
    rw [hlookup, b64decode_b64encode]
    rfl

theorem cons_eq_some_iff {α : Type} {x : Option α} {y : Option (List α)} {l : List α} :
    (do let a ← x; let as ← y; pure (a :: as)) = some l ↔
      ∃ a as, x = some a ∧ y = some as ∧ l = a :: as := by
  cases x with
  | none => exact iff_of_false nofun fun ⟨_, _, h, _⟩ => by cases h
  | some a =>
    cases y with
    | none => exact iff_of_false nofun fun ⟨_, _, _, h, _⟩ => by cases h
    | some as =>
      constructor
      · intro h
        cases h
        exact ⟨a, as, rfl, rfl, rfl⟩
      · rintro ⟨_, _, ha, has, rfl⟩
        cases ha
        cases has
        rfl

theorem roundTrips_complex_iff {re im : Float} (hre : Numbers C (.float re))
    (him : Numbers C (.float im)) :
    RoundTrips C .complex (.complex re im) ↔ Survives C (.complex re im) := by
  constructor
  · rintro ⟨v, q, hv, hq, hc⟩
    obtain ⟨vs, hvs, rfl⟩ := Option.map_eq_some_iff.1 hv
    obtain ⟨v, vs', hvre, hvs', rfl⟩ := cons_eq_some_iff.1 hvs
    obtain ⟨v', vs'', hvim, hvs'', rfl⟩ := cons_eq_some_iff.1 hvs'
    cases hvs''
    obtain ⟨qs, hqs, rfl⟩ := Option.map_eq_some_iff.1 hq
    obtain ⟨q, qs', hqre, hqs', rfl⟩ := cons_eq_some_iff.1 hqs
    obtain ⟨q', qs'', hqim, hqs'', rfl⟩ := cons_eq_some_iff.1 hqs'
    obtain ⟨y, hy, rfl⟩ := readFloat_comesBack hre hvre hqre
    obtain ⟨y', hy', rfl⟩ := readFloat_comesBack him hvim hqim
    cases hc
    exact .complex hy hy'
  · intro h
    cases h with
    | complex h h' =>
      obtain ⟨v, hv, hq⟩ := toRust_float hre h
      obtain ⟨v', hv', hq'⟩ := toRust_float him h'
      refine ⟨.arr [v, v'], .list [.float re, .float im], ?_, ?_, rfl⟩
      · change toRust C (.arr [.float re, .float im]) = _
        rw [toRust_arr, List.mapM_cons, List.mapM_cons, hv, hv']
        rfl
      · simp only [ofRust, ofRustItems, decode, decodeItems, hq, hq']
        rfl

theorem roundTrips_list_iff {items : List PType} {arg : Annotation}
    (ih : ∀ p ∈ items, RoundTrips C arg p ↔ Survives C p) :
    RoundTrips C (.list arg) (.list items) ↔ Survives C (.list items) := by
  rw [survives_list_iff, ← forall₂_congr ih]
  refine Iff.trans ?_ comesBack_mapM_iff
  constructor
  · rintro ⟨v, q, hv, hq, hc⟩
    simp only [docOf, docItems_eq, toRust_arr, List.mapM_map] at hv
    obtain ⟨vs, hvs, rfl⟩ := Option.map_eq_some_iff.1 hv
    simp only [ofRust, decode, ofRustItems_eq, decodeItems_eq, List.mapM_map] at hq
    obtain ⟨qs, hqs, rfl⟩ := Option.map_eq_some_iff.1 hq
    simp only [iterate, coerceFromAnnotation, Option.bind_some] at hc
    obtain ⟨ps, hps, hl⟩ := Option.map_eq_some_iff.1 hc
    cases hl
    exact ⟨vs, qs, hvs, hqs, hps⟩
  · rintro ⟨vs, qs, hvs, hqs, hps⟩
    refine ⟨.arr vs, .list qs, ?_, ?_, ?_⟩
    · simp only [docOf, docItems_eq, toRust_arr, List.mapM_map]
      exact Option.map_eq_some_iff.2 ⟨vs, hvs, rfl⟩
    · simp only [ofRust, decode, ofRustItems_eq, decodeItems_eq, List.mapM_map]
      exact Option.map_eq_some_iff.2 ⟨qs, hqs, rfl⟩
    · simp only [iterate, coerceFromAnnotation, Option.bind_some]
      exact Option.map_eq_some_iff.2 ⟨items, hps, rfl⟩

theorem lookup_eq_none {entries : List (PyStr × PType)} {k : PyStr} :
    entries.lookup k = none ↔ k ∉ entries.map Prod.fst := by
  rw [List.lookup_eq_none_iff, List.mem_map]
  constructor
  · rintro h ⟨e, he, rfl⟩
    simpa using h e he
  · intro h e he
    rw [bne_iff_ne]
    exact fun hk => h ⟨e, he, hk.symm⟩

theorem objectHook_of_notBytes {entries : List (PyStr × PType)} (h : NotBytes entries) :
    objectHook entries = some (.dict entries) := by
  unfold objectHook
  rcases h with h | h
  · rw [lookup_eq_none.2 h]
  · rw [lookup_eq_none.2 h]
    cases entries.lookup (pyStr "__tkr_bytes__") <;> rfl

theorem objectHook_eq_some {entries : List (PyStr × PType)} {q : PType}
    (h : objectHook entries = some q) :
    NotBytes entries ∧ q = .dict entries ∨ ∃ b, q = .bytes b := by
  by_cases hb : NotBytes entries
  · rw [objectHook_of_notBytes hb] at h
    exact .inl ⟨hb, (Option.some.inj h).symm⟩
  · rw [NotBytes, ← lookup_eq_none, ← lookup_eq_none, not_or] at hb
    obtain ⟨p, hp⟩ := Option.ne_none_iff_exists'.1 hb.1
    obtain ⟨p', hp'⟩ := Option.ne_none_iff_exists'.1 hb.2
    unfold objectHook at h
    rw [hp, hp'] at h
    cases p' with
    | str s =>
      obtain ⟨b, -, rfl⟩ := Option.map_eq_some_iff.1 h
      exact .inr ⟨b, rfl⟩
    | bytes s =>
      obtain ⟨b, -, rfl⟩ := Option.map_eq_some_iff.1 h
      exact .inr ⟨b, rfl⟩
    | _ => cases h

/-- The entry of a dict on its way through Rust. -/
theorem comesBack_entry_iff {arg : Annotation} {e : PyStr × PType} :
    ComesBack (fun e : PyStr × PType =>
          (rustStr e.1).bind fun k => (toRust C (docOf e.2)).map fun v => (k, v))
        (fun e => (decode (ofRust C e.2)).map fun p => (pyStr e.1, p))
        (fun e => Option.map (fun p => (e.1, p)) <| coerceFromAnnotation arg e.2) e ↔
      (∃ t, rustStr e.1 = some t ∧ pyStr t = e.1) ∧ RoundTrips C arg e.2 := by
  constructor
  · rintro ⟨⟨t, v⟩, ⟨k, q⟩, hf, hg, hk⟩
    obtain ⟨t', ht, hf⟩ := Option.bind_eq_some_iff.1 hf
    obtain ⟨v', hv, he⟩ := Option.map_eq_some_iff.1 hf
    cases he
    obtain ⟨q', hq, he⟩ := Option.map_eq_some_iff.1 hg
    cases he
    obtain ⟨p, hp, he⟩ := Option.map_eq_some_iff.1 hk
    cases he
    exact ⟨⟨t, ht, rfl⟩, v, q, hv, hq, hp⟩
  · rintro ⟨⟨t, ht, hkey⟩, v, q, hv, hq, hp⟩
    refine ⟨(t, v), (pyStr t, q), ?_, ?_, ?_⟩
    · simp only at hv ⊢
      rw [ht, hv]
      rfl
    · simp only at hq ⊢
      rw [hq]
      rfl
    · simp only at hp ⊢
      rw [hp, hkey]
      rfl

theorem keys_of_coerce {arg : Annotation} {qs entries : List (PyStr × PType)}
    (h : (qs.mapM fun e => Option.map (fun p => (e.1, p)) <| coerceFromAnnotation arg e.2) =
      some entries) :
    qs.map Prod.fst = entries.map Prod.fst := by
  induction qs generalizing entries with
  | nil =>
    cases h
    rfl
  | cons q qs ih =>
    rw [List.mapM_cons] at h
    obtain ⟨e, es, he, hes, rfl⟩ := cons_eq_some_iff.1 h
    obtain ⟨p, -, rfl⟩ := Option.map_eq_some_iff.1 he
    rw [List.map_cons, List.map_cons, ih hes]

theorem roundTrips_dict_iff {entries : List (PyStr × PType)} {arg : Annotation}
    (hc : ∀ e ∈ entries, ∀ c ∈ e.1, c < 0x110000)
    (ih : ∀ e ∈ entries, RoundTrips C arg e.2 ↔ Survives C e.2) :
    RoundTrips C (.dict arg) (.dict entries) ↔ Survives C (.dict entries) := by
  have hentries := comesBack_mapM_iff (l := entries)
    (f := fun e : PyStr × PType =>
      (rustStr e.1).bind fun k => (toRust C (docOf e.2)).map fun v => (k, v))
    (g := fun e => (decode (ofRust C e.2)).map fun p => (pyStr e.1, p))
    (k := fun e => Option.map (fun p => (e.1, p)) <| coerceFromAnnotation arg e.2)
  simp only [comesBack_entry_iff] at hentries
  have hsurvives : Survives C (.dict entries) ↔ NotBytes entries ∧
      ∀ e ∈ entries, (∃ t, rustStr e.1 = some t ∧ pyStr t = e.1) ∧ RoundTrips C arg e.2 := by
    constructor
    · intro h
      cases h with
      | dict hk hb h =>
        exact ⟨hb, fun e he => ⟨(rustStr_iff (hc e he)).2 (hk e he), (ih e he).2 (h e he)⟩⟩
    · rintro ⟨hb, h⟩
      exact .dict (fun e he => (rustStr_iff (hc e he)).1 (h e he).1) hb
        fun e he => (ih e he).1 (h e he).2
  rw [hsurvives, ← hentries]
  constructor
  · rintro ⟨v, q, hv, hq, hcoerce⟩
    simp only [docOf, docEntries_eq, toRust_obj, List.mapM_map] at hv
    obtain ⟨vs, hvs, rfl⟩ := Option.map_eq_some_iff.1 hv
    simp only [ofRust, decode, ofRustEntries_eq, decodeEntries_eq, List.mapM_map] at hq
    obtain ⟨qs, hqs, hq⟩ := Option.bind_eq_some_iff.1 hq
    rcases objectHook_eq_some hq with ⟨hb, rfl⟩ | ⟨b, rfl⟩
    · unfold coerceFromAnnotation at hcoerce
      obtain ⟨es, hes, he⟩ := Option.map_eq_some_iff.1 hcoerce
      cases he
      refine ⟨?_, vs, qs, hvs, hqs, hes⟩
      rwa [NotBytes, keys_of_coerce hes] at hb
    · cases hcoerce
  · rintro ⟨hb, vs, qs, hvs, hqs, hes⟩
    have hbq : NotBytes qs := by rwa [NotBytes, keys_of_coerce hes]
    refine ⟨.obj vs, .dict qs, ?_, ?_, ?_⟩
    · simp only [docOf, docEntries_eq, toRust_obj, List.mapM_map]
      exact Option.map_eq_some_iff.2 ⟨vs, hvs, rfl⟩
    · simp only [ofRust, decode, ofRustEntries_eq, decodeEntries_eq, List.mapM_map]
      exact Option.bind_eq_some_iff.2 ⟨qs, hqs, objectHook_of_notBytes hbq⟩
    · unfold coerceFromAnnotation
      exact Option.map_eq_some_iff.2 ⟨entries, hes, rfl⟩

/-- Below the top level, a value that fits its annotation comes back from Rust if and only if it
survives. -/
theorem roundTrips_iff {p : PType} {ann : Annotation} (h : Fits p ann)
    (hn : Numbers C (docOf p)) : RoundTrips C ann p ↔ Survives C p := by
  induction h with
  | none ann h =>
    refine iff_of_true ⟨.null, .none, rfl, rfl, ?_⟩ .none
    cases ann <;> rfl
  | bool b => exact iff_of_true ⟨.bool b, .bool b, rfl, rfl, rfl⟩ (.bool b)
  | boolInt b => exact iff_of_true ⟨.bool b, .bool b, rfl, rfl, rfl⟩ (.bool b)
  | int n => exact roundTrips_int_iff (.inl rfl) hn
  | intFloat n => exact roundTrips_int_iff (.inr rfl) hn
  | float x => exact roundTrips_float_iff hn
  | str h => exact roundTrips_str_iff h
  | bytes b => exact iff_of_true (roundTrips_bytes b) (.bytes b)
  | complex re im =>
    rw [docOf] at hn
    cases hn with
    | arr h => exact roundTrips_complex_iff (h _ (by simp)) (h _ (by simp))
  | list h ih =>
    rw [docOf, docItems_eq] at hn
    cases hn with
    | arr hn => exact roundTrips_list_iff fun p hp => ih p hp (hn _ (List.mem_map_of_mem hp))
  | dict hk h ih =>
    rw [docOf, docEntries_eq] at hn
    cases hn with
    | obj hn =>
      refine roundTrips_dict_iff hk fun e he => ih e he (hn (e.1, docOf e.2) ?_)
      exact List.mem_map.2 ⟨e, he, rfl⟩

end Tierkreis
