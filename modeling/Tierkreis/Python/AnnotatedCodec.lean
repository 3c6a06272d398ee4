import Tierkreis.Python.Faithful

/-!
# The codec of annotated values

A value comes back from its bytes when the encoder has an annotation for each struct
in it, and the annotation makes it again of what json gives back. The decoder may
take it for nothing else.
-/

namespace Tierkreis.Annotated

open Lib Lib.StateExcept

variable {J : PyJson} {K : Classes}

/-! ## Writing -/

/-- Values that the encoder leaves as they are. -/
def Val.IsScalar : Val → Prop
  | .none | .bool _ | .int _ | .float _ | .str _ | .bytes _ | .complex _ _ => True
  | _ => False

/-- The encoder finds an annotation for all it looks up. -/
inductive Written (K : Classes) : Option Hint → Val → Prop
  | scalar {ann : Option Hint} {v : Val} (h : v.IsScalar) : Written K ann v
  | struct {ann : Option Hint} {annotations : List (PyStr × Hint)} {cls : String}
      {fields : List (PyStr × Val)} (ha : annotationsOf K ann = some annotations)
      (hk : ∀ e ∈ fields, (annotations.lookup e.1).isSome)
      (h : ∀ e ∈ fields, Written K (annotations.lookup e.1) e.2) : Written K ann (.struct cls fields)
  | tuple {ann : Option Hint} {items : List Val}
      (ha : getArgs ann = [] ∨ items.length ≤ (getArgs ann).length)
      (h : ∀ e ∈ items.zipIdx, Written K (getArgs ann)[e.2]? e.1) : Written K ann (.tuple items)
  | list {ann : Option Hint} {items : List Val} (h : ∀ p ∈ items, Written K (getArgs ann).head? p) :
      Written K ann (.list items)
  | dict {ann : Option Hint} {entries : List (Val × Val)} (ha : (getArgs ann).length ≠ 1)
      (h : ∀ e ∈ entries, Written K (getArgs ann)[1]? e.2) : Written K ann (.dict entries)
  | inst {ann : Option Hint} {cls : String} {id : Nat} {converted : Val}
      (h : Written K none converted) : Written K ann (.inst cls id converted)

theorem serItems_isSome_iff {ann : Option Hint} {items : List Val}
    (ih : ∀ p ∈ items, ∀ ann, (serFromPtype K ann p).isSome ↔ Written K ann p) :
    (serItems K ann items).isSome ↔ ∀ p ∈ items, Written K ann p := by
  induction items with
  | nil => exact iff_of_true rfl nofun
  | cons p items ihl =>
    rw [List.forall_mem_cons, ← ih p (.head _), ← ihl fun q hq => ih q (.tail _ hq), serItems]
    cases serFromPtype K ann p with
    | none => simp
    | some w => cases serItems K ann items <;> simp

theorem serEntries_isSome_iff {ann : Option Hint} {entries : List (Val × Val)}
    (ih : ∀ e ∈ entries, ∀ ann, (serFromPtype K ann e.2).isSome ↔ Written K ann e.2) :
    (serEntries K ann entries).isSome ↔ ∀ e ∈ entries, Written K ann e.2 := by
  induction entries with
  | nil => exact iff_of_true rfl nofun
  | cons e entries ihl =>
    rw [List.forall_mem_cons, ← ih e (.head _), ← ihl fun q hq => ih q (.tail _ hq), serEntries]
    cases serFromPtype K ann e.2 with
    | none => simp
    | some w => cases serEntries K ann entries <;> simp

theorem serFields_isSome_iff (annotations : List (PyStr × Hint)) {fields : List (PyStr × Val)}
    (ih : ∀ e ∈ fields, ∀ ann, (serFromPtype K ann e.2).isSome ↔ Written K ann e.2) :
    (serFields K annotations fields).isSome ↔ ∀ e ∈ fields,
      (annotations.lookup e.1).isSome ∧ Written K (annotations.lookup e.1) e.2 := by
  induction fields with
  | nil => exact iff_of_true rfl nofun
  | cons e fields ihl =>
    rw [List.forall_mem_cons, ← ih e (.head _), ← ihl fun q hq => ih q (.tail _ hq), serFields]
    cases annotations.lookup e.1 with
    | none => simp
    | some ann =>
      cases hw : serFromPtype K (some ann) e.2 with
      | none => simp [hw]
      | some w => cases serFields K annotations fields <;> simp [hw]

theorem serTuple_isSome_iff {items : List Val}
    (ih : ∀ p ∈ items, ∀ ann, (serFromPtype K ann p).isSome ↔ Written K ann p) :
    ∀ (args : List Hint) (k : Nat), (serTuple K (args.drop k) items).isSome ↔
      items.length ≤ args.length - k ∧ ∀ e ∈ items.zipIdx k, Written K args[e.2]? e.1 := by
  induction items with
  | nil =>
    intro args k
    rw [serTuple]
    exact iff_of_true rfl ⟨Nat.zero_le _, fun e he => by cases he⟩
  | cons p items ihl =>
    intro args k
    rw [List.zipIdx_cons, List.forall_mem_cons, ← ih p (.head _)]
    by_cases hk : k < args.length
    · rw [List.drop_eq_getElem_cons hk, serTuple, List.getElem?_eq_getElem hk]
      have hrest := ihl (fun q hq => ih q (.tail _ hq)) args (k + 1)
      have hlen : items.length ≤ args.length - (k + 1) ↔
          (p :: items).length ≤ args.length - k := by
        rw [List.length_cons]
        omega
      rw [← hlen, and_left_comm, ← hrest]
      cases serFromPtype K (some args[k]) p with
      | none => simp
      | some w => cases serTuple K (args.drop (k + 1)) items <;> simp
    · rw [List.drop_of_length_le (Nat.le_of_not_lt hk)]
      refine iff_of_false (fun h => by cases h) fun h => ?_
      have := h.1
      rw [List.length_cons] at this
      omega

theorem ser_isSome_iff (v : Val) : ∀ ann, (serFromPtype K ann v).isSome ↔ Written K ann v := by
  induction v using Val.induct with
  | none | bool | int | float | str | bytes | complex =>
    exact fun ann => iff_of_true rfl (.scalar trivial)
  | list items ih =>
    intro ann
    rw [serFromPtype, Option.isSome_map, serItems_isSome_iff ih]
    constructor
    · exact .list
    · intro h
      cases h with
      | scalar h => exact h.elim
      | list h => exact h
  | tuple items ih =>
    intro ann
    have hcases : Written K ann (.tuple items) ↔
        (getArgs ann = [] ∨ items.length ≤ (getArgs ann).length) ∧
          ∀ e ∈ items.zipIdx, Written K (getArgs ann)[e.2]? e.1 := by
      constructor
      · intro h
        cases h with
        | scalar h => exact h.elim
        | tuple ha h => exact ⟨ha, h⟩
      · exact fun h => .tuple h.1 h.2
    rw [hcases, serFromPtype]
    split
    · rename_i hargs
      rw [Option.isSome_map, serItems_isSome_iff ih, hargs, and_iff_right (.inl rfl)]
      constructor
      · exact fun h e he => h e.1 (List.fst_mem_of_mem_zipIdx he)
      · intro h p hp
        obtain ⟨i, hi, rfl⟩ := List.getElem_of_mem hp
        exact h (items[i], i) (List.mk_mem_zipIdx_iff_getElem?.2 (List.getElem?_eq_getElem hi))
    · rename_i hargs
      have htuple := serTuple_isSome_iff ih (getArgs ann) 0
      rw [List.drop_zero, Nat.sub_zero] at htuple
      rw [Option.isSome_map, htuple, or_iff_right hargs]
  | dict entries ih =>
    intro ann
    have hcases : Written K ann (.dict entries) ↔
        (getArgs ann).length ≠ 1 ∧ ∀ e ∈ entries, Written K (getArgs ann)[1]? e.2 := by
      constructor
      · intro h
        cases h with
        | scalar h => exact h.elim
        | dict ha h => exact ⟨ha, h⟩
      · exact fun h => .dict h.1 h.2
    rw [hcases, serFromPtype]
    split
    · rename_i hargs
      rw [Option.isSome_map, serEntries_isSome_iff ih, hargs]
      exact (and_iff_right (by simp)).symm
    · rename_i hargs
      rw [hargs]
      exact iff_of_false (fun h => by cases h) fun h => h.1 rfl
    · rename_i hargs
      rw [Option.isSome_map, serEntries_isSome_iff ih, hargs]
      exact (and_iff_right (by simp)).symm
  | struct cls fields ih =>
    intro ann
    rw [serFromPtype]
    cases ha : annotationsOf K ann with
    | none =>
      refine iff_of_false (fun h => by cases h) fun h => ?_
      cases h with
      | scalar h => exact h.elim
      | struct ha' => cases ha.symm.trans ha'
    | some annotations =>
      have hfields := serFields_isSome_iff annotations ih
      change ((serFields K annotations fields).bind _).isSome ↔ _
      constructor
      · intro h
        have hsome : (serFields K annotations fields).isSome := by
          cases hs : serFields K annotations fields with
          | none =>
            rw [hs] at h
            cases h
          | some ws => rfl
        have hw := hfields.1 hsome
        exact .struct ha (fun e he => (hw e he).1) fun e he => (hw e he).2
      · intro h
        cases h with
        | scalar h => exact h.elim
        | struct ha' hk h =>
          cases ha.symm.trans ha'
          have hsome := hfields.2 fun e he => ⟨hk e he, h e he⟩
          obtain ⟨ws, hws⟩ := Option.isSome_iff_exists.1 hsome
          rw [hws]
          rfl
  | inst cls id converted ih =>
    intro ann
    rw [serFromPtype, ih]
    constructor
    · exact .inst
    · intro h
      cases h with
      | scalar h => exact h.elim
      | inst h => exact h

/-! ## Bytes -/

theorem decode_eq_str {d : Doc} {s : PyStr} (h : decode d = some (.str s)) : d = .str s := by
  cases d with
  | str s' =>
    cases h
    rfl
  | null | bool | int | float => cases h
  | arr items =>
    obtain ⟨ps, -, heq⟩ := Option.map_eq_some_iff.1 h
    cases heq
  | obj entries =>
    obtain ⟨es, -, hhook⟩ := Option.bind_eq_some_iff.1 h
    rcases objectHook_cases (dictOf es) with ⟨-, heq⟩ | ⟨-, hbytes⟩
    · cases hhook.symm.trans heq
    · obtain ⟨b, hb⟩ := hbytes _ hhook
      cases hb

theorem mem_of_mem_decodeEntries {ds : List (PyStr × Doc)} {es : List (PyStr × Val)}
    (h : decodeEntries ds = some es) {e : PyStr × Val} (he : e ∈ es) :
    ∃ d, (e.1, d) ∈ ds ∧ decode d = some e.2 := by
  induction ds generalizing es with
  | nil =>
    cases h
    cases he
  | cons d ds ih =>
    obtain ⟨p, hp, h⟩ := Option.bind_eq_some_iff.1 h
    obtain ⟨ps, hps, h⟩ := Option.bind_eq_some_iff.1 h
    cases h
    rcases List.mem_cons.1 he with rfl | he
    · exact ⟨d.2, .head _, hp⟩
    · obtain ⟨d', hd', hdec⟩ := ih hps he
      exact ⟨d', .tail _ hd', hdec⟩

theorem textSize_le_of_mem {ds : List (PyStr × Doc)} {e : PyStr × Doc} (h : e ∈ ds) :
    textSize e.2 ≤ textSizeEntries ds := by
  induction ds with
  | nil => cases h
  | cons d ds ih =>
    rw [textSizeEntries]
    rcases List.mem_cons.1 h with rfl | h
    · omega
    · have := ih h
      omega

theorem lookup_mem {es : List (PyStr × Val)} {k : PyStr} {v : Val} (h : es.lookup k = some v) :
    (k, v) ∈ es := by
  induction es with
  | nil => cases h
  | cons e es ih =>
    rw [List.lookup_cons] at h
    split at h
    · rename_i hk
      cases h
      rw [beq_iff_eq.1 hk]
      exact .head _
    · exact .tail _ (ih h)

/-- Bytes are shorter than the document they are decoded from. -/
theorem length_lt_textSize {d : Doc} {b : Bytes} (h : decode d = some (.bytes b)) :
    b.length < textSize d := by
  have hrec : ∀ n (d : Doc), sizeOf d < n → ∀ b, decode d = some (.bytes b) →
      b.length < textSize d := by
    intro n
    induction n with
    | zero => exact fun _ h => absurd h (Nat.not_lt_zero _)
    | succ n ih =>
      intro d hd b h
      cases d with
      | null | bool | int | float | str => cases h
      | arr items =>
        obtain ⟨ps, -, heq⟩ := Option.map_eq_some_iff.1 h
        cases heq
      | obj entries =>
        obtain ⟨es, hes, hhook⟩ := Option.bind_eq_some_iff.1 h
        have hfound : ∀ {k : PyStr} {v : Val}, (dictOf es).lookup k = some v →
            ∃ d', (k, d') ∈ entries ∧ decode d' = some v := fun hk =>
          mem_of_mem_decodeEntries hes (mem_of_mem_dictOf (lookup_mem hk))
        rw [textSize]
        unfold objectHook at hhook
        split at hhook
        · rename_i s _ hs
          obtain ⟨b', hb', heq⟩ := Option.map_eq_some_iff.1 hhook
          cases heq
          obtain ⟨d', hd', hdec⟩ := hfound hs
          cases decode_eq_str hdec
          have hsize := textSize_le_of_mem hd'
          have hlen : b.length ≤ s.length := by
            unfold b64decode at hb'
            split at hb'
            · exact Base64.length_decode_le hb'
            · cases hb'
          dsimp only at hsize
          rw [textSize] at hsize
          omega
        · rename_i b₁ _ hb₁
          obtain ⟨b', hb', heq⟩ := Option.map_eq_some_iff.1 hhook
          cases heq
          obtain ⟨d', hd', hdec⟩ := hfound hb₁
          have hlt : sizeOf d' < n := by
            have hmem := List.sizeOf_lt_of_mem hd'
            simp only [Doc.obj.sizeOf_spec] at hd
            simp only [Prod.mk.sizeOf_spec] at hmem
            omega
          have hsize := textSize_le_of_mem hd'
          have hrec := ih d' hlt b₁ hdec
          have hlen := Base64.length_decode_le hb'
          rw [List.length_map] at hlen
          dsimp only at hsize
          omega
        · cases hhook
        · cases hhook
  exact hrec _ d (Nat.lt_succ_self _) b h

/-- What the decoder relies on of a class: it makes its own instances. -/
def Makes (K : Classes) : Prop :=
  ∀ cls p x, K.fromVal cls p = .ok x → ∃ id converted, x = .inst cls id converted

/-- No annotation makes bytes of anything else. -/
theorem eq_bytes_of_coerce (hK : Makes K) (t : Hint) : ∀ {p : Val} {b : Bytes},
    coerceFromAnnotation K t p = .ok (.bytes b) → p = .bytes b := by
  have hplain : ∀ {t : Hint} {p : Val} {b : Bytes},
      coerceFromAnnotation K t p = .ok (.bytes b) → t.IsPlain → p = .bytes b := by
    intro t p b h ht
    rw [coerce_plain ht] at h
    exact Except.ok.inj h
  have hitems : ∀ {t arg : Hint}, ItemsOf t arg → ∀ {p : Val} {b : Bytes},
      coerceFromAnnotation K t p ≠ .ok (.bytes b) := by
    intro t arg ht p b h
    by_cases hp : p = .none
    · subst hp
      rw [coerce_null (by rintro args rfl; cases ht)] at h
      cases h
    · rw [coerce_items ht hp] at h
      obtain ⟨_, -, h⟩ := except_bind_eq_ok.1 h
      obtain ⟨_, -, h⟩ := except_bind_eq_ok.1 h
      cases h
  induction t using Hint.induct with
  | none | bool | int | float | str | bytes =>
    intro p b h
    exact hplain h trivial
  | complex =>
    intro p b h
    by_cases hp : p = .none
    · subst hp
      cases h
    · rw [coerce_complex hp] at h
      obtain ⟨re, im, heq⟩ := complexOf_eq_ok h
      cases heq
  | list arg ih =>
    intro p b h
    exact absurd h (hitems (.list arg))
  | tuple args ih =>
    intro p b h
    cases args with
    | nil => exact hplain h trivial
    | cons arg args => exact absurd h (hitems (.tuple arg args))
  | dict key arg ih =>
    intro p b h
    by_cases hp : p = .none
    · subst hp
      cases h
    by_cases hd : ∃ entries, p = .dict entries
    · obtain ⟨entries, rfl⟩ := hd
      obtain ⟨_, -, h⟩ := except_bind_eq_ok.1 h
      cases h
    · rw [coerce_dict_other key arg hp hd] at h
      cases h
  | union args ih =>
    intro p b h
    rw [coerce_union] at h
    induction args with
    | nil => cases h
    | cons arg args ihl =>
      rw [coerceUnion] at h
      split at h
      · exact ihl (fun t ht {_ _} => ih t (.tail _ ht)) h
      · exact ih arg (.head _) h
  | struct cls fields ih =>
    intro p b h
    have hstruct : ∀ {names : List PyStr} {xs : List Val},
        makeStruct K cls names xs ≠ .ok (.bytes b) := by
      intro names xs h
      unfold makeStruct at h
      split at h
      · cases h
      · split at h <;> cases h
    cases hs : sequenceItems p with
    | some items =>
      rw [coerce_struct_items hs] at h
      obtain ⟨xs, -, h⟩ := except_bind_eq_ok.1 h
      exact absurd h hstruct
    | none =>
      cases p with
      | dict E =>
        rw [coerce_struct_entries] at h
        obtain ⟨xs, -, h⟩ := except_bind_eq_ok.1 h
        exact absurd h hstruct
      | list | str | bytes => cases hs
      | none | bool | int | float | complex | tuple | struct | inst => cases h
  | convertible cls =>
    intro p b h
    by_cases hp : p = .none
    · subst hp
      cases h
    · rw [coerce_convertible hp] at h
      obtain ⟨id, converted, heq⟩ := hK cls p _ h
      cases heq

/-! ## The codec -/

/-- The value comes back from its bytes. -/
def RoundTrips (J : PyJson) (K : Classes) (t : Hint) (v : Val) : Prop :=
  ((bytesFromPtype J K v t).bind fun bs => ptypeFromBytes J K bs t) = some v

/-- When it does: for the annotation `bytes` if it is bytes, and for others if it is not, and the
encoder writes it and it is faithful to the annotation. -/
def ComesBack (J : PyJson) (K : Classes) (t : Hint) (v : Val) : Prop :=
  (t = .bytes ∧ ∃ b, v = .bytes b) ∨
    (t ≠ .bytes ∧ (∀ b, v ≠ .bytes b) ∧ Written K (some t) v ∧ Faithful J K t v)

/-- What the codec relies on: `loads` reads what `dumps` has written of the value, a document has
no more text than the bytes it is read from, and a class makes its own instances. -/
structure Documented (J : PyJson) (K : Classes) (v : Val) : Prop where
  reads : ∀ d, docOf J v = some d → J.loads (J.dumps d) = some (normalise d)
  longer : ∀ b d, v = .bytes b → J.loads b = some d → textSize d ≤ b.length
  makes : Makes K

theorem eq_bytes_of_ser {ann : Option Hint} {v : Val} (hv : v.WF) {b : Bytes}
    (h : serFromPtype K ann v = some (.bytes b)) : v = .bytes b := by
  cases hv with
  | bytes b' =>
    cases h
    rfl
  | none | bool | int | float | str | complex => cases h
  | list =>
    obtain ⟨_, -, h⟩ := Option.map_eq_some_iff.1 h
    cases h
  | tuple =>
    rw [serFromPtype] at h
    split at h
    · obtain ⟨_, -, h⟩ := Option.map_eq_some_iff.1 h
      cases h
    · obtain ⟨_, -, h⟩ := Option.map_eq_some_iff.1 h
      cases h
  | dict =>
    rw [serFromPtype] at h
    split at h
    · obtain ⟨_, -, h⟩ := Option.map_eq_some_iff.1 h
      cases h
    · cases h
    · obtain ⟨_, -, h⟩ := Option.map_eq_some_iff.1 h
      cases h
  | struct =>
    obtain ⟨_, -, h⟩ := Option.bind_eq_some_iff.1 h
    obtain ⟨_, -, h⟩ := Option.bind_eq_some_iff.1 h
    cases h
  | instDict =>
    rw [serFromPtype, serFromPtype] at h
    obtain ⟨_, -, h⟩ := Option.map_eq_some_iff.1 h
    cases h
  | instList =>
    rw [serFromPtype, serFromPtype] at h
    obtain ⟨_, -, h⟩ := Option.map_eq_some_iff.1 h
    cases h

theorem ptypeFromBytes_of_ne {t : Hint} (ht : t ≠ .bytes) (bs : Bytes) :
    ptypeFromBytes J K bs t = (J.loads bs).bind fun d =>
      (decode d).bind fun p => Except.toOption <| coerceFromAnnotation K t p := by
  cases t <;> first | rfl | exact absurd rfl ht

/-- What is written of a value that is not bytes. -/
theorem bytesFromPtype_eq {t : Hint} {v : Val} (hv : v.WF) (hb : ∀ b, v ≠ .bytes b) :
    bytesFromPtype J K v t =
      (serFromPtype K (some t) v).bind fun _ => (docOf J v).map J.dumps := by
  unfold bytesFromPtype
  cases hw : serFromPtype K (some t) v with
  | none => rfl
  | some w =>
    rw [Option.bind_some, ← jsonDoc_of_ser hw]
    cases w with
    | bytes b => exact absurd (eq_bytes_of_ser hv hw) (hb b)
    | _ => rfl

theorem roundTrips_json_iff {v : Val} (hJ : Documented J K v) {t : Hint} (hv : v.WF) (ht : t ≠ .bytes)
    (hb : ∀ b, v ≠ .bytes b) :
    RoundTrips J K t v ↔ Written K (some t) v ∧ Reads J K t v := by
  unfold RoundTrips Reads
  rw [bytesFromPtype_eq hv hb, ← ser_isSome_iff, ← decode_docOf]
  cases serFromPtype K (some t) v with
  | none => exact iff_of_false nofun fun h => absurd h.1 (by simp)
  | some w =>
    cases hd : docOf J v with
    | none => exact iff_of_false nofun fun ⟨_, j, hj, _⟩ => nomatch hj
    | some d =>
      change ptypeFromBytes J K (J.dumps d) t = _ ↔ _
      rw [ptypeFromBytes_of_ne ht, hJ.reads d hd, Option.bind_some, Option.bind_some,
        Option.bind_eq_some_iff]
      simp only [toOption_eq_some_iff, Option.isSome_some, true_and]

/-- A value comes back from its bytes if and only if the annotation gives it back. -/
theorem annotated_codec_iff {J : PyJson} {K : Classes} {t : Hint} {v : Val}
    (hJ : Documented J K v) (hv : v.WF) : RoundTrips J K t v ↔ ComesBack J K t v := by
  unfold ComesBack
  by_cases ht : t = .bytes
  · subst ht
    have hread : ∀ bs, ptypeFromBytes J K bs .bytes = some (.bytes bs) := fun _ => rfl
    rw [and_iff_right rfl, or_iff_left fun h => h.1 rfl]
    constructor
    · intro h
      obtain ⟨bs, -, h⟩ := Option.bind_eq_some_iff.1 h
      rw [hread] at h
      exact ⟨bs, (Option.some.inj h).symm⟩
    · rintro ⟨b, rfl⟩
      rfl
  · rw [or_iff_right fun h => ht h.1, and_iff_right ht]
    by_cases hb : ∀ b, v ≠ .bytes b
    · rw [and_iff_right hb, roundTrips_json_iff hJ hv ht hb, reads_iff t v hv]
    · refine iff_of_false (fun h => ?_) fun h => hb h.1
      obtain ⟨b, rfl⟩ := not_forall_not.1 hb
      change ptypeFromBytes J K b t = _ at h
      rw [ptypeFromBytes_of_ne ht] at h
      obtain ⟨d, hd, h⟩ := Option.bind_eq_some_iff.1 h
      obtain ⟨p, hp, h⟩ := Option.bind_eq_some_iff.1 h
      cases eq_bytes_of_coerce hJ.makes t (toOption_eq_some_iff.1 h)
      have hshort := length_lt_textSize hp
      have hlong := hJ.longer b d rfl hd
      omega

/-- The values of an annotation. A class makes its instance of what the instance is converted
to. -/
inductive HasType (K : Classes) : Hint → Val → Prop
  | none : HasType K .none .none
  | bool (b : Bool) : HasType K .bool (.bool b)
  | int (n : Int) : HasType K .int (.int n)
  | float (x : Float) : HasType K .float (.float x)
  | str (s : PyStr) : HasType K .str (.str s)
  | bytes (b : Bytes) : HasType K .bytes (.bytes b)
  | complex (re im : Float) : HasType K .complex (.complex re im)
  | list {arg : Hint} {items : List Val} (h : ∀ p ∈ items, HasType K arg p) :
      HasType K (.list arg) (.list items)
  | dict {key arg : Hint} {entries : List (Val × Val)} (hk : ∀ e ∈ entries, HasType K key e.1)
      (h : ∀ e ∈ entries, HasType K arg e.2) : HasType K (.dict key arg) (.dict entries)
  | tuple {args : List Hint} {items : List Val} (hlen : args.length = items.length)
      (h : ∀ e ∈ args.zip items, HasType K e.1 e.2) : HasType K (.tuple args) (.tuple items)
  | union {args : List Hint} {arg : Hint} {v : Val} (ha : arg ∈ args) (h : HasType K arg v) :
      HasType K (.union args) v
  | struct {cls : String} {fields : List (PyStr × Hint)} {vs : List (PyStr × Val)}
      (hn : vs.map Prod.fst = fields.map Prod.fst)
      (h : ∀ e ∈ fields.zip vs, HasType K e.1.2 e.2.2) : HasType K (.struct cls fields) (.struct cls vs)
  | convertible {cls : String} {id : Nat} {converted : Val}
      (h : K.fromVal cls converted = .ok (.inst cls id converted)) :
      HasType K (.convertible cls) (.inst cls id converted)

/-! ### A list of structs, and a tuple -/

/-- A module `json` that knows one document and its text, which is given in parts. -/
def jsonOf (parts : List String) (d : Doc) : PyJson where
  dumps _ := parts.flatMap fun s => (pyStr s).map UInt8.ofNat
  loads bs := if bs = parts.flatMap fun s => (pyStr s).map UInt8.ofNat then some d else none
  floatRepr _ := []

/-- No classes. -/
def noClasses : Classes := ⟨fun _ _ => .error .other, fun _ => [], fun _ => []⟩

theorem documented_jsonOf {parts : List String} {d : Doc} {v : Val}
    (hd : docOf (jsonOf parts d) v = some d) (hn : normalise d = d) (hv : ∀ b, v ≠ .bytes b) :
    Documented (jsonOf parts d) noClasses v where
  reads d' h := by
    cases hd.symm.trans h
    rw [hn]
    exact if_pos rfl
  longer b _ h := absurd h (hv b)
  makes _ _ _ h := by cases h

/-- A struct with a dict of bytes, a complex number and an integer that may be missing. -/
def pointHint : Hint :=
  .struct "Point" [(pyStr "raw", .dict .str .bytes), (pyStr "z", .complex),
    (pyStr "n", .union [.int, .none])]

def point (raw : List (PyStr × Val)) (re im : Float) (n : Val) : Val :=
  .struct "Point" [(pyStr "raw", .dict (strEntries raw)), (pyStr "z", .complex re im),
    (pyStr "n", n)]

def points : Val :=
  .list [point [(pyStr "k", .bytes [72, 105])] 1 0.5 .none, point [] 0 1 (.int 2)]

def pointDoc (raw : List (PyStr × Doc)) (re im : Float) (n : Doc) : Doc :=
  .obj [(pyStr "raw", .obj raw), (pyStr "z", .arr [.float re, .float im]), (pyStr "n", n)]

def jsonPoints : PyJson :=
  jsonOf
    ["[\n  \x7b\n    \"raw\": \x7b\n      \"k\": \x7b\n        \"__tkr_bytes__\": true,\n",
      "        \"bytes\": \"SGk=\"\n      \x7d\n    \x7d,\n    \"z\": [\n      1.0,\n      0.5\n    ],\n",
      "    \"n\": null\n  \x7d,\n  \x7b\n    \"raw\": \x7b\x7d,\n    \"z\": [\n      0.0,\n      1.0\n",
      "    ],\n    \"n\": 2\n  \x7d\n]"]
    (.arr [pointDoc [(pyStr "k", bytesDoc [72, 105])] 1 0.5 .null, pointDoc [] 0 1 (.int 2)])

section

variable {raw : List (PyStr × Val)} {re im : Float} {n : Val}

theorem forall_mem_triple {α : Type} {P : α → Prop} {a b c : α} :
    (∀ x ∈ [a, b, c], P x) ↔ P a ∧ P b ∧ P c := by
  rw [List.forall_mem_cons, List.forall_mem_cons, List.forall_mem_singleton]

theorem wf_point (hn : ((strEntries raw).map Prod.fst).Nodup) (hraw : ∀ e ∈ strEntries raw, e.2.WF)
    (h : n.WF) : (point raw re im n).WF := by
  have hnames : [pyStr "raw", pyStr "z", pyStr "n"].Nodup := by decide
  have hfields : ∀ k ∈ [pyStr "raw", pyStr "z", pyStr "n"], FieldName k :=
    forall_mem_triple.2 ⟨⟨unpaired_of_lt (by decide), by decide⟩,
      ⟨unpaired_of_lt (by decide), by decide⟩, unpaired_of_lt (by decide), by decide⟩
  exact .struct hnames (fun e he => hfields _ (List.mem_map_of_mem (f := Prod.fst) he))
    (forall_mem_triple.2 ⟨.dict hn hraw, .complex re im, h⟩)

theorem written_point (hraw : ∀ e ∈ strEntries raw, e.2.IsScalar) (h : n.IsScalar) :
    Written noClasses (some pointHint) (point raw re im n) := by
  have hdict : Written noClasses (some (.dict .str .bytes)) (.dict (strEntries raw)) :=
    .dict (show 2 ≠ 1 by decide) fun e he => .scalar (hraw e he)
  exact .struct rfl (forall_mem_triple.2 ⟨rfl, rfl, rfl⟩)
    (forall_mem_triple.2 ⟨hdict, .scalar trivial, .scalar h⟩)

theorem faithful_point {J : PyJson} (hk : PlainKeys raw) (hraw : ∀ e ∈ raw, Raw e.2) (h : Raw n) :
    Faithful J noClasses pointHint (point raw re im n) :=
  .inr ⟨_, rfl, rfl, .inr ⟨raw, rfl, hk, hraw⟩, rfl, .inr ⟨re, im, rfl⟩, rfl, .inl h, trivial⟩

end

theorem annotated_codec_points : RoundTrips jsonPoints noClasses (.list pointHint) points := by
  have hbytes : ∀ b, points ≠ .bytes b := fun b h => by cases h
  have hdoc : Documented jsonPoints noClasses points := documented_jsonOf rfl rfl hbytes
  have hwf : points.WF := by
    refine .list (List.forall_mem_cons.2 ⟨wf_point ?_ ?_ .none, List.forall_mem_singleton.2 ?_⟩)
    · exact List.nodup_singleton _
    · exact List.forall_mem_singleton.2 (.bytes _)
    · exact wf_point List.nodup_nil (fun _ h => absurd h List.not_mem_nil) (.int 2)
  have hlist : Hint.list pointHint ≠ .bytes := fun h => by cases h
  refine (annotated_codec_iff hdoc hwf).2 (.inr ⟨hlist, hbytes, .list ?_, .inr ⟨_, rfl, ?_⟩⟩)
  · refine List.forall_mem_cons.2 ⟨written_point ?_ trivial, List.forall_mem_singleton.2 ?_⟩
    · exact List.forall_mem_singleton.2 trivial
    · exact written_point (fun _ h => absurd h List.not_mem_nil) trivial
  · refine List.forall_mem_cons.2 ⟨faithful_point ?_ ?_ .none, List.forall_mem_singleton.2 ?_⟩
    · exact ⟨List.forall_mem_singleton.2 (unpaired_of_lt (by decide)), fun h => by
        exact absurd h.1 (by decide)⟩
    · exact List.forall_mem_singleton.2 (.bytes _)
    · exact faithful_point ⟨fun _ h => absurd h List.not_mem_nil, fun h =>
        absurd h.1 List.not_mem_nil⟩ (fun _ h => absurd h List.not_mem_nil) (.int 2)

/-- A tuple comes back as a list. -/
theorem not_annotated_codec :
    Documented (jsonOf ["[\n  1\n]"] (.arr [.int 1])) noClasses (.tuple [.int 1]) ∧
      (Val.tuple [.int 1]).WF ∧ HasType noClasses (.tuple [.int]) (.tuple [.int 1]) ∧
      ¬ RoundTrips (jsonOf ["[\n  1\n]"] (.arr [.int 1])) noClasses (.tuple [.int])
        (.tuple [.int 1]) := by
  refine ⟨documented_jsonOf rfl rfl fun b h => ?_, .tuple (List.forall_mem_singleton.2 (.int 1)),
    .tuple rfl (List.forall_mem_singleton.2 (.int 1)), fun h => ?_⟩
  · cases h
  · cases h

end Tierkreis.Annotated
