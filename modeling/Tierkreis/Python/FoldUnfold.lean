import Tierkreis.Lib.StateExcept
import Tierkreis.Python.MapElements

/-!
# Unfolding and folding Python lists

Top-level bytes are written as they are, which the Rust functions do not know of:
they read them as json, and write the json of bytes where Python expects the
bytes themselves.
-/

namespace Tierkreis

open Lib Lib.StateExcept

/-- What the codec does with a list and its elements, as far as it depends on the libraries:
`serde_json` reads what Python wrote and rejects what it cannot hold, Python reads what
`serde_json` wrote, and the json of bytes is longer than the bytes. -/
structure Documented (C : PyCodec) (es : List PType) : Prop where
  numbers : ∀ e ∈ es, Numbers C (docOf e)
  reads : ∀ p ∈ PType.list es :: es, ∀ v, readRust C (docOf p) = some v →
    C.serde.fromSlice (C.dumps (docOf p)) = .ok v
  rejects : ∀ p ∈ PType.list es :: es, readRust C (docOf p) = none →
    ∀ v, C.serde.fromSlice (C.dumps (docOf p)) ≠ .ok v
  writes : ∀ p ∈ PType.list es :: es, ∀ v, readRust C (docOf p) = some v →
    C.loads (C.serde.toVec v) = some (ofRust C v)
  longer : ∀ b, PType.bytes b ∈ es → ∀ v, toRust C (docOf (.bytes b)) = some v →
    b.length < (C.serde.toVec v).length

/-- The elements of an unfolded list are those of the list. -/
def Unfolds (C : PyCodec) (es : List PType) (ann : Annotation) : Prop :=
  ∀ (A : Assets) (assets : Specs) name spec, A.Fresh → assets.get? name = some spec →
    A.loadAssetFromSpec spec = .ok (bytesFromPtype C (.list es)) →
      ∃ specs B, A.unfoldAsset C.serde assets name = .ok (specs, B) ∧
        List.Forall₂ (fun spec e => ∃ bytes, B.loadAssetFromSpec spec = .ok bytes ∧
          ptypeFromBytes C bytes ann = some e) specs es

/-- The list that elements are folded into is that of the elements. -/
def Folds (C : PyCodec) (es : List PType) (ann : Annotation) : Prop :=
  ∀ (A : Assets) storageName specs, A.Fresh → A.registry.contains storageName = true →
    List.Forall₂ (fun spec e => A.loadAssetFromSpec spec = .ok (bytesFromPtype C e)) specs es →
      ∃ spec B, A.foldAssets C.serde storageName specs = .ok (spec, B) ∧
        ∃ bytes, B.loadAssetFromSpec spec = .ok bytes ∧
          ptypeFromBytes C bytes (.list ann) = some (.list es)

/-! ## Elements -/

variable {C : PyCodec} {es : List PType} {ann : Annotation}

theorem depth_le_of_mem {ds : List Doc} {d : Doc} (h : d ∈ ds) : d.depth ≤ Doc.depthItems ds := by
  induction ds with
  | nil => cases h
  | cons d' ds ih =>
    rw [Doc.depthItems]
    rcases List.mem_cons.1 h with rfl | h
    · exact Nat.le_max_left _ _
    · exact Nat.le_trans (ih h) (Nat.le_max_right _ _)

/-- The elements of a list are less deep than the list. -/
theorem depth_lt_of_mem {e : PType} (he : e ∈ es) :
    (docOf e).depth < (docOf (.list es)).depth := by
  have := depth_le_of_mem (List.mem_map_of_mem (f := docOf) he)
  rw [docOf, Doc.depth, docItems_eq]
  omega

theorem readRust_of_depth {d : Doc} (h : d.depth < recursionLimit) : readRust C d = toRust C d :=
  if_pos h

theorem ptypeFromBytes_of_ne (h : ann ≠ .bytes) {bs : Bytes} {d : Doc} (hd : C.loads bs = some d) :
    ptypeFromBytes C bs ann = (decode d).bind fun p => coerceFromAnnotation ann p := by
  cases ann with
  | bytes => exact absurd rfl h
  | _ =>
    simp only [ptypeFromBytes, hd]
    rfl

theorem bytesFromPtype_of_ne {e : PType} (h : ∀ b, e ≠ .bytes b) :
    bytesFromPtype C e = C.dumps (docOf e) := by
  cases e with
  | bytes b => exact absurd rfl (h b)
  | _ => rfl

theorem fits_bytes {e : PType} (h : Fits e .bytes) : ∃ b, e = .bytes b := by
  cases h with
  | none _ h => exact absurd rfl h
  | bytes b => exact ⟨b, rfl⟩

theorem ann_ne_bytes {e : PType} (h : Fits e ann) (he : ∀ b, e ≠ .bytes b) : ann ≠ .bytes := by
  rintro rfl
  obtain ⟨b, rfl⟩ := fits_bytes h
  exact he b rfl

theorem toRust_list : toRust C (docOf (.list es)) =
    (es.mapM fun e => toRust C (docOf e)).map .arr := by
  rw [docOf, docItems_eq, toRust_arr, List.mapM_map]
  rfl

theorem forall₂_of_mapM {α β : Type} {f : α → Option β} {l : List α} :
    ∀ {l' : List β}, l.mapM f = some l' → List.Forall₂ (fun a b => f a = some b) l l' := by
  induction l with
  | nil =>
    intro l' h
    cases h
    exact .nil
  | cons a l ih =>
    intro l' h
    rw [List.mapM_cons] at h
    obtain ⟨b, bs, hb, hbs, rfl⟩ := cons_eq_some_iff.1 h
    exact .cons hb (ih hbs)

/-- What `serde_json` has written of an element is read as the element exactly when the element
survives and is not bytes. -/
theorem ptypeFromBytes_toVec_iff (hC : Documented C es) {e : PType} (he : e ∈ es)
    (hfit : Fits e ann) (hd : (docOf e).depth < recursionLimit) {v : Json}
    (hv : toRust C (docOf e) = some v) :
    ptypeFromBytes C (C.serde.toVec v) ann = some e ↔ Survives C e ∧ ∀ b, e ≠ .bytes b := by
  by_cases hb : ∀ b, e ≠ .bytes b
  · have hann : ann ≠ .bytes := ann_ne_bytes hfit hb
    have hw := hC.writes e (List.mem_cons_of_mem _ he) v ((readRust_of_depth hd).trans hv)
    rw [ptypeFromBytes_of_ne hann hw, ← roundTrips_iff hfit (hC.numbers e he),
      Option.bind_eq_some_iff]
    constructor
    · rintro ⟨q, hq, hc⟩
      exact ⟨⟨v, q, hv, hq, hc⟩, hb⟩
    · rintro ⟨⟨v', q, hv', hq, hc⟩, -⟩
      cases hv.symm.trans hv'
      exact ⟨q, hq, hc⟩
  · refine iff_of_false (fun h => ?_) fun h => hb h.2
    push Not at hb
    obtain ⟨b, rfl⟩ := hb
    cases hfit with
    | bytes =>
      have hlong := hC.longer b he v hv
      rw [ptypeFromBytes] at h
      cases h
      exact Nat.lt_irrefl _ hlong

/-- The elements of a list that `serde_json` has read. -/
theorem elements_of_readRust {v : Json} (hv : readRust C (docOf (.list es)) = some v) :
    (docOf (.list es)).depth < recursionLimit ∧
      ∃ vs, v = .arr vs ∧ List.Forall₂ (fun e v => toRust C (docOf e) = some v) es vs := by
  unfold readRust at hv
  split_ifs at hv with hd
  rw [toRust_list] at hv
  obtain ⟨vs, hvs, rfl⟩ := Option.map_eq_some_iff.1 hv
  exact ⟨hd, vs, rfl, forall₂_of_mapM hvs⟩

theorem readRust_of_elements {vs : List Json} (hd : (docOf (.list es)).depth < recursionLimit)
    (hvs : List.Forall₂ (fun e v => toRust C (docOf e) = some v) es vs) :
    readRust C (docOf (.list es)) = some (.arr vs) := by
  rw [readRust_of_depth hd, toRust_list]
  refine Option.map_eq_some_iff.2 ⟨vs, ?_, rfl⟩
  clear hd
  induction hvs with
  | nil => rfl
  | cons hv _ ih =>
    rw [List.mapM_cons, hv, ih]
    rfl

theorem toRust_of_survives (hC : Documented C es) {e : PType} (he : e ∈ es) (hfit : Fits e ann)
    (h : Survives C e) : ∃ v, toRust C (docOf e) = some v := by
  obtain ⟨v, -, hv, -, -⟩ := (roundTrips_iff hfit (hC.numbers e he)).2 h
  exact ⟨v, hv⟩

theorem elements_of_survive (hC : Documented C es) (hfit : ∀ e ∈ es, Fits e ann)
    (h : ∀ e ∈ es, Survives C e) :
    ∃ vs, List.Forall₂ (fun e v => toRust C (docOf e) = some v) es vs := by
  have hex : ∀ e ∈ es, ∃ v, toRust C (docOf e) = some v :=
    fun e he => toRust_of_survives hC he (hfit e he) (h e he)
  clear hC hfit h
  induction es with
  | nil => exact ⟨[], .nil⟩
  | cons e es ih =>
    obtain ⟨v, hv⟩ := hex e List.mem_cons_self
    obtain ⟨vs, hvs⟩ := ih fun e he => hex e (List.mem_cons_of_mem _ he)
    exact ⟨v :: vs, .cons hv hvs⟩

/-! ## Unfolding -/

theorem fromSlice_of_unfoldAsset {S : Serde} {A B : Assets} {assets : Specs} {name : String}
    {spec : AssetSpec} {bytes : Bytes} {specs : List AssetSpec}
    (hspec : assets.get? name = some spec) (hload : A.loadAssetFromSpec spec = .ok bytes)
    (h : A.unfoldAsset S assets name = .ok (specs, B)) : ∃ v, S.fromSlice bytes = .ok v := by
  rw [Assets.unfoldAsset, okOr_eq_ok.2 hspec] at h
  simp only [bind, Except.bind, hload] at h
  cases hread : S.listFromSlice bytes with
  | error e =>
    rw [hread] at h
    cases h
  | ok vs => exact ⟨.arr vs, Serde.listFromSlice_eq_ok.1 hread⟩

/-- Any bytes may be the first asset of a storage. -/
theorem exists_asset (bytes : Bytes) : ∃ A : Assets, A.Fresh ∧
    A.loadAssetFromSpec memorySpec = .ok bytes := by
  let storage : AssetStorage := { kind := .memory, store := HashMap.insert ∅ 0 bytes }
  refine ⟨{ registry := HashMap.insert ∅ "memory" storage, fresh := 1 }, ?_, ?_⟩
  · intro name storage key hs hkey
    have hpos : key ≠ 0 := by
      simp only at hkey
      omega
    rw [HashMap.get?_insert] at hs
    split_ifs at hs
    · cases hs
      rw [HashMap.get?_insert_ne _ _ hpos]
      rfl
    · cases hs
  · refine Assets.loadAssetFromSpec_eq_ok.2 ⟨_, HashMap.get?_insert_self _ _ _, ?_⟩
    exact HashMap.get?_insert_self _ _ _

/-- What relates the elements of three lists of one length. -/
theorem forall_of_forall₂ {α β γ : Type} {R : α → β → Prop} {S : α → γ → Prop} {T : β → γ → Prop}
    {P : β → Prop} {l : List α} {m : List β} (hR : List.Forall₂ R l m) :
    ∀ {n : List γ}, List.Forall₂ S l n → List.Forall₂ T m n →
      (∀ a b c, b ∈ m → R a b → S a c → T b c → P b) → ∀ b ∈ m, P b := by
  induction hR with
  | nil => exact fun _ _ _ => nofun
  | cons hab _ ih =>
    rintro n (_ | ⟨hac, hS⟩) (_ | ⟨hbc, hT⟩) hP b hb
    rcases List.mem_cons.1 hb with rfl | hb
    · exact hP _ _ _ hb hab hac hbc
    · exact ih hS hT (fun a b c hb => hP a b c (List.mem_cons_of_mem _ hb)) b hb

/-- Two relations that meet on the right make up one on the left. -/
theorem forall₂_trans {α β γ : Type} {R : α → γ → Prop} {S : β → γ → Prop} {T : α → β → Prop}
    {l : List α} {m : List β} {n : List γ} (hR : List.Forall₂ R l n) (hS : List.Forall₂ S m n)
    (hT : ∀ a b c, b ∈ m → c ∈ n → R a c → S b c → T a b) : List.Forall₂ T l m := by
  induction hS generalizing l with
  | nil =>
    cases hR
    exact .nil
  | cons hbc _ ih =>
    cases hR with
    | cons hac hR =>
      refine .cons (hT _ _ _ List.mem_cons_self List.mem_cons_self hac hbc) ?_
      refine ih hR fun a b c hb hc => ?_
      exact hT a b c (List.mem_cons_of_mem _ hb) (List.mem_cons_of_mem _ hc)

/-- Unfolding gives back the elements exactly when the list is not too deep and each element
survives and is not bytes. -/
theorem unfolds_iff_survives (hC : Documented C es) (hfit : ∀ e ∈ es, Fits e ann) :
    Unfolds C es ann ↔ (docOf (.list es)).depth < recursionLimit ∧
      ∀ e ∈ es, Survives C e ∧ ∀ b, e ≠ .bytes b := by
  have hlist : bytesFromPtype C (.list es) = C.dumps (docOf (.list es)) := rfl
  constructor
  · intro h
    obtain ⟨A, hf, hload⟩ := exists_asset (bytesFromPtype C (.list es))
    have hspec : HashMap.get? ((∅ : Specs).insert "list" memorySpec) "list" = some memorySpec :=
      HashMap.get?_insert_self _ _ _
    obtain ⟨specs, B, hunfold, helems⟩ := h A _ "list" memorySpec hf hspec hload
    obtain ⟨v, hv⟩ := fromSlice_of_unfoldAsset hspec hload hunfold
    obtain ⟨v, hread⟩ : ∃ v, readRust C (docOf (.list es)) = some v := by
      refine Option.ne_none_iff_exists'.1 fun hnone => ?_
      exact hC.rejects _ List.mem_cons_self hnone v hv
    have hslice := hC.reads _ List.mem_cons_self v hread
    obtain ⟨hd, vs, rfl, hvs⟩ := elements_of_readRust hread
    obtain ⟨specs', B', hunfold', hvecs⟩ := Assets.unfoldAsset_of_list hf hspec hload hslice
    cases hunfold.symm.trans hunfold'
    refine ⟨hd, forall_of_forall₂ helems hvecs hvs ?_⟩
    rintro spec e v he ⟨bytes, hbytes, hdec⟩ hvec hv
    cases hbytes.symm.trans hvec
    have hde : (docOf e).depth < recursionLimit := Nat.lt_trans (depth_lt_of_mem he) hd
    exact (ptypeFromBytes_toVec_iff hC he (hfit e he) hde hv).1 hdec
  · rintro ⟨hd, hes⟩ A assets name spec hf hspec hload
    obtain ⟨vs, hvs⟩ := elements_of_survive hC hfit fun e he => (hes e he).1
    have hslice := hC.reads _ List.mem_cons_self _ (readRust_of_elements hd hvs)
    obtain ⟨specs, B, hunfold, hvecs⟩ := Assets.unfoldAsset_of_list hf hspec hload hslice
    refine ⟨specs, B, hunfold, forall₂_trans hvecs hvs ?_⟩
    intro spec e v he _ hvec hv
    have hde : (docOf e).depth < recursionLimit := Nat.lt_trans (depth_lt_of_mem he) hd
    exact ⟨_, hvec, (ptypeFromBytes_toVec_iff hC he (hfit e he) hde hv).2 (hes e he)⟩

/-! ## Folding -/

theorem mapM_loadValue {S : Serde} {A : Assets} {specs : List AssetSpec} {vs : List Json}
    (h : List.Forall₂ (fun spec v => A.loadValue S spec = .ok v) specs vs) :
    specs.mapM (A.loadValue S) = .ok vs := by
  induction h with
  | nil => rfl
  | cons hv _ ih =>
    rw [List.mapM_cons, hv]
    simp only [bind, Except.bind, ih, pure, Except.pure]

theorem loadValue_of_load {S : Serde} {A : Assets} {spec : AssetSpec} {bytes : Bytes} {v : Json}
    (hload : A.loadAssetFromSpec spec = .ok bytes) (hread : S.fromSlice bytes = .ok v) :
    A.loadValue S spec = .ok v := by
  rw [Assets.loadValue, hload]
  simp only [bind, Except.bind, hread, pure, Except.pure]

/-- Elements that survive and are not bytes are folded into their list, which Python reads. -/
theorem folds_of_survive (hC : Documented C es) (hfit : ∀ e ∈ es, Fits e ann)
    (hd : (docOf (.list es)).depth < recursionLimit)
    (hes : ∀ e ∈ es, Survives C e ∧ ∀ b, e ≠ .bytes b) : Folds C es ann := by
  intro A storageName specs hf hreg hspecs
  obtain ⟨vs, hvs⟩ := elements_of_survive hC hfit fun e he => (hes e he).1
  have hvalues : List.Forall₂ (fun spec v => A.loadValue C.serde spec = .ok v) specs vs := by
    refine forall₂_trans hspecs hvs.flip ?_
    intro spec v e _ he hload hv
    have hde : (docOf e).depth < recursionLimit := Nat.lt_trans (depth_lt_of_mem he) hd
    rw [bytesFromPtype_of_ne (hes e he).2] at hload
    exact loadValue_of_load hload
      (hC.reads e (List.mem_cons_of_mem _ he) v ((readRust_of_depth hde).trans hv))
  obtain ⟨spec, B, hsave, -⟩ := Assets.saveAsset_ok hreg (C.serde.toVec (.arr vs))
  refine ⟨spec, B, ?_, C.serde.toVec (.arr vs), (Assets.saveAsset_spec hf hsave).2.2, ?_⟩
  · rw [Assets.foldAssets, mapM_loadValue hvalues]
    exact hsave
  · have hread := readRust_of_elements hd hvs
    have hann : Annotation.list ann ≠ .bytes := Annotation.noConfusion
    rw [ptypeFromBytes_of_ne hann (hC.writes _ List.mem_cons_self _ hread)]
    have htrip : RoundTrips C (.list ann) (.list es) := by
      refine (roundTrips_list_iff fun e he => ?_).2 (.list fun e he => (hes e he).1)
      exact roundTrips_iff (hfit e he) (hC.numbers e he)
    obtain ⟨v, q, hv, hq, hc⟩ := htrip
    cases ((readRust_of_depth hd).symm.trans hread).symm.trans hv
    exact Option.bind_eq_some_iff.2 ⟨q, hq, hc⟩

/-- A list comes through `unfold_asset` and through `fold_assets` exactly when it nests less than
128 deep and none of its elements is bytes or has parts that `serde_json` does not hold. -/
theorem map_elements_survive_iff (hC : Documented C es) (hfit : ∀ e ∈ es, Fits e ann) :
    Unfolds C es ann ∧ Folds C es ann ↔
      (docOf (.list es)).depth < recursionLimit ∧
        ∀ e ∈ es, Survives C e ∧ ∀ b, e ≠ .bytes b := by
  rw [unfolds_iff_survives hC hfit]
  exact ⟨fun h => h.1, fun h => ⟨h, folds_of_survive hC hfit h.1 h.2⟩⟩

/-- The bytes of a text that is given in parts. -/
def asciiBytes (parts : List String) : Bytes :=
  parts.flatMap fun s => s.toList.map fun c => UInt8.ofNat c.toNat

/-- A codec that knows an object, the empty one, and the list that has the object first: the value,
the document that Python reads from it, the texts of Python and those of `serde_json`. -/
def knownCodec (v : Json) (d : Doc) (rest : List Json) (restDocs : List Doc)
    (text listText rust rustList : List String) : PyCodec where
  dumps
    | .arr _ => asciiBytes listText
    | .obj [] => asciiBytes ["\x7b\x7d"]
    | _ => asciiBytes text
  loads bytes :=
    if bytes = asciiBytes rust then some d
    else if bytes = asciiBytes rustList then some (.arr (d :: restDocs))
    else if bytes = asciiBytes ["\x7b\x7d"] then some (.obj [])
    else none
  serde :=
    { toVec := fun
        | .arr _ => asciiBytes rustList
        | .obj [] => asciiBytes ["\x7b\x7d"]
        | _ => asciiBytes rust
      fromSlice := fun bytes =>
        if bytes = asciiBytes text then .ok v
        else if bytes = asciiBytes listText then .ok (.arr (v :: rest))
        else if bytes = asciiBytes ["\x7b\x7d"] then .ok (.obj [])
        else .error "expected value" }
  readFloat x := some x
  readInt _ := none
  floatText _ := "1.5"
  number literal := if literal = "1.5" then .float 1.5 else .null

/-- What is relied on, for a list that is read as the given values. -/
theorem documented_of_values (vs : List Json) (hd : (docOf (.list es)).depth < recursionLimit)
    (hn : ∀ e ∈ es, Numbers C (docOf e))
    (hlist : C.serde.fromSlice (C.dumps (docOf (.list es))) = .ok (.arr vs) ∧
      C.loads (C.serde.toVec (.arr vs)) = some (ofRust C (.arr vs)))
    (hall : List.Forall₂ (fun e v => toRust C (docOf e) = some v ∧
      C.serde.fromSlice (C.dumps (docOf e)) = .ok v ∧
      C.loads (C.serde.toVec v) = some (ofRust C v) ∧
      ∀ b, e = .bytes b → b.length < (C.serde.toVec v).length) es vs) : Documented C es := by
  have hread : ∀ p ∈ PType.list es :: es, ∃ v, readRust C (docOf p) = some v ∧
      C.serde.fromSlice (C.dumps (docOf p)) = .ok v ∧
        C.loads (C.serde.toVec v) = some (ofRust C v) := by
    intro p hp
    rcases List.mem_cons.1 hp with rfl | hp
    · exact ⟨_, readRust_of_elements hd (hall.imp fun _ _ h => h.1), hlist⟩
    · obtain ⟨v, -, hv, hslice, hload, -⟩ := forall₂_mem_left hall hp
      refine ⟨v, ?_, hslice, hload⟩
      rw [readRust_of_depth (Nat.lt_trans (depth_lt_of_mem hp) hd), hv]
  refine ⟨hn, fun p hp w hw => ?_, fun p hp hnone => ?_, fun p hp w hw => ?_, fun b hb w hw => ?_⟩
  · obtain ⟨v, hv, hslice, -⟩ := hread p hp
    cases hw.symm.trans hv
    exact hslice
  · obtain ⟨v, hv, -⟩ := hread p hp
    cases hnone.symm.trans hv
  · obtain ⟨v, hv, -, hload⟩ := hread p hp
    cases hw.symm.trans hv
    exact hload
  · obtain ⟨v, -, hv, -, -, hlonger⟩ := forall₂_mem_left hall hb
    cases hw.symm.trans hv
    exact hlonger b rfl

/-! ### Dicts of bytes and of complex numbers -/

/-- `{"b": [b"Hi"], "n": None}`. -/
def bytesDict : PType :=
  .dict [(pyStr "b", .list [.bytes [72, 105]]), (pyStr "n", .none)]

def bytesDictJson : Json :=
  .obj [("b", .arr [.obj [("__tkr_bytes__", .bool true), ("bytes", .str "SGk=")]]), ("n", .null)]

def bytesDictCodec : PyCodec :=
  knownCodec bytesDictJson (docOf bytesDict) [.obj []] [.obj []]
    ["\x7b\n  \"b\": [\n    \x7b\n      \"__tkr_bytes__\": true,\n",
      "      \"bytes\": \"SGk=\"\n    \x7d\n  ],\n  \"n\": null\n\x7d"]
    ["[\n  \x7b\n    \"b\": [\n      \x7b\n        \"__tkr_bytes__\": true,\n",
      "        \"bytes\": \"SGk=\"\n      \x7d\n    ],\n    \"n\": null\n  \x7d,\n  \x7b\x7d\n]"]
    ["\x7b\"b\":[\x7b\"__tkr_bytes__\":true,\"bytes\":\"SGk=\"\x7d],\"n\":null\x7d"]
    ["[\x7b\"b\":[\x7b\"__tkr_bytes__\":true,\"bytes\":\"SGk=\"\x7d],\"n\":null\x7d,\x7b\x7d]"]

/-- `{"n": None, "z": 1.5 + 1.5j}`. -/
def complexDict : PType := .dict [(pyStr "n", .none), (pyStr "z", .complex 1.5 1.5)]

def complexDictJson : Json := .obj [("n", .null), ("z", .arr [.num "1.5", .num "1.5"])]

def complexDictCodec : PyCodec :=
  knownCodec complexDictJson (docOf complexDict) [.obj []] [.obj []]
    ["\x7b\n  \"n\": null,\n  \"z\": [\n    1.5,\n    1.5\n  ]\n\x7d"]
    ["[\n  \x7b\n    \"n\": null,\n    \"z\": [\n      1.5,\n      1.5\n    ]\n  \x7d,\n",
      "  \x7b\x7d\n]"]
    ["\x7b\"n\":null,\"z\":[1.5,1.5]\x7d"]
    ["[\x7b\"n\":null,\"z\":[1.5,1.5]\x7d,\x7b\x7d]"]

theorem forall_mem_pair {α : Type} {P : α → Prop} {a b : α} :
    (∀ x ∈ [a, b], P x) ↔ P a ∧ P b := by
  rw [List.forall_mem_cons, List.forall_mem_singleton]

theorem numbers_empty (C : PyCodec) : Numbers C (docOf (.dict [])) :=
  .obj fun _ he => absurd he List.not_mem_nil

set_option maxRecDepth 2000 in
theorem bytesDict_documented : Documented bytesDictCodec [bytesDict, .dict []] := by
  refine documented_of_values [bytesDictJson, .obj []] (by decide)
    (forall_mem_pair.2 ⟨?_, numbers_empty _⟩) ⟨rfl, rfl⟩
    (.cons ⟨rfl, rfl, rfl, fun b hb => ?_⟩ (.cons ⟨rfl, rfl, rfl, fun b hb => ?_⟩ .nil))
  · refine .obj (forall_mem_pair.2 ⟨.arr (List.forall_mem_singleton.2 ?_), .null⟩)
    exact .obj (forall_mem_pair.2 ⟨.bool true, .str _⟩)
  · cases hb
  · cases hb

theorem complexDict_documented : Documented complexDictCodec [complexDict, .dict []] := by
  refine documented_of_values [complexDictJson, .obj []] (by decide)
    (forall_mem_pair.2 ⟨?_, numbers_empty _⟩) ⟨rfl, rfl⟩
    (.cons ⟨rfl, rfl, rfl, fun b hb => ?_⟩ (.cons ⟨rfl, rfl, rfl, fun b hb => ?_⟩ .nil))
  · have hfloat : Numbers complexDictCodec (.float 1.5) := by
      refine .float fun y hy => ?_
      cases hy
      rfl
    exact .obj (forall_mem_pair.2 ⟨.null, .arr (forall_mem_pair.2 ⟨hfloat, hfloat⟩)⟩)
  · cases hb
  · cases hb

theorem map_elements_survive_dicts :
    (Unfolds bytesDictCodec [bytesDict, .dict []] (.dict (.list .bytes)) ∧
      Folds bytesDictCodec [bytesDict, .dict []] (.dict (.list .bytes))) ∧
    (Unfolds complexDictCodec [complexDict, .dict []] (.dict .complex) ∧
      Folds complexDictCodec [complexDict, .dict []] (.dict .complex)) := by
  have hempty : ∀ arg, Fits (.dict []) (.dict arg) := fun _ =>
    .dict (fun _ he => absurd he List.not_mem_nil) fun _ he => absurd he List.not_mem_nil
  have hnone : ∀ C, Survives C (.dict []) ∧ ∀ b, PType.dict [] ≠ .bytes b := fun _ =>
    ⟨.dict (fun _ he => absurd he List.not_mem_nil) (.inl List.not_mem_nil)
      fun _ he => absurd he List.not_mem_nil, fun b hb => by cases hb⟩
  constructor
  · refine (map_elements_survive_iff bytesDict_documented (forall_mem_pair.2 ⟨?_, hempty _⟩)).2
      ⟨by decide, forall_mem_pair.2 ⟨⟨?_, fun b hb => ?_⟩, hnone _⟩⟩
    · refine .dict (by decide) (forall_mem_pair.2 ⟨.list ?_, .none _ ?_⟩)
      · exact List.forall_mem_singleton.2 (.bytes _)
      · exact fun h => by cases h
    · refine .dict (by decide) (.inl (by decide)) (forall_mem_pair.2 ⟨.list ?_, .none⟩)
      exact List.forall_mem_singleton.2 (.bytes _)
    · cases hb
  · refine (map_elements_survive_iff complexDict_documented (forall_mem_pair.2 ⟨?_, hempty _⟩)).2
      ⟨by decide, forall_mem_pair.2 ⟨⟨?_, fun b hb => ?_⟩, hnone _⟩⟩
    · refine .dict (by decide) (forall_mem_pair.2 ⟨.none _ ?_, .complex _ _⟩)
      exact fun h => by cases h
    · exact .dict (by decide) (.inl (by decide)) (forall_mem_pair.2 ⟨.none, .complex rfl rfl⟩)
    · cases hb

/-! ### Bytes -/

/-- The bytes `Hi`. -/
def someBytes : PType := .bytes [72, 105]

def bytesJson : Json := .obj [("__tkr_bytes__", .bool true), ("bytes", .str "SGk=")]

def bytesCodec : PyCodec :=
  knownCodec bytesJson (docOf someBytes) [] []
    ["\x7b\n  \"__tkr_bytes__\": true,\n  \"bytes\": \"SGk=\"\n\x7d"]
    ["[\n  \x7b\n    \"__tkr_bytes__\": true,\n    \"bytes\": \"SGk=\"\n  \x7d\n]"]
    ["\x7b\"__tkr_bytes__\":true,\"bytes\":\"SGk=\"\x7d"]
    ["[\x7b\"__tkr_bytes__\":true,\"bytes\":\"SGk=\"\x7d]"]

theorem bytesCodec_documented : Documented bytesCodec [someBytes] := by
  refine documented_of_values [bytesJson] (by decide) (List.forall_mem_singleton.2 ?_) ⟨rfl, rfl⟩
    (.cons ⟨rfl, rfl, rfl, fun b hb => ?_⟩ .nil)
  · exact .obj (forall_mem_pair.2 ⟨.bool true, .str _⟩)
  · cases hb
    decide

/-- A list of bytes does not come through `unfold_asset`. -/
theorem map_elements_lost : ¬ (Unfolds bytesCodec [someBytes] .bytes ∧
    Folds bytesCodec [someBytes] .bytes) := by
  rintro ⟨h, -⟩
  have hfit : ∀ e ∈ [someBytes], Fits e .bytes := by
    intro e he
    rw [List.mem_singleton.1 he]
    exact .bytes _
  have helems := ((unfolds_iff_survives bytesCodec_documented hfit).1 h).2
  exact (helems someBytes List.mem_cons_self).2 _ rfl

end Tierkreis
