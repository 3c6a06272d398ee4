import Tierkreis.Python.FoldUnfold
import Tierkreis.Python.ReadBack

/-!
# Plain values among annotated ones

A value without structs, tuples and convertible classes, under an annotation without
unions, is written and read as the plain codec has it, whatever the classes of the
worker are.
-/

namespace Tierkreis.Annotated

open Lib

mutual

def ofPType : PType → Val
  | .none => .none
  | .bool b => .bool b
  | .int n => .int n
  | .float x => .float x
  | .str s => .str s
  | .bytes b => .bytes b
  | .complex re im => .complex re im
  | .list items => .list (ofPTypes items)
  | .dict entries => .dict (strEntries (ofEntries entries))

def ofPTypes : List PType → List Val
  | [] => []
  | p :: ps => ofPType p :: ofPTypes ps

def ofEntries : List (PyStr × PType) → List (PyStr × Val)
  | [] => []
  | (k, p) :: ps => (k, ofPType p) :: ofEntries ps

end

def hintOf : Annotation → Hint
  | .none => .none
  | .bool => .bool
  | .int => .int
  | .float => .float
  | .str => .str
  | .bytes => .bytes
  | .complex => .complex
  | .list arg => .list (hintOf arg)
  | .dict arg => .dict .str (hintOf arg)

/-- The module `json` of a codec. -/
def jsonModule (C : PyCodec) (floatRepr : Float → PyStr) : PyJson := ⟨C.dumps, C.loads, floatRepr⟩

/-- No object of the document has a key twice. -/
inductive DistinctKeys : Doc → Prop
  | null : DistinctKeys .null
  | bool (b : Bool) : DistinctKeys (.bool b)
  | int (n : Int) : DistinctKeys (.int n)
  | float (x : Float) : DistinctKeys (.float x)
  | str (s : PyStr) : DistinctKeys (.str s)
  | arr {items : List Doc} (h : ∀ d ∈ items, DistinctKeys d) : DistinctKeys (.arr items)
  | obj {entries : List (PyStr × Doc)} (hk : (entries.map Prod.fst).Nodup)
      (h : ∀ e ∈ entries, DistinctKeys e.2) : DistinctKeys (.obj entries)

theorem ofPTypes_eq (ps : List PType) : ofPTypes ps = ps.map ofPType := by
  induction ps with
  | nil => rfl
  | cons p ps ih => rw [ofPTypes, ih, List.map_cons]

theorem ofEntries_eq (es : List (PyStr × PType)) :
    ofEntries es = es.map fun e => (e.1, ofPType e.2) := by
  induction es with
  | nil => rfl
  | cons e es ih => rw [ofEntries, ih, List.map_cons]

theorem strEntries_ofEntries (es : List (PyStr × PType)) :
    strEntries (ofEntries es) = es.map fun e => (Val.str e.1, ofPType e.2) := by
  rw [strEntries, ofEntries_eq, List.map_map]
  rfl

/-! ## Writing -/

section Writing

variable {K : Classes} {J : PyJson}

/-- The annotation of a value that fits asks for nothing. -/
theorem ser_ofPType {p : PType} {ann : Annotation} (h : Fits p ann) :
    serFromPtype K (some (hintOf ann)) (ofPType p) = some (ofPType p) := by
  induction h with
  | @list items arg h ih =>
    have hs : ∀ ps : List PType, (∀ p ∈ ps, serFromPtype K (some (hintOf arg)) (ofPType p) =
        some (ofPType p)) → serItems K (some (hintOf arg)) (ofPTypes ps) = some (ofPTypes ps) := by
      intro ps
      induction ps with
      | nil => exact fun _ => rfl
      | cons p ps ihp =>
        intro hps
        rw [ofPTypes, serItems, hps p (.head _), ihp fun q hq => hps q (.tail _ hq)]
        rfl
    exact congrArg (Option.map Val.list) (hs items ih)
  | @dict entries arg hk h ih =>
    have hs : ∀ es : List (PyStr × PType), (∀ e ∈ es,
        serFromPtype K (some (hintOf arg)) (ofPType e.2) = some (ofPType e.2)) →
        serEntries K (some (hintOf arg)) (strEntries (ofEntries es)) =
          some (strEntries (ofEntries es)) := by
      intro es
      induction es with
      | nil => exact fun _ => rfl
      | cons e es ihe =>
        intro hes
        change serEntries K _ ((.str e.1, ofPType e.2) :: strEntries (ofEntries es)) = _
        rw [serEntries, hes e (.head _), ihe fun q hq => hes q (.tail _ hq)]
        rfl
    exact congrArg (Option.map Val.dict) (hs entries ih)
  | _ => rfl

mutual

theorem jsonDoc_ofPType : ∀ p : PType, jsonDoc J (ofPType p) = some (Tierkreis.docOf p)
  | .none => rfl
  | .bool _ => rfl
  | .int _ => rfl
  | .float _ => rfl
  | .str _ => rfl
  | .bytes _ => rfl
  | .complex _ _ => rfl
  | .list items => congrArg (Option.map Doc.arr) (jsonItems_ofPTypes items)
  | .dict entries => congrArg (Option.map Doc.obj) (jsonEntries_ofEntries entries)

theorem jsonItems_ofPTypes : ∀ ps : List PType,
    jsonItems J (ofPTypes ps) = some (Tierkreis.docItems ps)
  | [] => rfl
  | p :: ps => by
    rw [ofPTypes, jsonItems, jsonDoc_ofPType p, jsonItems_ofPTypes ps]
    rfl

theorem jsonEntries_ofEntries : ∀ es : List (PyStr × PType),
    jsonEntries J (strEntries (ofEntries es)) = some (Tierkreis.docEntries es)
  | [] => rfl
  | (k, p) :: es => by
    change jsonEntries J ((.str k, ofPType p) :: strEntries (ofEntries es)) = _
    rw [jsonEntries, jsonDoc_ofPType p, jsonEntries_ofEntries es]
    rfl

end

theorem bytesFromPtype_ofPType (C : PyCodec) (floatRepr : Float → PyStr) {p : PType}
    {ann : Annotation} (h : Fits p ann) :
    bytesFromPtype (jsonModule C floatRepr) K (ofPType p) (hintOf ann) =
      some (Tierkreis.bytesFromPtype C p) := by
  have hdoc := jsonDoc_ofPType (J := jsonModule C floatRepr) p
  unfold bytesFromPtype
  rw [ser_ofPType h]
  cases p with
  | bytes b => rfl
  | _ => exact congrArg (Option.map C.dumps) hdoc

end Writing

/-! ## Reading -/

section Reading

variable {K : Classes}

theorem objectHook_ofEntries (es : List (PyStr × PType)) :
    objectHook (ofEntries es) = (Tierkreis.objectHook es).map ofPType := by
  have hlookup : ∀ k : PyStr, (ofEntries es).lookup k = (es.lookup k).map ofPType := by
    intro k
    induction es with
    | nil => rfl
    | cons e es ih =>
      rw [ofEntries, List.lookup_cons, List.lookup_cons]
      cases k == e.1
      · exact ih
      · rfl
  unfold objectHook Tierkreis.objectHook
  rw [hlookup, hlookup]
  cases es.lookup (pyStr "__tkr_bytes__") with
  | none => rfl
  | some p =>
    cases es.lookup (pyStr "bytes") with
    | none => rfl
    | some q =>
      cases q with
      | str s =>
        change (b64decode s).map Val.bytes = ((b64decode s).map PType.bytes).map ofPType
        rw [Option.map_map]
        rfl
      | bytes b =>
        change (Base64.decode (b.map UInt8.toNat)).map Val.bytes =
          ((Base64.decode (b.map UInt8.toNat)).map PType.bytes).map ofPType
        rw [Option.map_map]
        rfl
      | _ => rfl

theorem decode_ofPType {d : Doc} (h : DistinctKeys d) :
    decode d = (Tierkreis.decode d).map ofPType := by
  induction h with
  | @arr items h ih =>
    have hs : ∀ ds : List Doc, (∀ d ∈ ds, decode d = (Tierkreis.decode d).map ofPType) →
        decodeItems ds = (Tierkreis.decodeItems ds).map ofPTypes := by
      intro ds
      induction ds with
      | nil => exact fun _ => rfl
      | cons d ds ihd =>
        intro hds
        rw [decodeItems, Tierkreis.decodeItems, hds d (.head _),
          ihd fun e he => hds e (.tail _ he)]
        cases Tierkreis.decode d with
        | none => rfl
        | some p => cases Tierkreis.decodeItems ds <;> rfl
    rw [decode, Tierkreis.decode, hs items ih]
    cases Tierkreis.decodeItems items <;> rfl
  | @obj entries hk h ih =>
    have hs : ∀ es : List (PyStr × Doc), (∀ e ∈ es, decode e.2 = (Tierkreis.decode e.2).map ofPType) →
        decodeEntries es = (Tierkreis.decodeEntries es).map ofEntries ∧
          ∀ ps ∈ Tierkreis.decodeEntries es, ps.map Prod.fst = es.map Prod.fst := by
      intro es
      induction es with
      | nil => exact fun _ => ⟨rfl, fun ps hps => by cases hps; rfl⟩
      | cons e es ihe =>
        intro hes
        obtain ⟨hrest, hkeys⟩ := ihe fun e' he => hes e' (.tail _ he)
        rw [decodeEntries, Tierkreis.decodeEntries, hes e (.head _), hrest]
        cases Tierkreis.decode e.2 with
        | none => exact ⟨rfl, fun ps hps => by cases hps⟩
        | some p =>
          cases hps : Tierkreis.decodeEntries es with
          | none => exact ⟨rfl, fun ps hps => by cases hps⟩
          | some ps =>
            refine ⟨rfl, fun qs hqs => ?_⟩
            cases hqs
            exact congrArg (e.1 :: ·) (hkeys ps hps)
    obtain ⟨hentries, hkeys⟩ := hs entries ih
    rw [decode, Tierkreis.decode, hentries]
    cases hps : Tierkreis.decodeEntries entries with
    | none => rfl
    | some ps =>
      have hnodup : ((ofEntries ps).map Prod.fst).Nodup := by
        rw [ofEntries_eq, List.map_map]
        exact (hkeys ps hps).symm ▸ hk
      change objectHook (dictOf (ofEntries ps)) = _
      rw [dictOf_of_nodup hnodup]
      exact objectHook_ofEntries ps
  | _ => rfl

theorem toOption_bind {α β : Type} (x : Except Exc α) (f : α → Except Exc β) :
    (x >>= f).toOption = x.toOption.bind fun a => (f a).toOption := by
  cases x <;> rfl

theorem toOption_mapM {α β : Type} (f : α → Except Exc β) (l : List α) :
    (l.mapM f).toOption = l.mapM fun a => (f a).toOption := by
  induction l with
  | nil => rfl
  | cons a l ih =>
    rw [List.mapM_cons, List.mapM_cons, ← ih]
    cases f a with
    | error e => rfl
    | ok b => cases l.mapM f <;> rfl

theorem mapM_map_of_forall {α β γ δ : Type} {f : γ → Option δ} {g : α → Option β} {i : α → γ}
    {o : β → δ} (h : ∀ a, f (i a) = (g a).map o) (l : List α) :
    (l.map i).mapM f = (l.mapM g).map (List.map o) := by
  induction l with
  | nil => rfl
  | cons a l ih =>
    rw [List.map_cons, List.mapM_cons, List.mapM_cons, h, ih]
    cases g a with
    | none => rfl
    | some b => cases l.mapM g <;> rfl

theorem realOf_ofPType (p : PType) : (realOf (ofPType p)).toOption = Tierkreis.realOf p := by
  cases p with
  | int n =>
    change (if (Float.ofInt n).isFinite then .ok (Float.ofInt n) else .error .other :
      Except Exc Float).toOption = if (Float.ofInt n).isFinite then some (Float.ofInt n) else none
    split_ifs <;> rfl
  | _ => rfl

theorem complexOf_ofPType (p : PType) :
    (complexOf (ofPType p)).toOption = (Tierkreis.complexOf p).map ofPType := by
  cases p with
  | bytes b =>
    match b with
    | [] => rfl
    | [_] => rfl
    | _ :: _ :: _ => rfl
  | list items =>
    match items with
    | [] => rfl
    | [_] => rfl
    | re :: im :: _ =>
      have hre := realOf_ofPType re
      have him := realOf_ofPType im
      change (realOf (ofPType re) >>= fun x => realOf (ofPType im) >>= fun y =>
        pure (.complex x y)).toOption = ((Tierkreis.realOf re).bind fun x =>
          (Tierkreis.realOf im).bind fun y => some (.complex x y)).map ofPType
      rw [← hre, ← him]
      cases realOf (ofPType re) with
      | error e => rfl
      | ok x => cases realOf (ofPType im) <;> rfl
  | _ => rfl

theorem iterate_ofPType (p : PType) :
    (iterate (ofPType p)).toOption = (Tierkreis.iterate p).map (List.map ofPType) := by
  cases p with
  | list items => exact congrArg some (ofPTypes_eq items)
  | str s =>
    refine congrArg some ?_
    rw [List.map_map]
    rfl
  | bytes b =>
    refine congrArg some ?_
    rw [List.map_map]
    rfl
  | dict entries =>
    refine congrArg some ?_
    rw [strEntries_ofEntries, List.map_map, List.map_map]
    rfl
  | _ => rfl

theorem coerce_list {arg : Hint} {v : Val} (h : v ≠ .none) :
    coerceFromAnnotation K (.list arg) v = (iterate v >>= fun items =>
      (items.mapM <| coerceFromAnnotation K arg) >>= fun xs => pure (.list xs)) := by
  cases v with
  | none => exact absurd rfl h
  | _ => rfl

theorem ofPType_ne_none {p : PType} (h : p ≠ .none) : ofPType p ≠ .none := by
  cases p with
  | none => exact absurd rfl h
  | _ => nofun

/-- Under every annotation. -/
theorem coerce_ofPType (ann : Annotation) (p : PType) :
    (Except.toOption <| coerceFromAnnotation K (hintOf ann) (ofPType p)) =
      (Option.map ofPType <| Tierkreis.coerceFromAnnotation ann p) := by
  induction ann generalizing p with
  | list arg ih =>
    by_cases hp : p = .none
    · subst hp
      rfl
    have hplain : Tierkreis.coerceFromAnnotation (.list arg) p = (Tierkreis.iterate p).bind
        fun items => (items.mapM <| Tierkreis.coerceFromAnnotation arg).map .list := by
      cases p with
      | none => exact absurd rfl hp
      | _ => rfl
    rw [hintOf, coerce_list (ofPType_ne_none hp), hplain, toOption_bind, iterate_ofPType]
    cases Tierkreis.iterate p with
    | none => rfl
    | some items =>
      change Except.toOption ((items.map ofPType).mapM _ >>= fun xs => pure (Val.list xs)) = _
      have hmap := mapM_map_of_forall (f := fun v =>
        Except.toOption <| coerceFromAnnotation K (hintOf arg) v) (i := ofPType) ih items
      rw [toOption_bind, toOption_mapM, hmap]
      change _ = Option.map ofPType (Option.map PType.list (items.mapM _))
      cases items.mapM fun p => Tierkreis.coerceFromAnnotation arg p with
      | none => rfl
      | some ps => exact congrArg (fun vs => some (Val.list vs)) (ofPTypes_eq ps).symm
  | dict arg ih =>
    cases p with
    | dict entries =>
      have hentry : ∀ e : PyStr × PType,
          Except.toOption (do
            let v ← coerceFromAnnotation K (hintOf arg) (ofPType e.2)
            pure (Val.str e.1, v)) =
          (Option.map (fun p => (e.1, p)) <| Tierkreis.coerceFromAnnotation arg e.2).map
            fun e => (Val.str e.1, ofPType e.2) := by
        intro e
        rw [toOption_bind, ih]
        cases Tierkreis.coerceFromAnnotation arg e.2 <;> rfl
      have hmap := mapM_map_of_forall (f := fun e : Val × Val => Except.toOption (do
          let v ← coerceFromAnnotation K (hintOf arg) e.2
          pure (e.1, v)))
        (i := fun e : PyStr × PType => (Val.str e.1, ofPType e.2)) hentry entries
      change ((strEntries (ofEntries entries)).mapM (fun e =>
        coerceFromAnnotation K (hintOf arg) e.2 >>= fun v => pure (e.1, v)) >>= fun es =>
          pure (Val.dict es)).toOption = (Option.map PType.dict (entries.mapM fun e =>
            Option.map (fun p => (e.1, p)) <| Tierkreis.coerceFromAnnotation arg e.2)).map ofPType
      rw [toOption_bind, toOption_mapM, strEntries_ofEntries, hmap]
      cases entries.mapM fun e =>
          Option.map (fun p => (e.1, p)) <| Tierkreis.coerceFromAnnotation arg e.2 with
      | none => rfl
      | some es => exact congrArg (fun vs => some (Val.dict vs)) (strEntries_ofEntries es).symm
    | _ => rfl
  | complex =>
    cases p with
    | none => rfl
    | _ => exact complexOf_ofPType _
  | _ => cases p <;> rfl

theorem ptypeFromBytes_ofPType (C : PyCodec) (floatRepr : Float → PyStr) {bs : Bytes}
    (hbs : ∀ d, C.loads bs = some d → DistinctKeys d) (ann : Annotation) :
    ptypeFromBytes (jsonModule C floatRepr) K bs (hintOf ann) =
      (Tierkreis.ptypeFromBytes C bs ann).map ofPType := by
  have hread : (do
      let d ← C.loads bs
      let p ← decode d
      Except.toOption <| coerceFromAnnotation K (hintOf ann) p) = (do
        let d ← C.loads bs
        let p ← Tierkreis.decode d
        Tierkreis.coerceFromAnnotation ann p).map ofPType := by
    cases hd : C.loads bs with
    | none => rfl
    | some d =>
      change (decode d).bind _ = ((Tierkreis.decode d).bind _).map _
      rw [decode_ofPType (hbs d hd)]
      cases Tierkreis.decode d with
      | none => rfl
      | some p => exact coerce_ofPType ann p
  cases ann with
  | bytes => rfl
  | _ => exact hread

end Reading

/-- The classes of a worker, and what its annotations are else, change nothing for plain values. -/
theorem plain_codec (C : PyCodec) (floatRepr : Float → PyStr) (K : Classes) :
    (∀ p ann, Fits p ann → bytesFromPtype (jsonModule C floatRepr) K (ofPType p) (hintOf ann) =
      some (Tierkreis.bytesFromPtype C p)) ∧
    ∀ bs ann, (∀ d, C.loads bs = some d → DistinctKeys d) →
      ptypeFromBytes (jsonModule C floatRepr) K bs (hintOf ann) =
        (Tierkreis.ptypeFromBytes C bs ann).map ofPType :=
  ⟨fun _ _ h => bytesFromPtype_ofPType C floatRepr h,
    fun _ ann hbs => ptypeFromBytes_ofPType C floatRepr hbs ann⟩

/-- A dict with a list of bytes is written, and read from the text of `serde_json`. -/
theorem plain_codec_bytesDict :
    let J := jsonModule bytesDictCodec fun _ => []
    let K : Classes := ⟨fun _ _ => .error .other, fun _ => [], fun _ => []⟩
    let ann := hintOf (.dict (.list .bytes))
    bytesFromPtype J K (ofPType bytesDict) ann =
        some (bytesDictCodec.dumps (Tierkreis.docOf bytesDict)) ∧
      ptypeFromBytes J K (bytesDictCodec.serde.toVec bytesDictJson) ann =
        some (ofPType bytesDict) := by
  intro J K ann
  have hplain := plain_codec bytesDictCodec (fun _ => []) K
  have hfits : Fits bytesDict (.dict (.list .bytes)) := by
    refine .dict (by decide) (forall_mem_pair.2 ⟨.list ?_, .none _ fun h => by cases h⟩)
    exact List.forall_mem_singleton.2 (.bytes _)
  have hloads : bytesDictCodec.loads (bytesDictCodec.serde.toVec bytesDictJson) =
      some (Tierkreis.docOf bytesDict) := rfl
  have hdistinct : DistinctKeys (Tierkreis.docOf bytesDict) := by
    refine .obj (by decide) (forall_mem_pair.2 ⟨.arr (List.forall_mem_singleton.2 ?_), .null⟩)
    exact .obj (by decide) (forall_mem_pair.2 ⟨.bool true, .str _⟩)
  refine ⟨hplain.1 bytesDict _ hfits, (hplain.2 _ _ fun d hd => ?_).trans ?_⟩
  · cases hloads.symm.trans hd
    exact hdistinct
  · rfl

end Tierkreis.Annotated
