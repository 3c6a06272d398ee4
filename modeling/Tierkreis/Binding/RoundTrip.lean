import Tierkreis.Binding.Value

/-!
# Round trips of bound values

The text of a value is read back as that value when no list in it looks like a
complex number, its floats survive their decimal text, and it is not nested too
deeply. Outputs are converted when no `null` is in a list or dict and a single
output is no `null`.
-/

namespace Tierkreis

open Lib

namespace JsonValue

mutual

/-- Every float replaced by what its text is read as. -/
def reread (f : Float → Option Float) : Value → Option Value
  | .null => some .null
  | .bool b => some (.bool b)
  | .int n => some (.int n)
  | .float x => (f x).map .float
  | .str s => some (.str s)
  | .arr items => (rereadItems f items).map .arr
  | .obj entries => (rereadEntries f entries).map .obj

def rereadItems (f : Float → Option Float) : List Value → Option (List Value)
  | [] => some []
  | v :: vs => do
    let w ← reread f v
    let ws ← rereadItems f vs
    pure (w :: ws)

def rereadEntries (f : Float → Option Float) :
    List (String × Value) → Option (List (String × Value))
  | [] => some []
  | (k, v) :: vs => do
    let w ← reread f v
    let ws ← rereadEntries f vs
    pure ((k, w) :: ws)

end

mutual

/-- How many arrays and objects are open at once. -/
def depth : Value → Nat
  | .arr items => depthItems items + 1
  | .obj entries => depthEntries entries + 1
  | _ => 0

def depthItems : List Value → Nat
  | [] => 0
  | v :: vs => Nat.max (depth v) (depthItems vs)

def depthEntries : List (String × Value) → Nat
  | [] => 0
  | (_, v) :: vs => Nat.max (depth v) (depthEntries vs)

end

mutual

def hasNull : Value → Bool
  | .null => true
  | .arr items => hasNullItems items
  | .obj entries => hasNullEntries entries
  | _ => false

def hasNullItems : List Value → Bool
  | [] => false
  | v :: vs => hasNull v || hasNullItems vs

def hasNullEntries : List (String × Value) → Bool
  | [] => false
  | (_, v) :: vs => hasNull v || hasNullEntries vs

end

end JsonValue

/-- What `serde_json` makes of its own text of `v`: up to 127 levels are read back, each float
as `f` has it. -/
structure ReadsBack (S : ValueSerde) (f : Float → Option Float) (v : Value) : Prop where
  read : v.depth < 128 → (S.fromSlice (S.toVec v)).toOption = v.reread f
  tooDeep : 128 ≤ v.depth → (S.fromSlice (S.toVec v)).toOption = none

namespace BoundValue

def isNumber : BoundValue → Bool
  | .int _ | .float _ => true
  | _ => false

/-- Exactly two numbers are also a complex number. -/
def looksComplex : List BoundValue → Bool
  | [a, b] => a.isNumber && b.isNumber
  | _ => false

mutual

/-- Integers are in range, floats finite and the keys of a dict distinct. -/
def WellFormed : BoundValue → Prop
  | .int n => isI64 n = true
  | .float x => x.isFinite = true
  | .list items => WellFormedItems items
  | .dict entries => (entries.map Prod.fst).Nodup ∧ WellFormedEntries entries
  | _ => True

def WellFormedItems : List BoundValue → Prop
  | [] => True
  | v :: vs => WellFormed v ∧ WellFormedItems vs

def WellFormedEntries : List (String × BoundValue) → Prop
  | [] => True
  | (_, v) :: vs => WellFormed v ∧ WellFormedEntries vs

end

mutual

/-- No list in it looks like a complex number, the parts of complex numbers are finite, and
`f` keeps its floats. -/
def Faithful (f : Float → Option Float) : BoundValue → Prop
  | .float x => f x = some x
  | .complex re im => (re.isFinite = true ∧ f re = some re) ∧ im.isFinite = true ∧ f im = some im
  | .list items => looksComplex items = false ∧ FaithfulItems f items
  | .dict entries => FaithfulEntries f entries
  | _ => True

def FaithfulItems (f : Float → Option Float) : List BoundValue → Prop
  | [] => True
  | v :: vs => Faithful f v ∧ FaithfulItems f vs

def FaithfulEntries (f : Float → Option Float) : List (String × BoundValue) → Prop
  | [] => True
  | (_, v) :: vs => Faithful f v ∧ FaithfulEntries f vs

end

variable {f : Float → Option Float}

theorem floatOf_reread {v : BoundValue} (hv : v.WellFormed) {w : Value}
    (h : v.serialize.reread f = some w) : (floatOf w).isSome = v.isNumber := by
  cases v with
  | float x =>
    simp only [WellFormed] at hv
    simp only [serialize, JsonValue.ofFloat, hv, if_true, JsonValue.reread, Option.map_eq_some_iff] at h
    obtain ⟨y, -, rfl⟩ := h
    rfl
  | complex re im =>
    simp only [serialize, JsonValue.reread, Option.map_eq_some_iff] at h
    obtain ⟨ws, -, rfl⟩ := h
    rfl
  | list items =>
    simp only [serialize, JsonValue.reread, Option.map_eq_some_iff] at h
    obtain ⟨ws, -, rfl⟩ := h
    rfl
  | dict entries =>
    simp only [serialize, JsonValue.reread, Option.map_eq_some_iff] at h
    obtain ⟨ws, -, rfl⟩ := h
    rfl
  | bool b =>
    cases h
    rfl
  | int n =>
    cases h
    rfl
  | string s =>
    cases h
    rfl

theorem complexOf_pair (v w : Value) :
    (complexOf [v, w]).isSome = ((floatOf v).isSome && (floatOf w).isSome) := by
  simp only [complexOf]
  cases floatOf v with
  | none => rfl
  | some x =>
    cases floatOf w with
    | none => rfl
    | some y => rfl

/-- What looks like a complex number before it is written does so afterwards. -/
theorem complexOf_reread {items : List BoundValue} (hv : WellFormedItems items) {ws : List Value}
    (h : JsonValue.rereadItems f (serializeItems items) = some ws) :
    (complexOf ws).isSome = looksComplex items := by
  match items with
  | [] =>
    cases h
    rfl
  | [a] =>
    simp only [serializeItems, JsonValue.rereadItems, Option.bind_eq_bind, Option.bind_eq_some_iff,
      Option.pure_def, Option.some.injEq] at h
    obtain ⟨w, -, _, rfl, rfl⟩ := h
    rfl
  | [a, b] =>
    simp only [serializeItems, JsonValue.rereadItems, Option.bind_eq_bind, Option.bind_eq_some_iff,
      Option.pure_def, Option.some.injEq] at h
    obtain ⟨w, hw, _, ⟨w', hw', _, rfl, rfl⟩, rfl⟩ := h
    simp only [WellFormedItems] at hv
    have ha := floatOf_reread hv.1 hw
    have hb := floatOf_reread hv.2.1 hw'
    show _ = (a.isNumber && b.isNumber)
    rw [complexOf_pair, ha, hb]
  | a :: b :: c :: rest =>
    simp only [serializeItems, JsonValue.rereadItems, Option.bind_eq_bind, Option.bind_eq_some_iff,
      Option.pure_def, Option.some.injEq] at h
    obtain ⟨w, -, _, ⟨w', -, _, ⟨w'', -, ws, -, rfl⟩, rfl⟩, rfl⟩ := h
    rfl

theorem collectEntries_of_nodup {entries : List (String × BoundValue)}
    (h : (entries.map Prod.fst).Nodup) : collectEntries entries = entries := by
  induction entries with
  | nil => rfl
  | cons e entries ih =>
    rw [List.map_cons, List.nodup_cons] at h
    have hn : (entries.any fun r => r.1 = e.1) = false := by
      rw [List.any_eq_false]
      intro r hr he
      exact h.1 (List.mem_map.2 ⟨r, hr, of_decide_eq_true he⟩)
    have hc := ih h.2
    unfold collectEntries at hc ⊢
    rw [List.foldr_cons, hc, hn]
    rfl

theorem bind_eq_some_cons {α β : Type} {x : Option α} {xs : Option (List α)}
    {g : α → Option β} {gs : List α → Option (List β)} {b : β} {bs : List β}
    (hg : ∀ a as, gs (a :: as) = (g a).bind fun c => (gs as).map (c :: ·)) :
    ((x.bind fun a => xs.map (a :: ·)).bind gs = some (b :: bs)) ↔
      x.bind g = some b ∧ xs.bind gs = some bs := by
  cases x with
  | none => simp
  | some a =>
    cases xs with
    | none => simp
    | some as =>
      simp only [Option.bind_some, Option.map_some, hg]
      cases g a with
      | none => simp
      | some c =>
        cases gs as with
        | none => simp
        | some cs => simp

theorem deserializeItems_cons (w : Value) (ws : List Value) :
    deserializeItems (w :: ws) =
      (deserialize w).bind fun b => (deserializeItems ws).map (b :: ·) := by
  rw [deserializeItems]
  cases deserialize w with
  | none => rfl
  | some b => cases deserializeItems ws <;> rfl

theorem rereadItems_cons (w : Value) (ws : List Value) :
    JsonValue.rereadItems f (w :: ws) =
      (w.reread f).bind fun b => (JsonValue.rereadItems f ws).map (b :: ·) := by
  rw [JsonValue.rereadItems]
  cases w.reread f with
  | none => rfl
  | some b => cases JsonValue.rereadItems f ws <;> rfl

def deserializeEntry (e : String × Value) : Option (String × BoundValue) :=
  (deserialize e.2).map (e.1, ·)

theorem deserializeEntries_cons (e : String × Value) (es : List (String × Value)) :
    deserializeEntries (e :: es) =
      (deserializeEntry e).bind fun b => (deserializeEntries es).map (b :: ·) := by
  obtain ⟨k, w⟩ := e
  rw [deserializeEntries, deserializeEntry]
  cases deserialize w with
  | none => rfl
  | some b => cases deserializeEntries es <;> rfl

theorem rereadEntries_cons (k : String) (w : Value) (es : List (String × Value)) :
    JsonValue.rereadEntries f ((k, w) :: es) =
      ((w.reread f).map (k, ·)).bind fun b => (JsonValue.rereadEntries f es).map (b :: ·) := by
  rw [JsonValue.rereadEntries]
  cases w.reread f with
  | none => rfl
  | some b => cases JsonValue.rereadEntries f es <;> rfl

theorem map_bind_deserializeEntry {x : Option Value} {k : String} {v : BoundValue} :
    (x.map (k, ·)).bind deserializeEntry = some (k, v) ↔ x.bind deserialize = some v := by
  cases x with
  | none => simp
  | some w => simp [deserializeEntry]

theorem keys_deserializeEntries {es : List (String × Value)} {vs : List (String × BoundValue)}
    (h : deserializeEntries es = some vs) : vs.map Prod.fst = es.map Prod.fst := by
  induction es generalizing vs with
  | nil =>
    cases h
    rfl
  | cons e es ih =>
    rw [deserializeEntries_cons, Option.bind_eq_some_iff] at h
    obtain ⟨b, hb, h⟩ := h
    obtain ⟨bs, hbs, rfl⟩ := Option.map_eq_some_iff.1 h
    obtain ⟨c, -, rfl⟩ := Option.map_eq_some_iff.1 hb
    rw [List.map_cons, List.map_cons, ih hbs]

theorem keys_rereadEntries {es ws : List (String × Value)}
    (h : JsonValue.rereadEntries f es = some ws) : ws.map Prod.fst = es.map Prod.fst := by
  induction es generalizing ws with
  | nil =>
    cases h
    rfl
  | cons e es ih =>
    rw [rereadEntries_cons e.1 e.2, Option.bind_eq_some_iff] at h
    obtain ⟨b, hb, h⟩ := h
    obtain ⟨bs, hbs, rfl⟩ := Option.map_eq_some_iff.1 h
    obtain ⟨c, -, rfl⟩ := Option.map_eq_some_iff.1 hb
    rw [List.map_cons, List.map_cons, ih hbs]

theorem keys_serializeEntries (entries : List (String × BoundValue)) :
    (serializeEntries entries).map Prod.fst = entries.map Prod.fst := by
  induction entries with
  | nil => rfl
  | cons e entries ih =>
    rw [serializeEntries, List.map_cons, List.map_cons, ih]

theorem read_complex_iff (re im : Float) :
    (((complex re im).serialize).reread f).bind deserialize = some (.complex re im) ↔
      Faithful f (.complex re im) := by
  have hnull : ∀ x : Float, x.isFinite = false → JsonValue.ofFloat x = .null := by
    intro x hx
    simp [JsonValue.ofFloat, hx]
  simp only [Faithful, serialize, JsonValue.reread, JsonValue.rereadItems]
  cases hre : re.isFinite with
  | false =>
    simp only [hnull re hre, JsonValue.reread]
    cases h : (JsonValue.ofFloat im).reread f with
    | none => simp
    | some w => simp [deserialize, complexOf, floatOf, deserializeItems]
  | true =>
    cases him : im.isFinite with
    | false =>
      simp only [JsonValue.ofFloat, hre, him, if_true, Bool.false_eq_true, if_false, JsonValue.reread]
      cases h : f re with
      | none => simp
      | some x => simp [deserialize, complexOf, floatOf, deserializeItems]
    | true =>
      simp only [JsonValue.ofFloat, hre, him, if_true, JsonValue.reread]
      cases hx : f re with
      | none => simp
      | some x =>
        cases hy : f im with
        | none => simp
        | some y => simp [deserialize, complexOf, floatOf]

mutual

theorem read_iff : ∀ v : BoundValue, v.WellFormed →
    ((v.serialize.reread f).bind deserialize = some v ↔ v.Faithful f)
  | .bool b, _ => by simp [serialize, JsonValue.reread, deserialize, Faithful]
  | .int n, hv => by
    simp only [WellFormed] at hv
    simp [serialize, JsonValue.reread, deserialize, Faithful, hv]
  | .float x, hv => by
    simp only [WellFormed] at hv
    simp only [serialize, JsonValue.ofFloat, hv, if_true, JsonValue.reread, Faithful]
    cases f x <;> simp [deserialize]
  | .string s, _ => by simp [serialize, JsonValue.reread, deserialize, Faithful]
  | .complex re im, _ => read_complex_iff re im
  | .list items, hv => by
    have ih := readItems_iff items hv
    simp only [serialize, JsonValue.reread, Faithful]
    cases hw : JsonValue.rereadItems f (serializeItems items) with
    | none =>
      rw [hw] at ih
      simp only [Option.map_none, Option.bind_none, reduceCtorEq, false_iff, not_and]
      intro _ hf
      cases ih.2 hf
    | some ws =>
      rw [hw] at ih
      have hc := complexOf_reread hv hw
      simp only [Option.map_some, Option.bind_some, deserialize]
      cases hcomplex : complexOf ws with
      | some v =>
        -- a pair of numbers comes back as a complex number
        rw [hcomplex] at hc
        have hne : v ≠ .list items := by
          rintro rfl
          unfold complexOf at hcomplex
          split at hcomplex
          · split at hcomplex <;> cases hcomplex
          · cases hcomplex
        simp [← hc, hne]
      | none =>
        rw [hcomplex] at hc
        simp only [← hc, Option.isSome_none, true_and]
        rw [← ih]
        simp
  | .dict entries, hv => by
    simp only [WellFormed] at hv
    have ih := readEntries_iff entries hv.2
    simp only [serialize, JsonValue.reread, Faithful]
    rw [← ih]
    cases hw : JsonValue.rereadEntries f (serializeEntries entries) with
    | none => simp
    | some ws =>
      simp only [Option.map_some, Option.bind_some, deserialize]
      cases hd : deserializeEntries ws with
      | none => simp
      | some vs =>
        have hkeys : vs.map Prod.fst = entries.map Prod.fst :=
          (keys_deserializeEntries hd).trans
            ((keys_rereadEntries hw).trans (keys_serializeEntries entries))
        rw [Option.map_some, collectEntries_of_nodup (hkeys ▸ hv.1)]
        simp

theorem readItems_iff : ∀ items : List BoundValue, WellFormedItems items →
    ((JsonValue.rereadItems f (serializeItems items)).bind deserializeItems = some items ↔
      FaithfulItems f items)
  | [], _ => by simp [serializeItems, JsonValue.rereadItems, deserializeItems, FaithfulItems]
  | v :: vs, hv => by
    simp only [WellFormedItems] at hv
    simp only [serializeItems, FaithfulItems]
    rw [rereadItems_cons, bind_eq_some_cons deserializeItems_cons, read_iff v hv.1,
      readItems_iff vs hv.2]

theorem readEntries_iff : ∀ entries : List (String × BoundValue), WellFormedEntries entries →
    ((JsonValue.rereadEntries f (serializeEntries entries)).bind deserializeEntries = some entries ↔
      FaithfulEntries f entries)
  | [], _ => by simp [serializeEntries, JsonValue.rereadEntries, deserializeEntries, FaithfulEntries]
  | (k, v) :: vs, hv => by
    simp only [WellFormedEntries] at hv
    simp only [serializeEntries, FaithfulEntries]
    rw [rereadEntries_cons, bind_eq_some_cons deserializeEntries_cons, map_bind_deserializeEntry,
      read_iff v hv.1, readEntries_iff vs hv.2]

end

mutual

/-- Anything without a `null` is a value of some kind. -/
theorem isSome_deserialize : ∀ v : Value, (deserialize v).isSome = !v.hasNull
  | .null => rfl
  | .bool b => rfl
  | .int n => rfl
  | .float x => rfl
  | .str s => rfl
  | .arr items => by
    have ih := isSome_deserializeItems items
    simp only [deserialize, JsonValue.hasNull]
    cases hc : complexOf items with
    | some v =>
      rw [← ih]
      unfold complexOf at hc
      split at hc
      · rename_i re im
        have hnum : ∀ w : Value, (floatOf w).isSome → (deserialize w).isSome := by
          intro w hw
          cases w with
          | int n => rfl
          | float x => rfl
          | _ => cases hw
        split at hc
        · rename_i x y hx hy
          obtain ⟨a, ha⟩ := Option.isSome_iff_exists.1 (hnum re (by rw [hx]; rfl))
          obtain ⟨b, hb⟩ := Option.isSome_iff_exists.1 (hnum im (by rw [hy]; rfl))
          simp [deserializeItems, ha, hb]
        · cases hc
      · cases hc
    | none =>
      rw [← ih, Option.isSome_map]
  | .obj entries => by
    rw [deserialize, JsonValue.hasNull, Option.isSome_map, isSome_deserializeEntries entries]

theorem isSome_deserializeItems : ∀ vs : List Value,
    (deserializeItems vs).isSome = !JsonValue.hasNullItems vs
  | [] => rfl
  | v :: vs => by
    rw [deserializeItems_cons, JsonValue.hasNullItems, Bool.not_or, ← isSome_deserialize v,
      ← isSome_deserializeItems vs]
    cases deserialize v with
    | none => rfl
    | some b => simp

theorem isSome_deserializeEntries : ∀ vs : List (String × Value),
    (deserializeEntries vs).isSome = !JsonValue.hasNullEntries vs
  | [] => rfl
  | (k, v) :: vs => by
    rw [deserializeEntries_cons, JsonValue.hasNullEntries, Bool.not_or, ← isSome_deserialize v,
      ← isSome_deserializeEntries vs, deserializeEntry]
    cases deserialize v with
    | none => rfl
    | some b => simp

end

variable {S : ValueSerde}

theorem fromSlice_eq_ok {bytes : Bytes} {v : BoundValue} :
    fromSlice S bytes = .ok v ↔ (S.fromSlice bytes).toOption.bind deserialize = some v := by
  unfold fromSlice
  cases S.fromSlice bytes with
  | error e => simp [Except.toOption]
  | ok w =>
    simp only [Except.toOption, Option.bind_some]
    cases deserialize w with
    | none => simp
    | some b => simp

/-- When the text of a value is read back as it. -/
theorem fromSlice_toVec_iff {v : BoundValue} (hv : v.WellFormed)
    (hS : ReadsBack S f v.serialize) :
    fromSlice S (v.toVec S) = .ok v ↔ v.serialize.depth < 128 ∧ v.Faithful f := by
  rw [fromSlice_eq_ok, toVec]
  by_cases hd : v.serialize.depth < 128
  · rw [hS.read hd, read_iff v hv]
    simp [hd]
  · rw [hS.tooDeep (Nat.le_of_not_lt hd)]
    simp [hd]

/-- The text is a `null`, or has none inside. -/
def Convertible (S : ValueSerde) (bytes : Bytes) : Prop :=
  ∃ v, S.fromSlice bytes = .ok v ∧ (v = .null ∨ v.hasNull = false)

theorem optionFromSlice_isOk {bytes : Bytes} :
    (∃ o, optionFromSlice S bytes = .ok o) ↔ Convertible S bytes := by
  unfold optionFromSlice Convertible
  cases S.fromSlice bytes with
  | error e => simp
  | ok v =>
    have hs := isSome_deserialize v
    cases v with
    | null => simp
    | _ =>
      simp only [Except.ok.injEq, exists_eq_left', reduceCtorEq, false_or]
      generalize deserialize _ = o at hs ⊢
      rw [← Bool.not_eq_true', ← hs]
      cases o <;> simp

theorem optionFromSlice_null {bytes : Bytes} :
    optionFromSlice S bytes = .ok none ↔ S.fromSlice bytes = .ok .null := by
  unfold optionFromSlice
  cases S.fromSlice bytes with
  | error e => simp
  | ok v =>
    cases v with
    | null => simp
    | _ =>
      simp only [Except.ok.injEq, reduceCtorEq, iff_false]
      generalize deserialize _ = o
      cases o <;> simp

end BoundValue

/-- The value for each output; a single value is that of `value`. -/
def ValueOrMapping.values : ValueOrMapping → HashMap String (Option BoundValue)
  | .mapping entries => entries
  | .value v => HashMap.ofList [("value", some v)]

/-- A conversion that succeeds and has for each output what its text is read as. -/
def Converts (S : ValueSerde) (outputs : HashMap String Bytes) : Prop :=
  ∃ r, convertOutputs S outputs = .ok r ∧ ∀ name bytes, outputs.get? name = some bytes →
    ∃ o, BoundValue.optionFromSlice S bytes = .ok o ∧ r.values.get? name = some o

theorem outputEntry_eq_ok {S : ValueSerde} {e : String × Bytes} {r : String × Option BoundValue} :
    outputEntry S e = .ok r ↔ r.1 = e.1 ∧ BoundValue.optionFromSlice S e.2 = .ok r.2 := by
  obtain ⟨name, o⟩ := r
  unfold outputEntry
  cases BoundValue.optionFromSlice S e.2 with
  | error text => simp
  | ok v => simp [Prod.ext_iff, eq_comm]

theorem exists_mapM_outputEntry {S : ValueSerde} {l : List (String × Bytes)} :
    (∃ entries, l.mapM (outputEntry S) = .ok entries) ↔
      ∀ e ∈ l, BoundValue.Convertible S e.2 := by
  constructor
  · rintro ⟨entries, h⟩ e he
    obtain ⟨r, -, hr⟩ := exists_of_mapM_eq_ok h e he
    exact BoundValue.optionFromSlice_isOk.1 ⟨r.2, (outputEntry_eq_ok.1 hr).2⟩
  · intro h
    induction l with
    | nil => exact ⟨[], rfl⟩
    | cons e l ih =>
      obtain ⟨entries, hes⟩ := ih fun e' he' => h e' (.tail _ he')
      obtain ⟨o, ho⟩ := BoundValue.optionFromSlice_isOk.2 (h e (.head _))
      exact ⟨(e.1, o) :: entries,
        mapM_of_forall₂ (.cons (outputEntry_eq_ok.2 ⟨rfl, ho⟩) (mapM_eq_ok hes))⟩

theorem keys_mapM_outputEntry {S : ValueSerde} {l : List (String × Bytes)}
    {entries : List (String × Option BoundValue)} (h : l.mapM (outputEntry S) = .ok entries) :
    entries.map Prod.fst = l.map Prod.fst := by
  replace h := mapM_eq_ok h
  induction h with
  | nil => rfl
  | cons he _ ih => rw [List.map_cons, List.map_cons, ih, (outputEntry_eq_ok.1 he).1]

/-- When outputs are converted. -/
theorem converts_iff {S : ValueSerde} {outputs : HashMap String Bytes} :
    Converts S outputs ↔ (∀ e ∈ outputs.toList, BoundValue.Convertible S e.2) ∧
      ∀ bytes, outputs.toList = [("value", bytes)] → S.fromSlice bytes ≠ .ok .null := by
  constructor
  · rintro ⟨r, hr, -⟩
    obtain ⟨entries, hes, hr⟩ := Result.bind_eq_ok.1 hr
    refine ⟨exists_mapM_outputEntry.1 ⟨entries, hes⟩, ?_⟩
    intro bytes hl hnull
    rw [hl] at hes
    have hone : [("value", bytes)].mapM (outputEntry S) = .ok [("value", none)] :=
      mapM_of_forall₂ (.cons (outputEntry_eq_ok.2 ⟨rfl, BoundValue.optionFromSlice_null.2 hnull⟩)
        .nil)
    cases hes.symm.trans hone
    cases hr
  · rintro ⟨hall, hsingle⟩
    obtain ⟨entries, hes⟩ := exists_mapM_outputEntry.2 hall
    have hkeys := keys_mapM_outputEntry hes
    have hr : ∃ r, convertOutputs S outputs = .ok r ∧ r.values = HashMap.ofList entries := by
      unfold convertOutputs
      have hbind : ∀ f : List (String × Option BoundValue) → Result ValueOrMapping,
          ((.ok entries : Result _) >>= f) = f entries := fun _ => rfl
      rw [hes, hbind]
      split
      · exact ⟨_, rfl, rfl⟩
      · -- the one output would be a `null`
        have hf := mapM_eq_ok hes
        rw [List.forall₂_cons_right_iff] at hf
        obtain ⟨e, l, he, hl, ho⟩ := hf
        rw [List.forall₂_nil_right_iff] at hl
        subst hl
        obtain ⟨hname, hnull⟩ := outputEntry_eq_ok.1 he
        refine absurd (BoundValue.optionFromSlice_null.1 hnull) (hsingle e.2 ?_)
        obtain ⟨name, bytes⟩ := e
        cases hname
        exact ho
      · exact ⟨_, rfl, rfl⟩
    obtain ⟨r, hok, hv⟩ := hr
    refine ⟨r, hok, ?_⟩
    intro name bytes hm
    obtain ⟨o, ho, he⟩ := exists_of_mapM_eq_ok hes (name, bytes) (HashMap.get?_eq_some_iff.1 hm)
    obtain ⟨hname, ho'⟩ := outputEntry_eq_ok.1 he
    refine ⟨o.2, ho', ?_⟩
    rw [hv]
    refine HashMap.get?_ofList_of_mem ?_ ?_
    · rw [hkeys]
      exact HashMap.nodup_toList outputs
    · cases hname
      exact ho

/-- A value is read back from its text as it was when no list in it looks like a complex
number and nothing is lost in the text; outputs are converted when no list or dict in them
holds a `null` and a single output is none. -/
theorem bound_value_round_trip_iff (S : ValueSerde) (f : Float → Option Float) (v : BoundValue)
    (outputs : HashMap String Bytes) (hv : v.WellFormed) (hS : ReadsBack S f v.serialize) :
    (BoundValue.fromSlice S (v.toVec S) = .ok v ↔ v.serialize.depth < 128 ∧ v.Faithful f) ∧
    (Converts S outputs ↔ (∀ e ∈ outputs.toList, BoundValue.Convertible S e.2) ∧
      ∀ bytes, outputs.toList = [("value", bytes)] → S.fromSlice bytes ≠ .ok .null) :=
  ⟨BoundValue.fromSlice_toVec_iff hv hS, converts_iff⟩

/-- Some texts that are read. -/
def tableSerde (texts : List (Bytes × Value)) (written : Bytes) : ValueSerde where
  fromSlice b :=
    match texts.lookup b with
    | some v => .ok v
    | none => .error "expected value"
  toVec _ := written
  display _ := ""
  mismatch _ _ := ""

/-- `{"a":[7,["s",false]],"b":[[1],true]}` -/
def plainText : Bytes :=
  [123, 34, 97, 34, 58, 91, 55, 44, 91, 34, 115, 34, 44, 102, 97, 108, 115, 101, 93, 93, 44, 34, 98,
    34, 58, 91, 91, 49, 93, 44, 116, 114, 117, 101, 93, 125]

def plainValue : BoundValue :=
  .dict [("a", .list [.int 7, .list [.string "s", .bool false]]),
    ("b", .list [.list [.int 1], .bool true])]

/-- `{"a":[0.5,[0.5,0.5]],"b":[[1],true]}` -/
def floatText : Bytes :=
  [123, 34, 97, 34, 58, 91, 48, 46, 53, 44, 91, 48, 46, 53, 44, 48, 46, 53, 93, 93, 44, 34, 98, 34,
    58, 91, 91, 49, 93, 44, 116, 114, 117, 101, 93, 125]

def floatValue : BoundValue :=
  .dict [("a", .list [.float 0.5, .complex 0.5 0.5]), ("b", .list [.list [.int 1], .bool true])]

def nullText : Bytes := [110, 117, 108, 108]

/-- What the texts are read as. -/
def readTexts : List (Bytes × Value) :=
  [(plainText, .obj [("a", .arr [.int 7, .arr [.str "s", .bool false]]),
      ("b", .arr [.arr [.int 1], .bool true])]),
    (floatText, .obj [("a", .arr [.float 0.5, .arr [.float 0.5, .float 0.5]]),
      ("b", .arr [.arr [.int 1], .bool true])]),
    (nullText, .null)]

def nestedOutputs : HashMap String Bytes :=
  .ofEntries [("x", plainText), ("y", nullText), ("value", floatText)]

theorem convertible_nestedOutputs (written : Bytes) : ∀ e ∈ nestedOutputs.toList,
    BoundValue.Convertible (tableSerde readTexts written) e.2 := by
  have hentries : nestedOutputs.toList = [("x", plainText), ("y", nullText), ("value", floatText)] :=
    HashMap.toList_ofEntries (by decide)
  rw [hentries]
  simp only [List.forall_mem_cons]
  exact ⟨⟨_, rfl, .inr rfl⟩, ⟨_, rfl, .inl rfl⟩, ⟨_, rfl, .inr rfl⟩, by simp⟩

theorem nestedOutputs_ne (bytes : Bytes) : nestedOutputs.toList ≠ [("value", bytes)] := fun h => by
  have hentries : nestedOutputs.toList = [("x", plainText), ("y", nullText), ("value", floatText)] :=
    HashMap.toList_ofEntries (by decide)
  rw [hentries] at h
  exact absurd (congrArg List.length h) (by simp)

/-- Nested values come back, those with floats where `0.5` is a finite number, and three outputs
are converted, the `null` among them too. -/
theorem bound_value_round_trip_nested :
    (BoundValue.fromSlice (tableSerde readTexts plainText)
        (plainValue.toVec (tableSerde readTexts plainText)) = .ok plainValue ∧
      Converts (tableSerde readTexts plainText) nestedOutputs) ∧
    ((0.5 : Float).isFinite = false ∨
      BoundValue.fromSlice (tableSerde readTexts floatText)
        (floatValue.toVec (tableSerde readTexts floatText)) = .ok floatValue) := by
  constructor
  · have hS : ReadsBack (tableSerde readTexts plainText) some plainValue.serialize :=
      ⟨fun _ => rfl, fun hd => absurd hd (by decide)⟩
    have hv : plainValue.WellFormed := by
      simp [plainValue, BoundValue.WellFormed, BoundValue.WellFormedEntries,
        BoundValue.WellFormedItems, isI64]
    obtain ⟨hread, hconvert⟩ := bound_value_round_trip_iff (tableSerde readTexts plainText) some
      plainValue nestedOutputs hv hS
    refine ⟨hread.2 ⟨by decide, ?_⟩, hconvert.2 ⟨convertible_nestedOutputs plainText,
      fun bytes hl => absurd hl (nestedOutputs_ne bytes)⟩⟩
    simp [plainValue, BoundValue.Faithful, BoundValue.FaithfulEntries, BoundValue.FaithfulItems,
      BoundValue.looksComplex, BoundValue.isNumber]
  · cases hf : (0.5 : Float).isFinite with
    | false => exact .inl rfl
    | true =>
      right
      have hv : floatValue.WellFormed := by
        simp [floatValue, BoundValue.WellFormed, BoundValue.WellFormedEntries,
          BoundValue.WellFormedItems, hf, isI64]
      have hwritten : floatValue.serialize =
          .obj [("a", .arr [.float 0.5, .arr [.float 0.5, .float 0.5]]),
            ("b", .arr [.arr [.int 1], .bool true])] := by
        simp [floatValue, BoundValue.serialize, BoundValue.serializeEntries,
          BoundValue.serializeItems, JsonValue.ofFloat, hf]
      have hS : ReadsBack (tableSerde readTexts floatText) some floatValue.serialize := by
        rw [hwritten]
        exact ⟨fun _ => rfl, fun hd => absurd hd (by decide)⟩
      refine (bound_value_round_trip_iff (tableSerde readTexts floatText) some floatValue
        nestedOutputs hv hS).1.2 ⟨?_, ?_⟩
      · rw [hwritten]
        decide
      · simp [floatValue, BoundValue.Faithful, BoundValue.FaithfulEntries,
          BoundValue.FaithfulItems, BoundValue.looksComplex, BoundValue.isNumber, hf]

/-- A list of two integers comes back as a complex number, and a single output `null` makes
the conversion panic. -/
theorem pair_becomes_complex :
    (∃ re im, BoundValue.fromSlice
        (tableSerde [([91, 49, 44, 50, 93], .arr [.int 1, .int 2])] [91, 49, 44, 50, 93])
      ((BoundValue.list [.int 1, .int 2]).toVec
        (tableSerde [([91, 49, 44, 50, 93], .arr [.int 1, .int 2])] [91, 49, 44, 50, 93])) =
      .ok (.complex re im)) ∧
    convertOutputs (tableSerde [([110, 117, 108, 108], .null)] [110, 117, 108, 108])
      (HashMap.ofList [("value", [110, 117, 108, 108])]) =
        .error (.panic "No single output value") :=
  ⟨⟨Float.ofInt 1, Float.ofInt 2, rfl⟩, rfl⟩

end Tierkreis
