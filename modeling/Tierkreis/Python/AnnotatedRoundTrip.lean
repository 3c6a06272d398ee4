import Tierkreis.Python.MapElements
import Tierkreis.Python.ReadBack

/-!
# The round trip of annotated values

What is read back of a value does not depend on its annotation: tuples and complex
numbers are lists, structs and instances are dicts or lists. A value comes back when
the annotation turns all of this into the value again.
-/

namespace Tierkreis.Annotated

open Lib

variable {J : PyJson} {K : Classes}

/-! ## Induction -/

/-- Values by their parts. -/
theorem Val.induct {P : Val → Prop} (none : P .none) (bool : ∀ b, P (.bool b))
    (int : ∀ n, P (.int n)) (float : ∀ x, P (.float x)) (str : ∀ s, P (.str s))
    (bytes : ∀ b, P (.bytes b)) (complex : ∀ re im, P (.complex re im))
    (list : ∀ items, (∀ p ∈ items, P p) → P (.list items))
    (tuple : ∀ items, (∀ p ∈ items, P p) → P (.tuple items))
    (dict : ∀ entries, (∀ e ∈ entries, P e.2) → P (.dict entries))
    (struct : ∀ cls fields, (∀ e ∈ fields, P e.2) → P (.struct cls fields))
    (inst : ∀ cls id converted, P converted → P (.inst cls id converted)) (v : Val) : P v := by
  have hrec : ∀ n (v : Val), sizeOf v < n → P v := by
    intro n
    induction n with
    | zero => exact fun _ h => absurd h (Nat.not_lt_zero _)
    | succ n ih =>
      intro v hv
      cases v with
      | none => exact none
      | bool b => exact bool b
      | int n => exact int n
      | float x => exact float x
      | str s => exact str s
      | bytes b => exact bytes b
      | complex re im => exact complex re im
      | list items =>
        refine list items fun p hp => ih p ?_
        have := List.sizeOf_lt_of_mem hp
        simp only [Val.list.sizeOf_spec] at hv
        omega
      | tuple items =>
        refine tuple items fun p hp => ih p ?_
        have := List.sizeOf_lt_of_mem hp
        simp only [Val.tuple.sizeOf_spec] at hv
        omega
      | dict entries =>
        refine dict entries fun e he => ih e.2 ?_
        have := List.sizeOf_lt_of_mem he
        obtain ⟨k, p⟩ := e
        simp only [Val.dict.sizeOf_spec, Prod.mk.sizeOf_spec] at hv this ⊢
        omega
      | struct cls fields =>
        refine struct cls fields fun e he => ih e.2 ?_
        have := List.sizeOf_lt_of_mem he
        obtain ⟨k, p⟩ := e
        simp only [Val.struct.sizeOf_spec, Prod.mk.sizeOf_spec] at hv this ⊢
        omega
      | inst cls id converted =>
        refine inst cls id converted (ih converted ?_)
        simp only [Val.inst.sizeOf_spec] at hv
        omega
  exact hrec _ v (Nat.lt_succ_self _)

/-- Annotations by their arguments. -/
theorem Hint.induct {P : Hint → Prop} (none : P .none) (bool : P .bool) (int : P .int)
    (float : P .float) (str : P .str) (bytes : P .bytes) (complex : P .complex)
    (list : ∀ arg, P arg → P (.list arg)) (dict : ∀ key arg, P arg → P (.dict key arg))
    (tuple : ∀ args, (∀ arg ∈ args, P arg) → P (.tuple args))
    (union : ∀ args, (∀ arg ∈ args, P arg) → P (.union args))
    (struct : ∀ cls fields, (∀ e ∈ fields, P e.2) → P (.struct cls fields))
    (convertible : ∀ cls, P (.convertible cls)) (t : Hint) : P t := by
  have hrec : ∀ n (t : Hint), sizeOf t < n → P t := by
    intro n
    induction n with
    | zero => exact fun _ h => absurd h (Nat.not_lt_zero _)
    | succ n ih =>
      intro t ht
      cases t with
      | none => exact none
      | bool => exact bool
      | int => exact int
      | float => exact float
      | str => exact str
      | bytes => exact bytes
      | complex => exact complex
      | list arg =>
        refine list arg (ih arg ?_)
        simp only [Hint.list.sizeOf_spec] at ht
        omega
      | dict key arg =>
        refine dict key arg (ih arg ?_)
        simp only [Hint.dict.sizeOf_spec] at ht
        omega
      | tuple args =>
        refine tuple args fun arg ha => ih arg ?_
        have := List.sizeOf_lt_of_mem ha
        simp only [Hint.tuple.sizeOf_spec] at ht
        omega
      | union args =>
        refine union args fun arg ha => ih arg ?_
        have := List.sizeOf_lt_of_mem ha
        simp only [Hint.union.sizeOf_spec] at ht
        omega
      | struct cls fields =>
        refine struct cls fields fun e he => ih e.2 ?_
        have := List.sizeOf_lt_of_mem he
        obtain ⟨k, arg⟩ := e
        simp only [Hint.struct.sizeOf_spec, Prod.mk.sizeOf_spec] at ht this ⊢
        omega
      | convertible cls => exact convertible cls
  exact hrec _ t (Nat.lt_succ_self _)

/-! ## What is read back -/

mutual

/-- The document of a value, whatever its annotation. -/
def docOf (J : PyJson) : Val → Option Doc
  | .none => some .null
  | .bool b => some (.bool b)
  | .int n => some (.int n)
  | .float x => some (.float x)
  | .str s => some (.str s)
  | .bytes b => some (bytesDoc b)
  | .complex re im => some (.arr [.float re, .float im])
  | .list items => (docItems J items).map .arr
  | .tuple items => (docItems J items).map .arr
  | .dict entries => (docEntries J entries).map .obj
  | .struct _ fields => (docFields J fields).map .obj
  | .inst _ _ converted => docOf J converted

def docItems (J : PyJson) : List Val → Option (List Doc)
  | [] => some []
  | p :: ps => do
    let d ← docOf J p
    let ds ← docItems J ps
    pure (d :: ds)

def docEntries (J : PyJson) : List (Val × Val) → Option (List (PyStr × Doc))
  | [] => some []
  | (k, p) :: ps => do
    let k ← keyText J k
    let d ← docOf J p
    let ds ← docEntries J ps
    pure ((k, d) :: ds)

def docFields (J : PyJson) : List (PyStr × Val) → Option (List (PyStr × Doc))
  | [] => some []
  | (k, p) :: ps => do
    let d ← docOf J p
    let ds ← docFields J ps
    pure ((k, d) :: ds)

end

mutual

/-- What is read of the document of a value. -/
def readBack (J : PyJson) : Val → Option Val
  | .none => some .none
  | .bool b => some (.bool b)
  | .int n => some (.int n)
  | .float x => some (.float x)
  | .str s => some (.str (joinPairs s))
  | .bytes b => some (.bytes b)
  | .complex re im => some (.list [.float re, .float im])
  | .list items => (readItems J items).map .list
  | .tuple items => (readItems J items).map .list
  | .dict entries => (readEntries J entries).bind fun es => objectHook (dictOf es)
  | .struct _ fields => (readFields J fields).bind fun es => objectHook (dictOf es)
  | .inst _ _ converted => readBack J converted

def readItems (J : PyJson) : List Val → Option (List Val)
  | [] => some []
  | p :: ps => do
    let q ← readBack J p
    let qs ← readItems J ps
    pure (q :: qs)

def readEntries (J : PyJson) : List (Val × Val) → Option (List (PyStr × Val))
  | [] => some []
  | (k, p) :: ps => do
    let k ← keyText J k
    let q ← readBack J p
    let qs ← readEntries J ps
    pure ((joinPairs k, q) :: qs)

def readFields (J : PyJson) : List (PyStr × Val) → Option (List (PyStr × Val))
  | [] => some []
  | (k, p) :: ps => do
    let q ← readBack J p
    let qs ← readFields J ps
    pure ((joinPairs k, q) :: qs)

end

/-! ## The document that is written -/

theorem jsonItems_of_serItems {ann : Option Hint} {items ws : List Val}
    (ih : ∀ p ∈ items, ∀ {ann w}, serFromPtype K ann p = some w → jsonDoc J w = docOf J p)
    (h : serItems K ann items = some ws) : jsonItems J ws = docItems J items := by
  induction items generalizing ws with
  | nil =>
    cases h
    rfl
  | cons p items ihl =>
    obtain ⟨w, hw, h⟩ := Option.bind_eq_some_iff.1 h
    obtain ⟨ws, hws, h⟩ := Option.bind_eq_some_iff.1 h
    cases h
    rw [jsonItems, docItems, ih p (.head _) hw, ihl (fun q hq => ih q (.tail _ hq)) hws]

theorem jsonItems_of_serTuple {args : List Hint} {items ws : List Val}
    (ih : ∀ p ∈ items, ∀ {ann w}, serFromPtype K ann p = some w → jsonDoc J w = docOf J p)
    (h : serTuple K args items = some ws) : jsonItems J ws = docItems J items := by
  induction items generalizing args ws with
  | nil =>
    rw [serTuple] at h
    cases h
    rfl
  | cons p items ihl =>
    cases args with
    | nil => cases h
    | cons arg args =>
      obtain ⟨w, hw, h⟩ := Option.bind_eq_some_iff.1 h
      obtain ⟨ws, hws, h⟩ := Option.bind_eq_some_iff.1 h
      cases h
      rw [jsonItems, docItems, ih p (.head _) hw, ihl (fun q hq => ih q (.tail _ hq)) hws]

theorem jsonEntries_of_serEntries {ann : Option Hint} {entries ws : List (Val × Val)}
    (ih : ∀ e ∈ entries, ∀ {ann w}, serFromPtype K ann e.2 = some w → jsonDoc J w = docOf J e.2)
    (h : serEntries K ann entries = some ws) : jsonEntries J ws = docEntries J entries := by
  induction entries generalizing ws with
  | nil =>
    cases h
    rfl
  | cons e entries ihl =>
    obtain ⟨w, hw, h⟩ := Option.bind_eq_some_iff.1 h
    obtain ⟨ws, hws, h⟩ := Option.bind_eq_some_iff.1 h
    cases h
    rw [jsonEntries, docEntries, ih e (.head _) hw, ihl (fun q hq => ih q (.tail _ hq)) hws]

theorem jsonEntries_of_serFields {annotations : List (PyStr × Hint)} {fields : List (PyStr × Val)}
    {ws : List (Val × Val)}
    (ih : ∀ e ∈ fields, ∀ {ann w}, serFromPtype K ann e.2 = some w → jsonDoc J w = docOf J e.2)
    (h : serFields K annotations fields = some ws) : jsonEntries J ws = docFields J fields := by
  induction fields generalizing ws with
  | nil =>
    cases h
    rfl
  | cons e fields ihl =>
    obtain ⟨ann, -, h⟩ := Option.bind_eq_some_iff.1 h
    obtain ⟨w, hw, h⟩ := Option.bind_eq_some_iff.1 h
    obtain ⟨ws, hws, h⟩ := Option.bind_eq_some_iff.1 h
    cases h
    rw [jsonEntries, docFields, ih e (.head _) hw, ihl (fun q hq => ih q (.tail _ hq)) hws]
    rfl

/-- The document does not depend on the annotation that the value was written with. -/
theorem jsonDoc_of_ser {ann : Option Hint} {v w : Val} (h : serFromPtype K ann v = some w) :
    jsonDoc J w = docOf J v := by
  induction v using Val.induct generalizing ann w with
  | none | bool | int | float | str | bytes | complex =>
    cases h
    rfl
  | list items ih =>
    rw [serFromPtype] at h
    obtain ⟨ws, hws, rfl⟩ := Option.map_eq_some_iff.1 h
    rw [jsonDoc, docOf, jsonItems_of_serItems (fun p hp => ih p hp) hws]
  | tuple items ih =>
    rw [serFromPtype] at h
    split at h
    · obtain ⟨ws, hws, rfl⟩ := Option.map_eq_some_iff.1 h
      rw [jsonDoc, docOf, jsonItems_of_serItems (fun p hp => ih p hp) hws]
    · obtain ⟨ws, hws, rfl⟩ := Option.map_eq_some_iff.1 h
      rw [jsonDoc, docOf, jsonItems_of_serTuple (fun p hp => ih p hp) hws]
  | dict entries ih =>
    rw [serFromPtype] at h
    split at h
    · obtain ⟨ws, hws, rfl⟩ := Option.map_eq_some_iff.1 h
      rw [jsonDoc, docOf, jsonEntries_of_serEntries (fun e he => ih e he) hws]
    · cases h
    · obtain ⟨ws, hws, rfl⟩ := Option.map_eq_some_iff.1 h
      rw [jsonDoc, docOf, jsonEntries_of_serEntries (fun e he => ih e he) hws]
  | struct cls fields ih =>
    obtain ⟨annotations, -, h⟩ := Option.bind_eq_some_iff.1 h
    obtain ⟨ws, hws, h⟩ := Option.bind_eq_some_iff.1 h
    cases h
    rw [jsonDoc, docOf, jsonEntries_of_serFields (fun e he => ih e he) hws]
  | inst cls id converted ih => exact ih h

/-! ## The document that is read -/

theorem decodeItems_docItems {items : List Val}
    (ih : ∀ p ∈ items, ((docOf J p).bind fun d => decode (normalise d)) = readBack J p) :
    ((docItems J items).bind fun ds => decodeItems (normaliseItems ds)) = readItems J items := by
  induction items with
  | nil => rfl
  | cons p items ihl =>
    have hp := ih p (.head _)
    have hl := ihl fun q hq => ih q (.tail _ hq)
    rw [docItems, readItems, ← hp, ← hl]
    cases docOf J p with
    | none => rfl
    | some d =>
      cases docItems J items with
      | none => exact (Option.bind_fun_none (decode (normalise d))).symm
      | some ds => rfl

theorem decodeEntries_docEntries {entries : List (Val × Val)}
    (ih : ∀ e ∈ entries, ((docOf J e.2).bind fun d => decode (normalise d)) = readBack J e.2) :
    ((docEntries J entries).bind fun ds => decodeEntries (normaliseEntries ds)) =
      readEntries J entries := by
  induction entries with
  | nil => rfl
  | cons e entries ihl =>
    have hp := ih e (.head _)
    have hl := ihl fun q hq => ih q (.tail _ hq)
    rw [docEntries, readEntries, ← hp, ← hl]
    cases keyText J e.1 with
    | none => rfl
    | some k =>
      cases docOf J e.2 with
      | none => rfl
      | some d =>
        cases docEntries J entries with
        | none => exact (Option.bind_fun_none (decode (normalise d))).symm
        | some ds => rfl

theorem decodeEntries_docFields {fields : List (PyStr × Val)}
    (ih : ∀ e ∈ fields, ((docOf J e.2).bind fun d => decode (normalise d)) = readBack J e.2) :
    ((docFields J fields).bind fun ds => decodeEntries (normaliseEntries ds)) =
      readFields J fields := by
  induction fields with
  | nil => rfl
  | cons e fields ihl =>
    have hp := ih e (.head _)
    have hl := ihl fun q hq => ih q (.tail _ hq)
    rw [docFields, readFields, ← hp, ← hl]
    cases docOf J e.2 with
    | none => rfl
    | some d =>
      cases docFields J fields with
      | none => exact (Option.bind_fun_none (decode (normalise d))).symm
      | some ds => rfl

theorem decode_bytesDoc (b : Bytes) : decode (normalise (bytesDoc b)) = some (.bytes b) := by
  have hunpaired : Unpaired (b64encode b) := unpaired_of_lt fun c hc => by
    have := Base64.encode_lt b c hc
    omega
  have hnormalise : normalise (bytesDoc b) = bytesDoc b := by
    simp only [bytesDoc, normalise, normaliseEntries, joinPairs_of_unpaired hunpaired]
    rfl
  rw [hnormalise]
  exact congrArg (Option.map Val.bytes) (b64decode_b64encode b)

theorem decode_docOf (v : Val) :
    ((docOf J v).bind fun d => decode (normalise d)) = readBack J v := by
  induction v using Val.induct with
  | none | bool | int | float | str | complex => rfl
  | bytes b => exact decode_bytesDoc b
  | list items ih =>
    rw [docOf, readBack, ← decodeItems_docItems ih]
    cases docItems J items <;> rfl
  | tuple items ih =>
    rw [docOf, readBack, ← decodeItems_docItems ih]
    cases docItems J items <;> rfl
  | dict entries ih =>
    rw [docOf, readBack, ← decodeEntries_docEntries ih]
    cases docEntries J entries <;> rfl
  | struct cls fields ih =>
    rw [docOf, readBack, ← decodeEntries_docFields ih]
    cases docFields J fields <;> rfl
  | inst cls id converted ih => exact ih

end Tierkreis.Annotated
