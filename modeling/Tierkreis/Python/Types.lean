import Tierkreis.Asset
import Tierkreis.Lib.Base64

/-!
# The Python encoding of values

The Python side writes a value as bytes at top level and as json below, and reads
it back with the help of an annotation. The modules `json` of Python and
`serde_json` of Rust are not part of the repository: `PyCodec` stands for them, and
`toRust` and `ofRust` say what a value of the one is for the other.
-/

namespace Tierkreis

open Lib

/-- A Python string by its code points, which may be surrogates. -/
abbrev PyStr := List Nat

def pyStr (s : String) : PyStr := s.toList.map Char.toNat

/-- The entries of a dict are listed in the order of their keys. -/
inductive PType where
  | none
  | bool (b : Bool)
  | int (n : Int)
  | float (x : Float)
  | str (s : PyStr)
  | bytes (b : Bytes)
  | complex (re im : Float)
  | list (items : List PType)
  | dict (entries : List (PyStr × PType))

inductive Annotation where
  | none
  | bool
  | int
  | float
  | str
  | bytes
  | complex
  | list (arg : Annotation)
  | dict (arg : Annotation)

/-- A json document of Python. -/
inductive Doc where
  | null
  | bool (b : Bool)
  | int (n : Int)
  | float (x : Float)
  | str (s : PyStr)
  | arr (items : List Doc)
  | obj (entries : List (PyStr × Doc))

/-- `dumps` and `loads` of Python, `from_slice` and `to_vec` of `serde_json`. A float that Python
has written is read as `readFloat`, an integer out of range as `readInt`, where it is not
rejected. `floatText` is how `serde_json` writes a float and `number` how Python reads a number. -/
structure PyCodec where
  dumps : Doc → Bytes
  loads : Bytes → Option Doc
  serde : Serde
  readFloat : Float → Option Float
  readInt : Int → Option Float
  floatText : Float → String
  number : String → Doc

/-! ## Writing -/

def b64encode (b : Bytes) : PyStr := Base64.encode b

/-- The string has to be ASCII. -/
def b64decode (s : PyStr) : Option Bytes :=
  if s.all (· < 128) then Base64.decode s else none

mutual

/-- The document that the encoder makes of a value below the top level. -/
def docOf : PType → Doc
  | .none => .null
  | .bool b => .bool b
  | .int n => .int n
  | .float x => .float x
  | .str s => .str s
  | .bytes b =>
    .obj [(pyStr "__tkr_bytes__", .bool true), (pyStr "bytes", .str (b64encode b))]
  | .complex re im => .arr [.float re, .float im]
  | .list items => .arr (docItems items)
  | .dict entries => .obj (docEntries entries)

def docItems : List PType → List Doc
  | [] => []
  | p :: ps => docOf p :: docItems ps

def docEntries : List (PyStr × PType) → List (PyStr × Doc)
  | [] => []
  | (k, p) :: ps => (k, docOf p) :: docEntries ps

end

def bytesFromPtype (C : PyCodec) : PType → Bytes
  | .bytes b => b
  | p => C.dumps (docOf p)

/-! ## Reading -/

/-- The hook of the decoder for an object whose entries are decoded. -/
def objectHook (entries : List (PyStr × PType)) : Option PType :=
  match entries.lookup (pyStr "__tkr_bytes__"), entries.lookup (pyStr "bytes") with
  | some _, some (.str s) => (b64decode s).map .bytes
  | some _, some (.bytes b) => (Base64.decode (b.map UInt8.toNat)).map .bytes
  | some _, some _ => none
  | _, _ => some (.dict entries)

mutual

def decode : Doc → Option PType
  | .null => some .none
  | .bool b => some (.bool b)
  | .int n => some (.int n)
  | .float x => some (.float x)
  | .str s => some (.str s)
  | .arr items => (decodeItems items).map .list
  | .obj entries => (decodeEntries entries).bind objectHook

def decodeItems : List Doc → Option (List PType)
  | [] => some []
  | d :: ds => do
    let p ← decode d
    let ps ← decodeItems ds
    pure (p :: ps)

def decodeEntries : List (PyStr × Doc) → Option (List (PyStr × PType))
  | [] => some []
  | (k, d) :: ds => do
    let p ← decode d
    let ps ← decodeEntries ds
    pure ((k, p) :: ps)

end

/-- An integer beyond the floats is an error. -/
def realOf : PType → Option Float
  | .float x => some x
  | .int n => if (Float.ofInt n).isFinite then some (Float.ofInt n) else none
  | .bool b => some (if b then 1 else 0)
  | _ => none

def complexOf : PType → Option PType
  | .list (re :: im :: _) => do pure (.complex (← realOf re) (← realOf im))
  | .bytes (re :: im :: _) => some (.complex (Float.ofNat re.toNat) (Float.ofNat im.toNat))
  | _ => none

/-- What a value gives when it is iterated over. -/
def iterate : PType → Option (List PType)
  | .list items => some items
  | .str s => some (s.map fun c => .str [c])
  | .bytes b => some (b.map fun x => .int x.toNat)
  | .dict entries => some (entries.map fun e => .str e.1)
  | _ => none

/-- Scalars are left as they are. -/
def coerceFromAnnotation : Annotation → PType → Option PType
  | _, .none => some .none
  | .complex, p => complexOf p
  | .list arg, p =>
    (iterate p).bind fun items => (items.mapM <| coerceFromAnnotation arg).map .list
  | .dict arg, .dict entries =>
    (entries.mapM fun e => Option.map (fun p => (e.1, p)) <| coerceFromAnnotation arg e.2).map .dict
  | .dict _, _ => none
  | _, p => some p

/-- An error is `none`. -/
def ptypeFromBytes (C : PyCodec) (bs : Bytes) (ann : Annotation) : Option PType :=
  match ann with
  | .bytes => some (.bytes bs)
  | _ => do
    let d ← C.loads bs
    let p ← decode d
    coerceFromAnnotation ann p

/-! ## Between the languages -/

def isSurrogate (c : Nat) : Bool := 0xD800 ≤ c && c ≤ 0xDFFF

/-- Python escapes what is not ASCII in UTF-16, where two surrogates that fit make up one
character. One that is left alone is an error. -/
def rustChars : PyStr → Option (List Char)
  | [] => some []
  | c :: d :: s =>
    if isSurrogate c then
      if c ≤ 0xDBFF ∧ 0xDC00 ≤ d ∧ d ≤ 0xDFFF then
        (rustChars s).map (Char.ofNat (0x10000 + (c - 0xD800) * 0x400 + (d - 0xDC00)) :: ·)
      else none
    else (rustChars (d :: s)).map (Char.ofNat c :: ·)
  | [c] => if isSurrogate c then none else some [Char.ofNat c]

def rustStr (s : PyStr) : Option String := (rustChars s).map String.ofList

/-- What `serde_json` makes of a document, with a way to keep its numbers. -/
structure JsonReader (β : Type) where
  null : β
  bool : Bool → β
  int : Int → Option β
  float : Float → Option β
  str : String → β
  arr : List β → β
  obj : List (String × β) → β

namespace JsonReader

variable {β : Type} (R : JsonReader β)

mutual

/-- The value that is read from a document of moderate depth. -/
def read : Doc → Option β
  | .null => some R.null
  | .bool b => some (R.bool b)
  | .int n => R.int n
  | .float x => R.float x
  | .str s => (rustStr s).map R.str
  | .arr items => (readItems items).map R.arr
  | .obj entries => (readEntries entries).map R.obj

def readItems : List Doc → Option (List β)
  | [] => some []
  | d :: ds => do
    let v ← read d
    let vs ← readItems ds
    pure (v :: vs)

def readEntries : List (PyStr × Doc) → Option (List (String × β))
  | [] => some []
  | (k, d) :: ds => do
    let k ← rustStr k
    let v ← read d
    let vs ← readEntries ds
    pure ((k, v) :: vs)

end

end JsonReader

section

variable (C : PyCodec)

/-- A number is kept as its text. -/
def jsonReader : JsonReader Json where
  null := .null
  bool := .bool
  int n :=
    if -2 ^ 63 ≤ n ∧ n < 2 ^ 64 then some (.num (toString n))
    else (C.readInt n).map fun x => .num (C.floatText x)
  float x := (C.readFloat x).map fun y => .num (C.floatText y)
  str := .str
  arr := .arr
  obj := .obj

/-- The value that `serde_json` reads from a document of moderate depth. -/
def toRust (d : Doc) : Option Json := (jsonReader C).read d

mutual

/-- The document that Python reads from a value which `serde_json` has written. -/
def ofRust : Json → Doc
  | .null => .null
  | .bool b => .bool b
  | .num literal => C.number literal
  | .str s => .str (pyStr s)
  | .arr items => .arr (ofRustItems items)
  | .obj entries => .obj (ofRustEntries entries)

def ofRustItems : List Json → List Doc
  | [] => []
  | v :: vs => ofRust v :: ofRustItems vs

def ofRustEntries : List (String × Json) → List (PyStr × Doc)
  | [] => []
  | (k, v) :: vs => (pyStr k, ofRust v) :: ofRustEntries vs

end

end

mutual

/-- How many arrays and objects a document nests. -/
def Doc.depth : Doc → Nat
  | .arr items => 1 + depthItems items
  | .obj entries => 1 + depthEntries entries
  | _ => 0

def Doc.depthItems : List Doc → Nat
  | [] => 0
  | d :: ds => max d.depth (Doc.depthItems ds)

def Doc.depthEntries : List (PyStr × Doc) → Nat
  | [] => 0
  | (_, d) :: ds => max d.depth (Doc.depthEntries ds)

end

/-- `serde_json` does not go deeper. -/
def recursionLimit : Nat := 128

def readRust (C : PyCodec) (d : Doc) : Option Json :=
  if d.depth < recursionLimit then toRust C d else none

/-! ## Lists of documents -/

theorem docItems_eq (ps : List PType) : docItems ps = ps.map docOf := by
  induction ps with
  | nil => rfl
  | cons p ps ih => rw [docItems, ih, List.map_cons]

theorem docEntries_eq (ps : List (PyStr × PType)) :
    docEntries ps = ps.map fun e => (e.1, docOf e.2) := by
  induction ps with
  | nil => rfl
  | cons p ps ih => rw [docEntries, ih, List.map_cons]

/-- A recursion over a list that stops at the first failure. -/
theorem eq_mapM {α β : Type} (f : α → Option β) (g : List α → Option (List β))
    (hnil : g [] = some [])
    (hcons : ∀ a as, g (a :: as) = (f a).bind fun b => (g as).bind fun bs => some (b :: bs)) :
    ∀ as, g as = as.mapM f
  | [] => hnil
  | a :: as => by
    rw [hcons, eq_mapM f g hnil hcons as, List.mapM_cons]
    rfl

theorem decodeItems_eq (ds : List Doc) : decodeItems ds = ds.mapM decode :=
  eq_mapM decode decodeItems rfl (fun _ _ => rfl) ds

theorem decodeEntries_eq (ds : List (PyStr × Doc)) :
    decodeEntries ds = ds.mapM fun e => (decode e.2).map fun p => (e.1, p) :=
  eq_mapM _ decodeEntries rfl (fun e ds => by
    rw [decodeEntries]
    cases decode e.2 <;> rfl) ds

theorem JsonReader.read_arr {β : Type} (R : JsonReader β) (ds : List Doc) :
    R.read (.arr ds) = (ds.mapM R.read).map R.arr :=
  congrArg (Option.map R.arr) (eq_mapM R.read R.readItems rfl (fun _ _ => rfl) ds)

theorem JsonReader.read_obj {β : Type} (R : JsonReader β) (ds : List (PyStr × Doc)) :
    R.read (.obj ds) =
      (ds.mapM fun e => (rustStr e.1).bind fun k => (R.read e.2).map fun v => (k, v)).map R.obj :=
  congrArg (Option.map R.obj) (eq_mapM _ R.readEntries rfl (fun e ds => by
    rw [readEntries]
    cases rustStr e.1 with
    | none => rfl
    | some k => cases R.read e.2 <;> rfl) ds)

section

variable {C : PyCodec}

theorem toRust_arr (ds : List Doc) : toRust C (.arr ds) = (ds.mapM (toRust C)).map .arr :=
  (jsonReader C).read_arr ds

theorem toRust_obj (ds : List (PyStr × Doc)) :
    toRust C (.obj ds) =
      (ds.mapM fun e => (rustStr e.1).bind fun k => (toRust C e.2).map fun v => (k, v)).map .obj :=
  (jsonReader C).read_obj ds

theorem ofRustItems_eq (vs : List Json) : ofRustItems C vs = vs.map (ofRust C) := by
  induction vs with
  | nil => rfl
  | cons v vs ih => rw [ofRustItems, ih, List.map_cons]

theorem ofRustEntries_eq (vs : List (String × Json)) :
    ofRustEntries C vs = vs.map fun e => (pyStr e.1, ofRust C e.2) := by
  induction vs with
  | nil => rfl
  | cons v vs ih => rw [ofRustEntries, ih, List.map_cons]

end

end Tierkreis
