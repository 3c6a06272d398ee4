import Tierkreis.Python.Types

/-!
# Annotated values of Python

Annotations of any depth, with unions, tuples, structs and the classes that convert
themselves to a dict or a list, and the two recursions over them: the encoder, which
looks at the annotation of a value for that of its parts, and the decoder, which
coerces what `json` has read.
-/

namespace Tierkreis.Annotated

open Lib

/-- A value of a worker function. An instance of a convertible class comes with what its `to_dict`
or `to_list` returns. -/
inductive Val
  | none
  | bool (b : Bool)
  | int (n : Int)
  | float (x : Float)
  | str (s : PyStr)
  | bytes (b : Bytes)
  | complex (re im : Float)
  | list (items : List Val)
  | tuple (items : List Val)
  | dict (entries : List (Val × Val))
  | struct (cls : String) (fields : List (PyStr × Val))
  | inst (cls : String) (id : Nat) (converted : Val)

/-- An annotation. `X | None` is a union. -/
inductive Hint
  | none
  | bool
  | int
  | float
  | str
  | bytes
  | complex
  | list (arg : Hint)
  | dict (key arg : Hint)
  | tuple (args : List Hint)
  | union (args : List Hint)
  | struct (cls : String) (fields : List (PyStr × Hint))
  | convertible (cls : String)

/-- What the decoder raises. -/
inductive Exc
  /-- An `AssertionError` or a `ValidationError`. -/
  | refused
  | other
  deriving DecidableEq, Repr

/-- What the classes of a worker bring along: the `from_dict` or `from_list` of a convertible
class, its `__annotations__`, and the defaults of a struct. -/
structure Classes where
  fromVal : String → Val → Except Exc Val
  annotations : String → List (PyStr × Hint)
  defaults : String → List (PyStr × Val)

/-- The module `json`, and what `repr` writes for a float. -/
structure PyJson where
  dumps : Doc → Bytes
  loads : Bytes → Option Doc
  floatRepr : Float → PyStr

/-! ## Writing -/

def getArgs : Option Hint → List Hint
  | some (.list arg) => [arg]
  | some (.dict key arg) => [key, arg]
  | some (.tuple args) => args
  | some (.union args) => args
  | _ => []

/-- `annotation.__annotations__`, if it has any. -/
def annotationsOf (K : Classes) : Option Hint → Option (List (PyStr × Hint))
  | some (.struct _ fields) => some fields
  | some (.convertible cls) => some (K.annotations cls)
  | _ => none

mutual

/-- What is given to `json`. An error is `none`. -/
def serFromPtype (K : Classes) : Option Hint → Val → Option Val
  | ann, .struct _ fields => do
    let annotations ← annotationsOf K ann
    let entries ← serFields K annotations fields
    pure (.dict entries)
  | ann, .tuple items =>
    match getArgs ann with
    | [] => (serItems K none items).map .tuple
    | args => (serTuple K args items).map .tuple
  | ann, .list items => (serItems K (getArgs ann).head? items).map .list
  | ann, .dict entries =>
    match getArgs ann with
    | [] => (serEntries K none entries).map .dict
    | [_] => none
    | _ :: arg :: _ => (serEntries K (some arg) entries).map .dict
  | _, .inst _ _ converted => serFromPtype K none converted
  | _, v => some v

def serItems (K : Classes) (ann : Option Hint) : List Val → Option (List Val)
  | [] => some []
  | p :: ps => do
    let w ← serFromPtype K ann p
    let ws ← serItems K ann ps
    pure (w :: ws)

/-- Each item with the argument at its place. -/
def serTuple (K : Classes) : List Hint → List Val → Option (List Val)
  | _, [] => some []
  | [], _ :: _ => none
  | arg :: args, p :: ps => do
    let w ← serFromPtype K (some arg) p
    let ws ← serTuple K args ps
    pure (w :: ws)

def serEntries (K : Classes) (ann : Option Hint) : List (Val × Val) → Option (List (Val × Val))
  | [] => some []
  | (k, p) :: ps => do
    let w ← serFromPtype K ann p
    let ws ← serEntries K ann ps
    pure ((k, w) :: ws)

def serFields (K : Classes) (annotations : List (PyStr × Hint)) :
    List (PyStr × Val) → Option (List (Val × Val))
  | [] => some []
  | (k, p) :: ps => do
    let ann ← annotations.lookup k
    let w ← serFromPtype K (some ann) p
    let ws ← serFields K annotations ps
    pure ((.str k, w) :: ws)

end

/-- The key of a json object that a key of a dict is written as. -/
def keyText (J : PyJson) : Val → Option PyStr
  | .str s => some s
  | .int n => some (pyStr (toString n))
  | .bool b => some (pyStr (if b then "true" else "false"))
  | .none => some (pyStr "null")
  | .float x => some (J.floatRepr x)
  | _ => none

/-- What the encoder writes for bytes. -/
def bytesDoc (b : Bytes) : Doc :=
  .obj [(pyStr "__tkr_bytes__", .bool true), (pyStr "bytes", .str (b64encode b))]

mutual

/-- The document of what is given to `json`. -/
def jsonDoc (J : PyJson) : Val → Option Doc
  | .none => some .null
  | .bool b => some (.bool b)
  | .int n => some (.int n)
  | .float x => some (.float x)
  | .str s => some (.str s)
  | .bytes b => some (bytesDoc b)
  | .complex re im => some (.arr [.float re, .float im])
  | .list items => (jsonItems J items).map .arr
  | .tuple items => (jsonItems J items).map .arr
  | .dict entries => (jsonEntries J entries).map .obj
  | .struct _ fields => (jsonFields J fields).map .arr
  | .inst _ _ _ => none

def jsonItems (J : PyJson) : List Val → Option (List Doc)
  | [] => some []
  | p :: ps => do
    let d ← jsonDoc J p
    let ds ← jsonItems J ps
    pure (d :: ds)

def jsonEntries (J : PyJson) : List (Val × Val) → Option (List (PyStr × Doc))
  | [] => some []
  | (k, p) :: ps => do
    let k ← keyText J k
    let d ← jsonDoc J p
    let ds ← jsonEntries J ps
    pure ((k, d) :: ds)

/-- A named tuple is a tuple to `json`. -/
def jsonFields (J : PyJson) : List (PyStr × Val) → Option (List Doc)
  | [] => some []
  | (_, p) :: ps => do
    let d ← jsonDoc J p
    let ds ← jsonFields J ps
    pure (d :: ds)

end

def bytesFromPtype (J : PyJson) (K : Classes) (v : Val) (ann : Hint) : Option Bytes := do
  match ← serFromPtype K (some ann) v with
  | .bytes b => pure b
  | w => (jsonDoc J w).map J.dumps

/-! ## Reading -/

def strEntries (entries : List (PyStr × Val)) : List (Val × Val) :=
  entries.map fun e => (.str e.1, e.2)

/-- `d[k] = v`. -/
def setItem {α : Type} (d : List (PyStr × α)) (e : PyStr × α) : List (PyStr × α) :=
  match d with
  | [] => [e]
  | e' :: d => if e'.1 = e.1 then (e'.1, e.2) :: d else e' :: setItem d e

def dictOf {α : Type} (entries : List (PyStr × α)) : List (PyStr × α) := entries.foldl setItem []

/-- The hook of the decoder for an object whose entries are decoded. -/
def objectHook (entries : List (PyStr × Val)) : Option Val :=
  match entries.lookup (pyStr "__tkr_bytes__"), entries.lookup (pyStr "bytes") with
  | some _, some (.str s) => (b64decode s).map .bytes
  | some _, some (.bytes b) => (Base64.decode (b.map UInt8.toNat)).map .bytes
  | some _, some _ => none
  | _, _ => some (.dict (strEntries entries))

mutual

def decode : Doc → Option Val
  | .null => some .none
  | .bool b => some (.bool b)
  | .int n => some (.int n)
  | .float x => some (.float x)
  | .str s => some (.str s)
  | .arr items => (decodeItems items).map .list
  | .obj entries => (decodeEntries entries).bind fun es => objectHook (dictOf es)

def decodeItems : List Doc → Option (List Val)
  | [] => some []
  | d :: ds => do
    let p ← decode d
    let ps ← decodeItems ds
    pure (p :: ps)

def decodeEntries : List (PyStr × Doc) → Option (List (PyStr × Val))
  | [] => some []
  | (k, d) :: ds => do
    let p ← decode d
    let ps ← decodeEntries ds
    pure ((k, p) :: ps)

end

/-- An integer beyond the floats is an error. -/
def realOf : Val → Except Exc Float
  | .float x => .ok x
  | .int n => if (Float.ofInt n).isFinite then .ok (Float.ofInt n) else .error .other
  | .bool b => .ok (if b then 1 else 0)
  | _ => .error .other

/-- `complex(real=ser[0], imag=ser[1])`. -/
def complexOf : Val → Except Exc Val
  | .list (re :: im :: _) => do pure (.complex (← realOf re) (← realOf im))
  | .bytes (re :: im :: _) => .ok (.complex (Float.ofNat re.toNat) (Float.ofNat im.toNat))
  | _ => .error .other

/-- The items of a `Sequence`. -/
def sequenceItems : Val → Option (List Val)
  | .list items => some items
  | .str s => some (s.map fun c => .str [c])
  | .bytes b => some (b.map fun x => .int x.toNat)
  | _ => none

/-- What a value gives when it is iterated over. -/
def iterate : Val → Except Exc (List Val)
  | .dict entries => .ok (entries.map Prod.fst)
  | p =>
    match sequenceItems p with
    | some items => .ok items
    | none => .error .other

/-- `ser[k]` of a dict. -/
def getEntry (k : PyStr) : List (Val × Val) → Except Exc Val
  | [] => .error .other
  | (.str s, p) :: entries => if s = k then .ok p else getEntry k entries
  | _ :: entries => getEntry k entries

/-- The named tuple of values for its first fields; the others have their defaults. -/
def makeStruct (K : Classes) (cls : String) (names : List PyStr) (xs : List Val) : Except Exc Val :=
  if names.length < xs.length then .error .other
  else
    match (names.drop xs.length).mapM fun k => (K.defaults cls).lookup k with
    | some rest => .ok (.struct cls (names.zip (xs ++ rest)))
    | none => .error .other

mutual

/-- Scalars are left as they are. -/
def coerceFromAnnotation (K : Classes) : Hint → Val → Except Exc Val
  | .union args, p => coerceUnion K args p
  | _, .none => .ok .none
  | .complex, p => complexOf p
  | .convertible cls, p => K.fromVal cls p
  | .struct cls fields, p =>
    match sequenceItems p with
    | some items => do makeStruct K cls (fields.map Prod.fst) (← coerceZip K fields items)
    | none =>
      match p with
      | .dict entries => do makeStruct K cls (fields.map Prod.fst) (← coerceFields K fields entries)
      | _ => .error .other
  | .tuple [], p => .ok p
  | .tuple (arg :: _), p => do
    pure (.list (← (← iterate p).mapM <| coerceFromAnnotation K arg))
  | .list arg, p => do
    pure (.list (← (← iterate p).mapM <| coerceFromAnnotation K arg))
  | .dict _ arg, p =>
    match p with
    | .dict entries => do
      pure (.dict (← entries.mapM fun e => do pure (e.1, ← coerceFromAnnotation K arg e.2)))
    | _ => .error .other
  | .none, p => .ok p
  | .bool, p => .ok p
  | .int, p => .ok p
  | .float, p => .ok p
  | .str, p => .ok p
  | .bytes, p => .ok p

/-- The first member that does not refuse. -/
def coerceUnion (K : Classes) : List Hint → Val → Except Exc Val
  | [], _ => .error .other
  | arg :: args, p =>
    match coerceFromAnnotation K arg p with
    | .error .refused => coerceUnion K args p
    | r => r

def coerceZip (K : Classes) : List (PyStr × Hint) → List Val → Except Exc (List Val)
  | (_, arg) :: fields, p :: ps => do
    let x ← coerceFromAnnotation K arg p
    let xs ← coerceZip K fields ps
    pure (x :: xs)
  | _, _ => .ok []

def coerceFields (K : Classes) : List (PyStr × Hint) → List (Val × Val) → Except Exc (List Val)
  | [], _ => .ok []
  | (k, arg) :: fields, entries => do
    let p ← getEntry k entries
    let x ← coerceFromAnnotation K arg p
    let xs ← coerceFields K fields entries
    pure (x :: xs)

end

/-- An error is `none`. -/
def ptypeFromBytes (J : PyJson) (K : Classes) (bs : Bytes) (ann : Hint) : Option Val :=
  match ann with
  | .bytes => some (.bytes bs)
  | _ => do
    let d ← J.loads bs
    let p ← decode d
    Except.toOption <| coerceFromAnnotation K ann p

end Tierkreis.Annotated
