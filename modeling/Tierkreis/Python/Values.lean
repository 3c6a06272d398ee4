import Tierkreis.Executor.Builtins
import Tierkreis.Python.MapElements

/-!
# Documents as `serde_json` values

The value that `serde_json` reads from a document of Python and the document that
Python reads from a value, and the documents that come back unchanged.
-/

namespace Tierkreis

open Lib

/-! ## Reading and writing -/

section

variable (C : PyCodec)

/-- A number is kept as an integer or a float. -/
def valueReader : JsonReader Value where
  null := .null
  bool := .bool
  int n := if -2 ^ 63 ≤ n ∧ n < 2 ^ 64 then some (.int n) else (C.readInt n).map .float
  float x := (C.readFloat x).map .float
  str := .str
  arr := .arr
  obj := .obj

/-- The value that `serde_json` reads from a document of moderate depth. -/
def valueOf (d : Doc) : Option Value := (valueReader C).read d

def readValue (d : Doc) : Option Value := if d.depth < recursionLimit then valueOf C d else none

end

mutual

/-- The document of a value that `serde_json` has written. -/
def docOfValue : Value → Doc
  | .null => .null
  | .bool b => .bool b
  | .int n => .int n
  | .float x => if x.isFinite then .float x else .null
  | .str s => .str (pyStr s)
  | .arr items => .arr (docOfValues items)
  | .obj entries => .obj (docOfValueEntries entries)

def docOfValues : List Value → List Doc
  | [] => []
  | v :: vs => docOfValue v :: docOfValues vs

def docOfValueEntries : List (String × Value) → List (PyStr × Doc)
  | [] => []
  | (k, v) :: vs => (pyStr k, docOfValue v) :: docOfValueEntries vs

end

/-! ## Loaded documents -/

/-- A string as `loads` gives it: no two of its characters are a surrogate pair. -/
structure Loaded (s : PyStr) : Prop where
  range : ∀ c ∈ s, c < 0x110000
  noPairs : s.IsChain fun c d => ¬(0xD800 ≤ c ∧ c ≤ 0xDBFF ∧ 0xDC00 ≤ d ∧ d ≤ 0xDFFF)

/-- A document as `loads` gives it. -/
inductive Doc.Loaded : Doc → Prop
  | null : Doc.Loaded .null
  | bool (b : Bool) : Doc.Loaded (.bool b)
  | int (n : Int) : Doc.Loaded (.int n)
  | float (x : Float) : Doc.Loaded (.float x)
  | str {s : PyStr} (h : Tierkreis.Loaded s) : Doc.Loaded (.str s)
  | arr {items : List Doc} (h : ∀ d ∈ items, Doc.Loaded d) : Doc.Loaded (.arr items)
  | obj {entries : List (PyStr × Doc)} (hk : ∀ e ∈ entries, Tierkreis.Loaded e.1)
      (hs : (entries.map Prod.fst).Pairwise (· < ·)) (h : ∀ e ∈ entries, Doc.Loaded e.2) :
      Doc.Loaded (.obj entries)

theorem rustChars_eq_none {s : PyStr}
    (hp : s.IsChain fun c d => ¬(0xD800 ≤ c ∧ c ≤ 0xDBFF ∧ 0xDC00 ≤ d ∧ d ≤ 0xDFFF))
    (h : ¬NoSurrogates s) : rustChars s = none := by
  fun_induction rustChars s with
  | case1 => exact absurd (fun _ hc => by cases hc) h
  | case2 c d s hc hpair ih =>
    rw [List.isChain_cons_cons] at hp
    simp only [isSurrogate, Bool.and_eq_true, decide_eq_true_eq] at hc
    exact absurd ⟨hc.1, hpair⟩ hp.1
  | case3 c d s hc hpair => rfl
  | case4 c d s hc ih =>
    rw [List.isChain_cons_cons] at hp
    rw [ih hp.2 fun hs => h ?_]
    · rfl
    · exact List.forall_mem_cons.2 ⟨by simpa using hc, hs⟩
  | case5 c hc => rfl
  | case6 c hc => exact absurd (fun e he => by rw [List.mem_singleton.1 he]; simpa using hc) h

/-- A loaded string is read when it has no surrogates, and then exactly. -/
theorem Loaded.rustStr_iff {s : PyStr} (hs : Loaded s) :
    (∃ t, rustStr s = some t) ↔ NoSurrogates s := by
  constructor
  · rintro ⟨t, ht⟩
    by_contra h
    rw [rustStr, rustChars_eq_none hs.noPairs h] at ht
    cases ht
  · intro h
    obtain ⟨t, ht, -⟩ := (Tierkreis.rustStr_iff hs.range).2 h
    exact ⟨t, ht⟩

section Reading

variable {C : PyCodec}

end Reading

end Tierkreis
