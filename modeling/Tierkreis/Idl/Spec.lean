import Tierkreis.Idl.Models
import Tierkreis.Lib.Parsing

/-!
# The interface language of workers

The parser of a specification: models, then one interface with its methods. What it
accepts is a writing of what it returns, in a grammar that is looser than the one it
is documented by: separators between declarations may be left out or stand at the
end.
-/

namespace Tierkreis.Idl

open Lib.Parsing

/-- A class of Python itself. -/
def builtinClass (id : Nat) (name : String) : Origin :=
  .object id (some name) ("<class \x27" ++ name ++ "\x27>")

def intClass : Origin := builtinClass 0 "int"
def floatClass : Origin := builtinClass 1 "float"
def bytesClass : Origin := builtinClass 2 "bytes"
def strClass : Origin := builtinClass 3 "str"
def boolClass : Origin := builtinClass 4 "bool"
def noneClass : Origin := builtinClass 5 "NoneType"
def listClass : Origin := builtinClass 6 "list"
def dictClass : Origin := builtinClass 7 "dict"

/-- `GenericType(origin, [])`. -/
def plainType (origin : Origin) : GenericType := .mk origin []

/-- `GenericType(list, [t])`. -/
def listOf (t : GenericType) : GenericType := .mk listClass [.type t]

/-- `GenericType(dict, [GenericType(str, []), t])`. -/
def recordOf (t : GenericType) : GenericType :=
  .mk dictClass [.type (plainType strClass), .type t]

/-- `GenericType(name, params)`. -/
def genericOf (name : String) (params : List String) : GenericType :=
  .mk (.str name) (params.map .param)

structure Method where
  name : GenericType
  args : List TypedArg
  returnType : GenericType
  returnTypeIsPortmapping : Bool := false

structure Interface where
  name : String
  methods : List Method

/-! ## `type_symbols.py` -/

def signedNames : List String := ["integer", "int64", "int32", "int16", "int8", "safeint"]
def unsignedNames : List String := ["uint64", "uint32", "uint16", "uint8"]
def floatNames : List String := ["float", "float32", "float64", "numeric"]
def stringNames : List String := ["string", "url"]
def decimalNames : List String := ["decimal", "decimal128"]
def plainDateNames : List String := ["plainDate", "plainTime"]
def otherDateNames : List String := ["utcDateTime", "offsetDateTime", "duration"]
def unknownNames : List String := ["unknown", "void", "never"]

def signedInt : Parser String := lit signedNames
def unsignedInt : Parser String := lit unsignedNames
def integerT : Parser GenericType := coerce (plainType intClass) (either signedInt unsignedInt)
def floatT : Parser GenericType := coerce (plainType floatClass) (lit floatNames)
def bytesT : Parser GenericType := coerce (plainType bytesClass) (lit ["bytes"])
def stringT : Parser GenericType := coerce (plainType strClass) (lit stringNames)
def boolT : Parser GenericType := coerce (plainType boolClass) (lit ["bool"])
def noneT : Parser GenericType := coerce (plainType noneClass) (lit ["null"])
def decimalT : Parser GenericType := fail "Decimal" (lit decimalNames)
def plainDatetime : Parser String := lit plainDateNames
def otherDate : Parser String := lit otherDateNames
def dateT : Parser GenericType := fail "Date" (either plainDatetime otherDate)
def unknownT : Parser GenericType := fail "Unknown" (lit unknownNames)

/-- The class `[a-zA-Z0-9_]`. -/
def isIdent (c : Char) : Bool := c.isAlphanum || c == '_'

def ident : Parser String := reg "[a-zA-Z0-9_]+" isIdent

def arrayT (typeSymbol : Parser GenericType) : Parser GenericType :=
  map listOf (keepLeft (keepRight (lit ["Array<"]) typeSymbol) (lit [">"]))

def recordT (typeSymbol : Parser GenericType) : Parser GenericType :=
  map recordOf (keepLeft (keepRight (lit ["Record<"]) typeSymbol) (lit [">"]))

/-- The parameters between angle brackets, if there are any. -/
def generics : Parser (List String) :=
  map (Option.getD · [])
    (opt (keepLeft (keepRight (lit ["<"]) (rep ident (some (lit [","])))) (lit [">"])))

def genericT : Parser GenericType := map (fun x => genericOf x.1 x.2) (both ident generics)

/-- `type_symbol`, by the parser it calls for the types inside. -/
def typeSymbolOf (typeSymbol : Parser GenericType) : Parser GenericType :=
  firstOf integerT [floatT, bytesT, boolT, noneT, stringT, decimalT, unknownT, dateT,
    arrayT typeSymbol, recordT typeSymbol, genericT]

def typeSymbol : Parser GenericType := fix typeSymbolOf

/-! ## `spec.py` -/

def typeDecl : Parser TypedArg :=
  map (fun x => ⟨x.1, x.2, false⟩) (both (keepLeft ident (lit [":"])) typeSymbol)

def portmapping : Parser Bool := map Option.isSome (opt (lit ["@portmapping"]))

def model : Parser Model :=
  map (fun x => ⟨x.1, x.2.1, x.2.2⟩)
    (seq (keepLeft portmapping (lit ["model"])) genericT
      (keepLeft (keepRight (lit ["\x7b"]) (rep typeDecl (some (lit [";"])))) (lit ["\x7d"])))

def methodArgs : Parser (List TypedArg) :=
  keepLeft (keepLeft (keepRight (lit ["("]) (rep typeDecl (some (lit [","])))) (lit [")"]))
    (lit [":"])

def method : Parser Method :=
  map (fun x => ⟨x.1, x.2.1, x.2.2, false⟩) (seq genericT methodArgs typeSymbol)

def interface : Parser Interface :=
  map (fun x => ⟨x.1, x.2⟩)
    (both (keepLeft (keepRight (lit ["interface"]) ident) (lit ["\x7b"]))
      (keepLeft (rep method (some (lit [";"]))) (lit ["\x7d"])))

def spec : Parser (List Model × Interface) := both (rep model (none : Option (Parser String))) interface

/-! ## The grammar -/

/-- A name of letters, digits and underscores. -/
def NameTokens (name : String) (toks : List (List Char)) : Prop :=
  name.toList ≠ [] ∧ (∀ c ∈ name.toList, isIdent c = true) ∧ toks = [name.toList]

/-- The tokens of items, each with `sep` after it or not. -/
abbrev Listed {α : Type} (item : α → List (List Char) → Prop) (sep : String) :
    List α → List (List Char) → Prop :=
  Takes.Items item (· = [sep.toList])

/-- The parameters of a generic type. -/
inductive ParamTokens : List String → List (List Char) → Prop
  | none : ParamTokens [] []
  | params {params : List String} {toks : List (List Char)} (h : Listed NameTokens "," params toks) :
    ParamTokens params (['<'] :: (toks ++ [['>']]))

inductive TypeTokens : GenericType → List (List Char) → Prop
  | integer {name : String} (h : name ∈ signedNames ∨ name ∈ unsignedNames) :
    TypeTokens (plainType intClass) [name.toList]
  | float {name : String} (h : name ∈ floatNames) : TypeTokens (plainType floatClass) [name.toList]
  | bytes : TypeTokens (plainType bytesClass) ["bytes".toList]
  | string {name : String} (h : name ∈ stringNames) :
    TypeTokens (plainType strClass) [name.toList]
  | bool : TypeTokens (plainType boolClass) ["bool".toList]
  | null : TypeTokens (plainType noneClass) ["null".toList]
  | array {t : GenericType} {toks : List (List Char)} (h : TypeTokens t toks) :
    TypeTokens (listOf t) ("Array<".toList :: (toks ++ [['>']]))
  | record {t : GenericType} {toks : List (List Char)} (h : TypeTokens t toks) :
    TypeTokens (recordOf t) ("Record<".toList :: (toks ++ [['>']]))
  | generic {name : String} {params : List String} {t u : List (List Char)} (hname : NameTokens name t)
    (hparams : ParamTokens params u) : TypeTokens (genericOf name params) (t ++ u)

/-- The name of a model or a method. -/
def GenericTokens (t : GenericType) (toks : List (List Char)) : Prop :=
  ∃ name params u v, t = genericOf name params ∧ NameTokens name u ∧ ParamTokens params v ∧
    toks = u ++ v

def DeclTokens (arg : TypedArg) (toks : List (List Char)) : Prop :=
  ∃ t u, NameTokens arg.name t ∧ TypeTokens arg.t u ∧ arg.hasDefault = false ∧
    toks = t ++ [':'] :: u

def ModelTokens (m : Model) (toks : List (List Char)) : Prop :=
  ∃ t u, GenericTokens m.t t ∧ Listed DeclTokens ";" m.decls u ∧
    toks = (if m.isPortmapping then ["@portmapping".toList] else []) ++
      "model".toList :: (t ++ ['\x7b'] :: (u ++ [['\x7d']]))

def MethodTokens (m : Method) (toks : List (List Char)) : Prop :=
  ∃ t u v, GenericTokens m.name t ∧ Listed DeclTokens "," m.args u ∧ TypeTokens m.returnType v ∧
    m.returnTypeIsPortmapping = false ∧ toks = t ++ ['('] :: (u ++ [')'] :: [':'] :: v)

def InterfaceTokens (i : Interface) (toks : List (List Char)) : Prop :=
  ∃ t u, NameTokens i.name t ∧ Listed MethodTokens ";" i.methods u ∧
    toks = "interface".toList :: (t ++ ['\x7b'] :: (u ++ [['\x7d']]))

/-- The tokens of a specification. -/
def SpecTokens (s : List Model × Interface) (toks : List (List Char)) : Prop :=
  ∃ t u, Takes.Items ModelTokens (fun _ => False) s.1 t ∧ InterfaceTokens s.2 u ∧ toks = t ++ u

/-! ## What is accepted -/

theorem isIdent_not_space {c : Char} (h : isIdent c = true) : isSpace c = false := by
  have hrange : (48 ≤ c.toNat ∧ c.toNat ≤ 57) ∨ (65 ≤ c.toNat ∧ c.toNat ≤ 122) := by
    delta isIdent Char.isAlphanum Char.isAlpha Char.isUpper Char.isLower Char.isDigit at h
    simp only [Bool.or_eq_true, Bool.and_eq_true, decide_eq_true_eq, beq_iff_eq, ge_iff_le,
      UInt32.le_iff_toNat_le] at h
    rcases h with ((h | h) | h) | rfl
    · exact .inr ⟨h.1, Nat.le_trans h.2 (by decide)⟩
    · exact .inr ⟨Nat.le_trans (by decide) h.1, h.2⟩
    · exact .inl h
    · exact .inr ⟨by decide, by decide⟩
  simp only [isSpace, Bool.or_eq_false_iff, Bool.and_eq_false_iff, decide_eq_false_iff_not,
    beq_eq_false_iff_ne]
  omega

theorem takes_ident : Takes ident NameTokens :=
  (Takes.reg _ fun _ => isIdent_not_space).mono fun _ _ h => ⟨h.1, h.2.1, h.2.2⟩

/-- A literal that stands alone. -/
theorem takes_lit {a : String} (ha : Token a.toList) :
    Takes (lit [a]) fun _ toks => toks = [a.toList] := by
  refine (Takes.lit (by simpa using ha)).mono fun b toks h => ?_
  obtain ⟨hb, rfl⟩ := h
  rw [List.mem_singleton.1 hb]

theorem takes_sep {a : String} (ha : Token a.toList) :
    ∀ q, some (lit [a]) = some q → Takes q fun _ toks => toks = [a.toList] := by
  rintro q ⟨⟩
  exact takes_lit ha

theorem Listed.of_items {α : Type} {item : α → List (List Char) → Prop} {a : String} {as : List α}
    {toks : List (List Char)}
    (h : Takes.Items item (Takes.Sep (some (lit [a])) fun _ toks => toks = [a.toList]) as toks) :
    Listed item a as toks := by
  induction h with
  | nil => exact .nil
  | item ha _ ih => exact .item ha ih
  | separated ha hsep _ ih =>
    obtain ⟨_, _, -, hsep⟩ := hsep
    exact .separated ha hsep ih

/-- Items between an opening and a closing literal. -/
theorem takes_enclosed {α : Type} {p : Parser α} {G : α → List (List Char) → Prop} (hp : Takes p G)
    {l r : String} (hl : Token l.toList) (hr : Token r.toList) :
    Takes (keepLeft (keepRight (lit [l]) p) (lit [r])) fun a toks =>
      ∃ t, G a t ∧ toks = l.toList :: (t ++ [r.toList]) := by
  refine (((takes_lit hl).andThen hp _).andThen (takes_lit hr) _).mono ?_
  rintro a toks ⟨a', b, t, u, ⟨_, a'', v, w, rfl, ha, rfl, rfl⟩, rfl, rfl, rfl⟩
  exact ⟨w, ha, by simp⟩

theorem takes_listed {α : Type} {p : Parser α} {G : α → List (List Char) → Prop} (hp : Takes p G)
    {a : String} (ha : Token a.toList) : Takes (rep p (some (lit [a]))) (Listed G a) :=
  (hp.rep (takes_sep ha)).mono fun _ _ h => Listed.of_items h

theorem takes_generics : Takes generics ParamTokens := by
  refine ((takes_enclosed (takes_listed takes_ident (a := ",") (by decide)) (by decide)
    (by decide)).opt.map _).mono ?_
  rintro params toks ⟨o, ho, rfl⟩
  cases o with
  | none =>
    cases ho
    exact .none
  | some params =>
    obtain ⟨t, ht, rfl⟩ := ho
    exact .params ht

theorem takes_genericT : Takes genericT fun t toks => GenericTokens t toks := by
  refine ((takes_ident.andThen takes_generics _).map _).mono ?_
  rintro t toks ⟨x, ⟨name, params, u, v, hname, hparams, rfl, rfl⟩, rfl⟩
  exact ⟨name, params, u, v, rfl, hname, hparams, rfl⟩

/-- A type that has one of `names`. -/
theorem takes_names {names : List String} (hnames : ∀ a ∈ names, Token a.toList) {origin : Origin}
    (h : ∀ a ∈ names, TypeTokens (plainType origin) [a.toList]) :
    Takes (coerce (plainType origin) (lit names)) TypeTokens := by
  refine ((Takes.lit hnames).map _).mono ?_
  rintro t toks ⟨a, ⟨ha, rfl⟩, rfl⟩
  exact h a ha

theorem takes_integerT : Takes integerT TypeTokens := by
  have hsigned : Takes signedInt fun a toks =>
      (a ∈ signedNames ∨ a ∈ unsignedNames) ∧ toks = [a.toList] :=
    (Takes.lit (by decide)).mono fun a toks h => ⟨.inl h.1, h.2⟩
  have hunsigned : Takes unsignedInt fun a toks =>
      (a ∈ signedNames ∨ a ∈ unsignedNames) ∧ toks = [a.toList] :=
    (Takes.lit (by decide)).mono fun a toks h => ⟨.inr h.1, h.2⟩
  refine ((hsigned.either hunsigned).map _).mono ?_
  rintro t toks ⟨a, ⟨ha, rfl⟩, rfl⟩
  exact .integer ha

theorem takes_typeSymbolOf {p : Parser GenericType} (hp : Takes p TypeTokens) :
    Takes (typeSymbolOf p) TypeTokens := by
  refine takes_integerT.firstOf ?_
  simp only [List.forall_mem_cons]
  refine ⟨takes_names (by decide) fun a => .float, takes_names (by decide) ?_,
    takes_names (by decide) ?_, takes_names (by decide) ?_, takes_names (by decide) fun a => .string,
    Takes.fail _, Takes.fail _, Takes.fail _, ?_, ?_, ?_, fun _ h => by cases h⟩
  · rintro a ha
    rw [List.mem_singleton.1 ha]
    exact .bytes
  · rintro a ha
    rw [List.mem_singleton.1 ha]
    exact .bool
  · rintro a ha
    rw [List.mem_singleton.1 ha]
    exact .null
  · refine ((takes_enclosed hp (by decide) (by decide)).map _).mono ?_
    rintro t toks ⟨t', ⟨u, ht, rfl⟩, rfl⟩
    exact .array ht
  · refine ((takes_enclosed hp (by decide) (by decide)).map _).mono ?_
    rintro t toks ⟨t', ⟨u, ht, rfl⟩, rfl⟩
    exact .record ht
  · refine takes_genericT.mono ?_
    rintro t toks ⟨name, params, u, v, rfl, hname, hparams, rfl⟩
    exact .generic hname hparams

theorem takes_typeSymbol : Takes typeSymbol TypeTokens := Takes.fix fun _ => takes_typeSymbolOf

theorem takes_typeDecl : Takes typeDecl DeclTokens := by
  refine (((takes_ident.andThen (takes_lit (a := ":") (by decide)) _).andThen takes_typeSymbol
    _).map _).mono ?_
  rintro arg toks ⟨x, ⟨_, t, u, v, ⟨name, _, u', w, hname, rfl, rfl, rfl⟩, ht, rfl, rfl⟩, rfl⟩
  exact ⟨u', v, hname, ht, rfl, by simp⟩

theorem takes_model : Takes model ModelTokens := by
  have hport := (takes_lit (a := "@portmapping") (by decide)).opt.map Option.isSome
  have hdecls := takes_enclosed (takes_listed takes_typeDecl (a := ";") (by decide))
    (l := "\x7b") (r := "\x7d") (by decide) (by decide)
  refine (((hport.andThen (takes_lit (a := "model") (by decide)) _).andThen
    (takes_genericT.andThen hdecls _) _).map _).mono ?_
  rintro m toks ⟨x, ⟨b, y, t, u, ⟨b', _, t', u', ⟨o, ho, rfl⟩, rfl, rfl, rfl⟩,
    ⟨name, decls, v, w, hname, ⟨w', hdecls, rfl⟩, rfl, rfl⟩, rfl, rfl⟩, rfl⟩
  refine ⟨v, w', hname, hdecls, ?_⟩
  cases o with
  | none =>
    cases ho
    simp
  | some a =>
    obtain rfl : t' = ["@portmapping".toList] := ho
    simp

theorem takes_methodArgs : Takes methodArgs fun args toks =>
    ∃ u, Listed DeclTokens "," args u ∧ toks = ['('] :: (u ++ [[')'], [':']]) := by
  refine ((takes_enclosed (takes_listed takes_typeDecl (a := ",") (by decide)) (l := "(") (r := ")")
    (by decide) (by decide)).andThen (takes_lit (a := ":") (by decide)) _).mono ?_
  rintro args toks ⟨_, _, t, u, ⟨v, hargs, rfl⟩, rfl, rfl, rfl⟩
  exact ⟨v, hargs, by simp⟩

theorem takes_method : Takes method MethodTokens := by
  refine ((takes_genericT.andThen (takes_methodArgs.andThen takes_typeSymbol _) _).map _).mono ?_
  rintro m toks ⟨x, ⟨name, y, t, u, hname, ⟨args, r, v, w, ⟨v', hargs, rfl⟩, hr, rfl, rfl⟩, rfl, rfl⟩,
    rfl⟩
  exact ⟨t, v', w, hname, hargs, hr, rfl, by simp⟩

theorem takes_interface : Takes interface InterfaceTokens := by
  have hname := ((takes_lit (a := "interface") (by decide)).andThen takes_ident fun _ s => s).andThen
    (takes_lit (a := "\x7b") (by decide)) fun t _ => t
  have hmethods := (takes_listed takes_method (a := ";") (by decide)).andThen
    (takes_lit (a := "\x7d") (by decide)) fun t _ => t
  refine ((hname.andThen hmethods _).map _).mono ?_
  rintro i toks ⟨x, ⟨name, methods, t, u, ⟨name', _, t', u', ⟨_, n, v, w, rfl, hn, rfl, rfl⟩, rfl,
    rfl, rfl⟩, ⟨ms, _, v', w', hms, rfl, rfl, rfl⟩, rfl, rfl⟩, rfl⟩
  exact ⟨w, v', hn, hms, by simp⟩

theorem takes_spec : Takes spec SpecTokens := by
  have hmodels : Takes (rep model (none : Option (Parser String))) _ :=
    takes_model.rep (H := fun _ _ => False) (by rintro q ⟨⟩)
  refine (hmodels.andThen takes_interface _).mono ?_
  rintro s toks ⟨ms, i, t, u, hms, hi, rfl, rfl⟩
  refine ⟨t, u, ?_, hi, rfl⟩
  clear hi
  induction hms with
  | nil => exact .nil
  | item ha _ ih => exact .item ha ih
  | separated ha hsep _ ih =>
    obtain ⟨_, _, _, hfalse⟩ := hsep
    exact hfalse.elim

/-! ## Every repetition ends -/

theorem nonempty_name : Nonempty NameTokens := by
  rintro name toks ⟨-, -, rfl⟩
  exact List.cons_ne_nil _ _

theorem nonempty_decl : Nonempty DeclTokens := by
  rintro arg toks ⟨t, u, -, -, -, rfl⟩
  exact List.append_ne_nil_of_right_ne_nil t (List.cons_ne_nil _ _)

theorem nonempty_model : Nonempty ModelTokens := by
  rintro m toks ⟨t, u, -, -, rfl⟩
  exact List.append_ne_nil_of_right_ne_nil _ (List.cons_ne_nil _ _)

theorem nonempty_method : Nonempty MethodTokens := by
  rintro m toks ⟨t, u, v, -, -, -, -, rfl⟩
  exact List.append_ne_nil_of_right_ne_nil t (List.cons_ne_nil _ _)

theorem ends_listed {α : Type} {p : Parser α} {G : α → List (List Char) → Prop} (hp : Ends p)
    (hG : Takes p G) (hne : Nonempty G) {a : String} (ha : Token a.toList) :
    Ends (rep p (some (lit [a]))) :=
  hp.rep hG hne (by rintro q ⟨⟩; exact Ends.lit _) (takes_sep ha)

theorem ends_enclosed {α : Type} {p : Parser α} {G : α → List (List Char) → Prop} (hp : Ends p)
    (hG : Takes p G) {l r : String} (hl : Token l.toList) :
    Ends (keepLeft (keepRight (lit [l]) p) (lit [r])) :=
  ((Ends.lit _).andThen (takes_lit hl) hp _).andThen ((takes_lit hl).andThen hG _) (Ends.lit _) _

theorem ends_generics : Ends generics :=
  ((ends_enclosed (ends_listed (Ends.reg _ _) takes_ident nonempty_name (a := ",") (by decide))
    (takes_listed takes_ident (by decide)) (by decide)).opt.map _)

theorem ends_genericT : Ends genericT :=
  ((Ends.reg _ _).andThen takes_ident ends_generics _).map _

/-- The types inside brackets are shorter. -/
theorem agree_bracket {n : Nat} {p q : Parser GenericType} (h : Agree n p q)
    (hp : Takes p TypeTokens) {l : String} (hl : Token l.toList) (f : GenericType → GenericType) :
    Agree (n + 1) (map f (keepLeft (keepRight (lit [l]) p) (lit [">"])))
      (map f (keepLeft (keepRight (lit [l]) q) (lit [">"]))) := by
  have hne : Nonempty fun (_ : String) toks => toks = [l.toList] := by
    rintro _ toks rfl
    exact List.cons_ne_nil _ _
  have hopen := (Agree.lit (n := n + 1) [l]).andThen_guarded (takes_lit hl) hne h fun _ s => s
  exact (hopen.andThen ((takes_lit hl).andThen hp _) (Agree.lit _) _).map f

theorem agree_typeSymbolOf {n : Nat} {p q : Parser GenericType} (h : Agree n p q)
    (hp : Takes p TypeTokens) : Agree (n + 1) (typeSymbolOf p) (typeSymbolOf q) := by
  refine Agree.firstOf (((Ends.lit _).either (Ends.lit _)).map _ _) ?_
  simp only [List.forall₂_cons, List.forall₂_nil_left_iff, and_true]
  exact ⟨(Ends.lit _).map _ _, (Ends.lit _).map _ _, (Ends.lit _).map _ _, (Ends.lit _).map _ _,
    (Ends.lit _).map _ _, (Ends.lit _).fail _ _, (Ends.lit _).fail _ _,
    ((Ends.lit _).either (Ends.lit _)).fail _ _, agree_bracket h hp (by decide) _,
    agree_bracket h hp (by decide) _, ends_genericT _⟩

/-- A type symbol is read by the parser it is made from. -/
theorem typeSymbol_eq : typeSymbol = typeSymbolOf typeSymbol ∧ Ends typeSymbol :=
  fix_eq (fun _ => takes_typeSymbolOf) agree_typeSymbolOf

theorem ends_typeDecl : Ends typeDecl :=
  (((Ends.reg _ _).andThen takes_ident (Ends.lit _) _).andThen
    (takes_ident.andThen (takes_lit (by decide)) _) typeSymbol_eq.2 _).map _

theorem ends_decls {l r sep : String} (hl : Token l.toList) (hsep : Token sep.toList) :
    Ends (keepLeft (keepRight (lit [l]) (rep typeDecl (some (lit [sep])))) (lit [r])) :=
  ends_enclosed (ends_listed ends_typeDecl takes_typeDecl nonempty_decl hsep)
    (takes_listed takes_typeDecl hsep) hl

theorem ends_model : Ends model :=
  have htakes : Takes portmapping _ := (takes_lit (by decide)).opt.map _
  ((((((Ends.lit _).opt).map _).andThen htakes (Ends.lit _) _).andThen
    (htakes.andThen (takes_lit (by decide)) _)
    (ends_genericT.andThen takes_genericT (ends_decls (by decide) (by decide)) _) _).map _)

theorem ends_method : Ends method :=
  have htakes := takes_enclosed (takes_listed takes_typeDecl (a := ",") (by decide)) (l := "(")
    (r := ")") (by decide) (by decide)
  (ends_genericT.andThen takes_genericT
    (((ends_decls (by decide) (by decide)).andThen htakes (Ends.lit _) _).andThen takes_methodArgs
      typeSymbol_eq.2 _) _).map _

theorem ends_interface : Ends interface :=
  have hkeyword := (Ends.lit ["interface"]).andThen (takes_lit (by decide)) (Ends.reg _ _)
    fun _ s => s
  have hname := (takes_lit (a := "interface") (by decide)).andThen takes_ident fun _ s => s
  have hmethods := (ends_listed ends_method takes_method nonempty_method (a := ";") (by decide)).andThen
    (takes_listed takes_method (by decide)) (Ends.lit ["\x7d"]) fun t _ => t
  ((hkeyword.andThen hname (Ends.lit _) _).andThen
    (hname.andThen (takes_lit (by decide)) _) hmethods _).map _

theorem ends_spec : Ends spec :=
  have hsep : ∀ q, (none : Option (Parser String)) = some q → Ends q ∧ Takes q fun _ _ => False := by
    rintro q ⟨⟩
  (ends_model.rep takes_model nonempty_model (fun q h => (hsep q h).1)
    fun q h => (hsep q h).2).andThen (takes_model.rep fun q h => (hsep q h).2) ends_interface _

/-- Every text is read to its end or refused, and one that is read was written by the grammar, up
to what is left of it. -/
theorem spec_sound (ins : List Char) :
    call spec ins ≠ .error .endless ∧
      ∀ s rest, call spec ins = .ok (s, rest) →
        ∃ toks text ws, SpecTokens s toks ∧ Spaced toks text ∧ Blank ws ∧
          ins = text ++ rest ++ ws :=
  ⟨ends_spec.ne_endless _, fun _ _ h => takes_spec.call h⟩

end Tierkreis.Idl
