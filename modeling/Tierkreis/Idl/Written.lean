import Tierkreis.Idl.Spec
import Tierkreis.Lib.ParsingTokens

/-!
# Reading back a written specification

A specification in its documented form, with any spaces between its tokens, is read
back as it was meant: every declaration but the last has a separator after it, and no
name of a type begins with the name of a built-in type, which would be read in its
place.
-/

namespace Tierkreis.Idl

open Lib.Parsing

inductive BuiltinType
  | int
  | float
  | bytes
  | string
  | bool
  | null

/-- The class that a built-in type is read as. -/
def BuiltinType.origin : BuiltinType → Origin
  | int => intClass
  | float => floatClass
  | bytes => bytesClass
  | string => strClass
  | bool => boolClass
  | null => noneClass

/-- The names of a built-in type that are read whole: `float32` and `float64` are read as `float`. -/
def BuiltinType.names : BuiltinType → List String
  | int => signedNames ++ unsignedNames
  | float => ["float", "numeric"]
  | bytes => ["bytes"]
  | string => stringNames
  | bool => ["bool"]
  | null => ["null"]

/-- The names that a type symbol is looked for in before it is read as a name of its own. -/
def typeNames : List (List String) :=
  [signedNames, unsignedNames, floatNames, ["bytes"], ["bool"], ["null"], stringNames, decimalNames,
    unknownNames, plainDateNames, otherDateNames]

def IsName (name : String) : Prop := Word isIdent name.toList

instance (name : String) : Decidable (IsName name) :=
  decidable_of_iff (name.toList.isEmpty = false ∧ name.toList.all isIdent = true) (by
    simp [IsName, Word])

/-! ## What is written -/

/-- A type as it is written. -/
inductive WrittenType
  | builtin (type : BuiltinType) (name : String)
  | array (t : WrittenType)
  | record (t : WrittenType)
  | generic (name : String) (params : List String)

def paramTokens (params : List String) : List (List Char) :=
  if params = [] then []
  else "<".toList :: (joined ",".toList false (params.map fun p => [p.toList]) ++ [">".toList])

namespace WrittenType

def tokens : WrittenType → List (List Char)
  | builtin _ name => [name.toList]
  | array t => "Array<".toList :: (t.tokens ++ [">".toList])
  | record t => "Record<".toList :: (t.tokens ++ [">".toList])
  | generic name params => name.toList :: paramTokens params

/-- The type that is meant. -/
def value : WrittenType → GenericType
  | builtin type _ => plainType type.origin
  | array t => listOf t.value
  | record t => recordOf t.value
  | generic name params => genericOf name params

/-- No name begins with the name of another type. -/
def Clean : WrittenType → Prop
  | builtin type name => name ∈ type.names
  | array t => t.Clean
  | record t => t.Clean
  | generic name params =>
    IsName name ∧ (∀ p ∈ params, IsName p) ∧
      (∀ names ∈ typeNames, ∀ a ∈ names, a.toList.isPrefixOf name.toList = false) ∧
      (params ≠ [] → name ≠ "Array" ∧ name ≠ "Record")

instance decidableClean : (t : WrittenType) → Decidable t.Clean
  | builtin type name => inferInstanceAs (Decidable (name ∈ type.names))
  | array t => t.decidableClean
  | record t => t.decidableClean
  | generic name params =>
    inferInstanceAs (Decidable (IsName name ∧ (∀ p ∈ params, IsName p) ∧
      (∀ names ∈ typeNames, ∀ a ∈ names, a.toList.isPrefixOf name.toList = false) ∧
      (params ≠ [] → name ≠ "Array" ∧ name ≠ "Record")))

end WrittenType

structure WrittenDecl where
  name : String
  type : WrittenType

namespace WrittenDecl

def tokens (d : WrittenDecl) : List (List Char) := d.name.toList :: ":".toList :: d.type.tokens

def value (d : WrittenDecl) : TypedArg := ⟨d.name, d.type.value, false⟩

def Clean (d : WrittenDecl) : Prop := IsName d.name ∧ d.type.Clean

instance (d : WrittenDecl) : Decidable d.Clean :=
  inferInstanceAs (Decidable (IsName d.name ∧ d.type.Clean))

end WrittenDecl

/-- Declarations, with a separator after the last one where `trailing`. -/
structure WrittenModel where
  isPortmapping : Bool
  name : String
  params : List String
  decls : List WrittenDecl
  trailing : Bool

namespace WrittenModel

def tokens (m : WrittenModel) : List (List Char) :=
  (if m.isPortmapping then ["@portmapping".toList] else []) ++
    "model".toList :: m.name.toList :: (paramTokens m.params ++
      "\x7b".toList :: (joined ";".toList m.trailing (m.decls.map WrittenDecl.tokens) ++
        ["\x7d".toList]))

def value (m : WrittenModel) : Model :=
  ⟨m.isPortmapping, genericOf m.name m.params, m.decls.map WrittenDecl.value⟩

def Clean (m : WrittenModel) : Prop :=
  IsName m.name ∧ (∀ p ∈ m.params, IsName p) ∧ ∀ d ∈ m.decls, d.Clean

instance (m : WrittenModel) : Decidable m.Clean :=
  inferInstanceAs
    (Decidable (IsName m.name ∧ (∀ p ∈ m.params, IsName p) ∧ ∀ d ∈ m.decls, d.Clean))

end WrittenModel

structure WrittenMethod where
  name : String
  params : List String
  args : List WrittenDecl
  trailing : Bool
  returnType : WrittenType

namespace WrittenMethod

def tokens (m : WrittenMethod) : List (List Char) :=
  m.name.toList :: (paramTokens m.params ++
    "(".toList :: (joined ",".toList m.trailing (m.args.map WrittenDecl.tokens) ++
      ")".toList :: ":".toList :: m.returnType.tokens))

def value (m : WrittenMethod) : Method :=
  ⟨genericOf m.name m.params, m.args.map WrittenDecl.value, m.returnType.value, false⟩

def Clean (m : WrittenMethod) : Prop :=
  IsName m.name ∧ (∀ p ∈ m.params, IsName p) ∧ (∀ d ∈ m.args, d.Clean) ∧ m.returnType.Clean

instance (m : WrittenMethod) : Decidable m.Clean :=
  inferInstanceAs (Decidable (IsName m.name ∧ (∀ p ∈ m.params, IsName p) ∧
    (∀ d ∈ m.args, d.Clean) ∧ m.returnType.Clean))

end WrittenMethod

structure WrittenSpec where
  models : List WrittenModel
  name : String
  methods : List WrittenMethod
  trailing : Bool

namespace WrittenSpec

def tokens (s : WrittenSpec) : List (List Char) :=
  s.models.flatMap WrittenModel.tokens ++
    "interface".toList :: s.name.toList :: "\x7b".toList ::
      (joined ";".toList s.trailing (s.methods.map WrittenMethod.tokens) ++ ["\x7d".toList])

def value (s : WrittenSpec) : List Model × Interface :=
  (s.models.map WrittenModel.value, ⟨s.name, s.methods.map WrittenMethod.value⟩)

def Clean (s : WrittenSpec) : Prop :=
  (∀ m ∈ s.models, m.Clean) ∧ IsName s.name ∧ ∀ m ∈ s.methods, m.Clean

instance (s : WrittenSpec) : Decidable s.Clean :=
  inferInstanceAs (Decidable ((∀ m ∈ s.models, m.Clean) ∧ IsName s.name ∧ ∀ m ∈ s.methods, m.Clean))

end WrittenSpec

/-! ## Names and literals -/

/-- What stands after a type: no letter, digit or underscore, and no opening bracket. -/
def Follows (toks : List (List Char)) : Prop := Bounded isIdent toks ∧ first toks ≠ some '<'

theorem follows_cons {c : Char} (cs : List Char) (toks : List (List Char)) (hc : isIdent c = false)
    (hne : c ≠ '<') : Follows ((c :: cs) :: toks) := by
  constructor
  · rintro d ⟨⟩
    exact hc
  · rintro ⟨⟩
    exact hne rfl

section

variable {tok : List Char} {toks rest : List (List Char)}

theorem reads_ident {name : String} (h : IsName name) (hb : Bounded isIdent toks) :
    Reads ident (name.toList :: toks) name toks := by
  have := Reads.reg "[a-zA-Z0-9_]+" h hb fun _ => isIdent_not_space
  rwa [String.ofList_toList] at this

/-- A literal of one token. -/
theorem reads_lit {a : String} : Reads (lit [a]) (a.toList :: toks) a toks :=
  Reads.lit (by simp [List.isPrefixOf_iff_prefix])

/-- A literal that the first token does not begin like. -/
theorem refuses_lit {a : String} (hne : a.toList ≠ []) (h : a.toList.head? ≠ first toks) :
    Refuses (lit [a]) toks :=
  Refuses.lit fun b hb => by
    rw [List.mem_singleton.1 hb]
    exact ⟨hne, h⟩

theorem typeNames_ident : ∀ names ∈ typeNames, ∀ a ∈ names, ∀ c ∈ a.toList, isIdent c = true := by
  have hall : ∀ names ∈ typeNames, ∀ a ∈ names, a.toList.all isIdent = true := by decide
  exact fun names hnames a ha => List.all_eq_true.1 (hall names hnames a ha)

theorem refuses_names {names : List String} (hnames : names ∈ typeNames) (hb : Bounded isIdent toks)
    (h : ∀ a ∈ names, a.toList.isPrefixOf tok = false) : Refuses (lit names) (tok :: toks) := by
  refine Refuses.lit_word (typeNames_ident names hnames) hb (fun _ => isIdent_not_space) ?_
  rw [List.find?_eq_none]
  intro a ha
  rw [h a ha]
  exact Bool.false_ne_true

theorem reads_names {names : List String} (hnames : names ∈ typeNames) (hb : Bounded isIdent toks)
    {name : String} (h : (names.find? fun a => a.toList.isPrefixOf name.toList) = some name) :
    Reads (lit names) (name.toList :: toks) name toks :=
  Reads.lit_word (typeNames_ident names hnames) hb (fun _ => isIdent_not_space) h
    (List.append_nil _).symm

/-! ## Types -/

/-- The alternatives of a type symbol that are built in. -/
def builtinParsers : List (Parser GenericType) :=
  [integerT, floatT, bytesT, boolT, noneT, stringT, decimalT, unknownT, dateT]

theorem refuses_builtins (h : ∀ names ∈ typeNames, Refuses (lit names) toks) :
    ∀ q ∈ builtinParsers, Refuses q toks := by
  simp only [typeNames, List.forall_mem_cons] at h
  obtain ⟨hsigned, hunsigned, hfloat, hbytes, hbool, hnull, hstring, hdecimal, hunknown, hplain,
    hother, -⟩ := h
  simp only [builtinParsers, List.forall_mem_cons]
  exact ⟨Errs.map (Does.either_right hsigned hunsigned) _, Errs.map hfloat _, Errs.map hbytes _,
    Errs.map hbool _, Errs.map hnull _, Errs.map hstring _, Errs.fail hdecimal _,
    Errs.fail hunknown _, Errs.fail (Does.either_right hplain hother) _, fun _ h => by cases h⟩

theorem reads_firstOf {p r : Parser GenericType} {ps : List (Parser GenericType)} {t : GenericType}
    (before after : List (Parser GenericType)) (heq : p :: ps = before ++ r :: after)
    (hbefore : ∀ q ∈ before, Refuses q toks) (hr : Reads r toks t rest) :
    Reads (firstOf p ps) toks t rest :=
  Does.firstOf (by rintro msg ⟨s, h, -⟩; cases h) before after heq hbefore hr

theorem bounded_cons {c : Char} (cs : List Char) (ts : List (List Char)) (hc : isIdent c = false) :
    Bounded isIdent ((c :: cs) :: ts) := by
  rintro d ⟨⟩
  exact hc

theorem reads_generics {params : List String} (hparams : ∀ p ∈ params, IsName p)
    (h : first toks ≠ some '<') : Reads generics (paramTokens params ++ toks) params toks := by
  rw [paramTokens]
  split
  · rename_i hnil
    have hopen : Refuses (lit ["<"]) toks := refuses_lit (by decide) (Ne.symm h)
    rw [hnil]
    exact (Refuses.opt_none (Errs.left (Errs.left hopen _) _)).map _
  · have hclose := bounded_cons (c := '>') [] toks (by decide)
    have hnames : Reads (rep ident (some (lit [","])))
        (joined ",".toList false (params.map fun p => [p.toList]) ++ ">".toList :: toks)
        (params.map id) (">".toList :: toks) :=
      Reads.joined (F := Bounded isIdent) false takes_ident nonempty_name (by decide)
        (fun p hp ts hts => reads_ident (hparams p hp) hts)
        (fun ts => bounded_cons [] ts (by decide)) hclose (Refuses.reg hclose)
        (refuses_lit (by decide) (by rintro ⟨⟩))
    rw [List.map_id] at hnames
    have hread : Reads generics ("<".toList ::
        (joined ",".toList false (params.map fun p => [p.toList]) ++ ">".toList :: toks)) params toks :=
      ((reads_lit.andThen hnames _).andThen reads_lit _).opt_some.map _
    simpa using hread

theorem bounded_params {params : List String} (h : Bounded isIdent toks) :
    Bounded isIdent (paramTokens params ++ toks) := by
  rw [paramTokens]
  split
  · exact h
  · exact bounded_cons [] _ (by decide)

theorem reads_genericT {name : String} {params : List String} (hname : IsName name)
    (hparams : ∀ p ∈ params, IsName p) (h : Follows toks) :
    Reads genericT (name.toList :: (paramTokens params ++ toks)) (genericOf name params) toks := by
  exact ((reads_ident hname (bounded_params h.1)).andThen (reads_generics hparams h.2) Prod.mk).map _

/-- A bracket after which a type stands is read by no built-in type. -/
theorem refuses_bracket {a : String} (h : ∀ names ∈ typeNames, ∀ b ∈ names,
    b.toList ≠ [] ∧ b.toList.head? ≠ a.toList.head?) (hne : a.toList.head? = first (a.toList :: toks)) :
    ∀ q ∈ builtinParsers, Refuses q (a.toList :: toks) :=
  refuses_builtins fun names hnames => Refuses.lit fun b hb => by
    rw [← hne]
    exact h names hnames b hb

/-- The types inside brackets. -/
theorem reads_bracket {p : Parser GenericType} {t : GenericType} {a : String}
    {ts : List (List Char)} (hp : Reads p (ts ++ ">".toList :: toks) t (">".toList :: toks))
    (f : GenericType → GenericType) :
    Reads (map f (keepLeft (keepRight (lit [a]) p) (lit [">"])))
      (a.toList :: (ts ++ ">".toList :: toks)) (f t) toks :=
  ((reads_lit.andThen hp _).andThen reads_lit _).map f

/-- A name that no built-in type is a prefix of is read by none of them. -/
theorem refuses_brackets {name : String} {p : Parser GenericType} {f : GenericType → GenericType}
    {a : String} {w : List Char} (ha : a.toList = w ++ ['<']) (hw : ∀ c ∈ w, isIdent c = true)
    (hname : IsName name) (hb : Bounded isIdent toks) (h : name.toList = w → first toks ≠ some '<') :
    Refuses (map f (keepLeft (keepRight (lit [a]) p) (lit [">"]))) (name.toList :: toks) :=
  (Errs.left (Errs.left (Refuses.lit_concat ha (by decide) (by decide) hw hname.2 hb
    (fun _ => isIdent_not_space) h) _) _).map f

/-- The names that are looked for before those of a built-in type. -/
def BuiltinType.before : BuiltinType → List (List String)
  | int => []
  | float => [signedNames, unsignedNames]
  | bytes => [signedNames, unsignedNames, floatNames]
  | bool => [signedNames, unsignedNames, floatNames, ["bytes"]]
  | null => [signedNames, unsignedNames, floatNames, ["bytes"], ["bool"]]
  | string => [signedNames, unsignedNames, floatNames, ["bytes"], ["bool"], ["null"]]

theorem names_apart (type : BuiltinType) : ∀ name ∈ type.names, ∀ names ∈ type.before,
    names ∈ typeNames ∧ ∀ a ∈ names, a.toList.isPrefixOf name.toList = false := by
  cases type <;> decide

theorem refuses_integerT (hsigned : Refuses (lit signedNames) toks)
    (hunsigned : Refuses (lit unsignedNames) toks) : Refuses integerT toks :=
  Errs.map (Does.either_right hsigned hunsigned) _

/-- The names of a type are found whole. -/
theorem find?_names {names : List String} {name : String}
    (h : (names.find? fun a => a.toList.isPrefixOf name.toList) = some name)
    (hnames : names ∈ typeNames) (hb : Bounded isIdent toks) (origin : Origin) :
    Reads (coerce (plainType origin) (lit names)) (name.toList :: toks) (plainType origin) toks :=
  (reads_names hnames hb h).map _

theorem reads_builtin {type : BuiltinType} {name : String} (h : name ∈ type.names)
    (hb : Bounded isIdent toks) (p : Parser GenericType) :
    Reads (typeSymbolOf p) (name.toList :: toks) (plainType type.origin) toks := by
  have hrefuse : ∀ names ∈ type.before, Refuses (lit names) (name.toList :: toks) :=
    fun names hnames => refuses_names (names_apart type name h names hnames).1 hb
      (names_apart type name h names hnames).2
  cases type with
  | int =>
    refine reads_firstOf [] _ rfl (fun _ h => by cases h) (Reads.map (a := name) ?_ _)
    rcases List.mem_append.1 h with h | h
    · have hfind : ∀ n ∈ signedNames,
          (signedNames.find? fun a => a.toList.isPrefixOf n.toList) = some n := by decide
      exact Does.either_left (by rintro msg ⟨s, h, -⟩; cases h)
        (reads_names (by decide) hb (hfind name h))
    · have hfind : ∀ n ∈ unsignedNames,
          (unsignedNames.find? fun a => a.toList.isPrefixOf n.toList) = some n := by decide
      have hsigned : ∀ n ∈ unsignedNames, ∀ a ∈ signedNames, a.toList.isPrefixOf n.toList = false := by
        decide
      exact Does.either_right (refuses_names (by decide) hb (hsigned name h))
        (reads_names (by decide) hb (hfind name h))
  | float =>
    have hfind : ∀ n ∈ BuiltinType.float.names,
        (floatNames.find? fun a => a.toList.isPrefixOf n.toList) = some n := by decide
    simp only [BuiltinType.before, List.forall_mem_cons] at hrefuse
    obtain ⟨hsigned, hunsigned, -⟩ := hrefuse
    refine reads_firstOf [integerT] _ rfl ?_ (find?_names (hfind name h) (by decide) hb _)
    simp only [List.forall_mem_cons]
    exact ⟨refuses_integerT hsigned hunsigned, fun _ h => by cases h⟩
  | bytes =>
    have hfind : ∀ n ∈ BuiltinType.bytes.names,
        (["bytes"].find? fun a => a.toList.isPrefixOf n.toList) = some n := by decide
    simp only [BuiltinType.before, List.forall_mem_cons] at hrefuse
    obtain ⟨hsigned, hunsigned, hfloat, -⟩ := hrefuse
    refine reads_firstOf [integerT, floatT] _ rfl ?_ (find?_names (hfind name h) (by decide) hb _)
    simp only [List.forall_mem_cons]
    exact ⟨refuses_integerT hsigned hunsigned, Errs.map hfloat _, fun _ h => by cases h⟩
  | bool =>
    have hfind : ∀ n ∈ BuiltinType.bool.names,
        (["bool"].find? fun a => a.toList.isPrefixOf n.toList) = some n := by decide
    simp only [BuiltinType.before, List.forall_mem_cons] at hrefuse
    obtain ⟨hsigned, hunsigned, hfloat, hbytes, -⟩ := hrefuse
    refine reads_firstOf [integerT, floatT, bytesT] _ rfl ?_
      (find?_names (hfind name h) (by decide) hb _)
    simp only [List.forall_mem_cons]
    exact ⟨refuses_integerT hsigned hunsigned, Errs.map hfloat _, Errs.map hbytes _,
      fun _ h => by cases h⟩
  | null =>
    have hfind : ∀ n ∈ BuiltinType.null.names,
        (["null"].find? fun a => a.toList.isPrefixOf n.toList) = some n := by decide
    simp only [BuiltinType.before, List.forall_mem_cons] at hrefuse
    obtain ⟨hsigned, hunsigned, hfloat, hbytes, hbool, -⟩ := hrefuse
    refine reads_firstOf [integerT, floatT, bytesT, boolT] _ rfl ?_
      (find?_names (hfind name h) (by decide) hb _)
    simp only [List.forall_mem_cons]
    exact ⟨refuses_integerT hsigned hunsigned, Errs.map hfloat _, Errs.map hbytes _,
      Errs.map hbool _, fun _ h => by cases h⟩
  | string =>
    have hfind : ∀ n ∈ BuiltinType.string.names,
        (stringNames.find? fun a => a.toList.isPrefixOf n.toList) = some n := by decide
    simp only [BuiltinType.before, List.forall_mem_cons] at hrefuse
    obtain ⟨hsigned, hunsigned, hfloat, hbytes, hbool, hnull, -⟩ := hrefuse
    refine reads_firstOf [integerT, floatT, bytesT, boolT, noneT] _ rfl ?_
      (find?_names (hfind name h) (by decide) hb _)
    simp only [List.forall_mem_cons]
    exact ⟨refuses_integerT hsigned hunsigned, Errs.map hfloat _, Errs.map hbytes _,
      Errs.map hbool _, Errs.map hnull _, fun _ h => by cases h⟩

/-- A type that is written cleanly is read back before whatever may follow it. -/
theorem reads_typeSymbol {t : WrittenType} (ht : t.Clean) (h : Follows toks) :
    Reads typeSymbol (t.tokens ++ toks) t.value toks := by
  induction t generalizing toks with
  | builtin type name =>
    rw [typeSymbol_eq.1]
    exact reads_builtin ht h.1 _
  | array t ih =>
    have hinner := ih ht (follows_cons (c := '>') [] toks (by decide) (by decide))
    rw [typeSymbol_eq.1, WrittenType.tokens]
    refine reads_firstOf builtinParsers _ rfl
      (refuses_bracket (a := "Array<") (by decide) rfl) ?_
    rw [List.cons_append, List.append_assoc]
    exact reads_bracket hinner listOf
  | record t ih =>
    have hinner := ih ht (follows_cons (c := '>') [] toks (by decide) (by decide))
    rw [typeSymbol_eq.1, WrittenType.tokens]
    refine reads_firstOf (builtinParsers ++ [arrayT typeSymbol]) _ rfl ?_ ?_
    · have harray : Refuses (arrayT typeSymbol)
          (("Record<".toList :: (t.tokens ++ [">".toList])) ++ toks) :=
        (Errs.left (Errs.left (refuses_lit (a := "Array<") (by decide) (by rintro ⟨⟩)) _) _).map _
      rw [List.forall_mem_append, List.forall_mem_singleton]
      exact ⟨refuses_bracket (a := "Record<") (by decide) rfl, harray⟩
    · rw [List.cons_append, List.append_assoc]
      exact reads_bracket hinner recordOf
  | generic name params =>
    obtain ⟨hname, hparams, hnames, hreserved⟩ := ht
    have hb : Bounded isIdent (paramTokens params ++ toks) := bounded_params h.1
    have hbuiltin : ∀ q ∈ builtinParsers,
        Refuses q (name.toList :: (paramTokens params ++ toks)) :=
      refuses_builtins fun names hmem => refuses_names hmem hb (hnames names hmem)
    have hfirst : ∀ a : String, (params ≠ [] → name ≠ a) → name.toList = a.toList →
        first (paramTokens params ++ toks) ≠ some '<' := by
      intro a ha heq
      by_cases hnil : params = []
      · rw [paramTokens, if_pos hnil]
        exact h.2
      · exact absurd (String.toList_inj.1 heq) (ha hnil)
    have harray : Refuses (arrayT typeSymbol) (name.toList :: (paramTokens params ++ toks)) :=
      refuses_brackets (w := "Array".toList) rfl (List.all_eq_true.1 (by decide)) hname hb
        (hfirst "Array" fun hne => (hreserved hne).1)
    have hrecord : Refuses (recordT typeSymbol) (name.toList :: (paramTokens params ++ toks)) :=
      refuses_brackets (w := "Record".toList) rfl (List.all_eq_true.1 (by decide)) hname hb
        (hfirst "Record" fun hne => (hreserved hne).2)
    rw [typeSymbol_eq.1, WrittenType.tokens, List.cons_append]
    refine reads_firstOf (builtinParsers ++ [arrayT typeSymbol, recordT typeSymbol]) [] rfl ?_
      (reads_genericT hname hparams h)
    rw [List.forall_mem_append, List.forall_mem_cons, List.forall_mem_singleton]
    exact ⟨hbuiltin, harray, hrecord⟩

/-! ## Declarations, models and methods -/

theorem reads_typeDecl {d : WrittenDecl} (hd : d.Clean) (h : Follows toks) :
    Reads typeDecl (d.tokens ++ toks) d.value toks := by
  have hname : Reads ident (d.name.toList :: ":".toList :: (d.type.tokens ++ toks)) d.name _ :=
    reads_ident hd.1 (bounded_cons [] _ (by decide))
  exact ((hname.andThen reads_lit _).andThen (reads_typeSymbol hd.2 h) Prod.mk).map _

theorem refuses_typeDecl (h : Bounded isIdent toks) : Refuses typeDecl toks :=
  (Errs.left (Errs.left (Refuses.reg h) _) _).map _

/-- Declarations between an opening and a closing literal. -/
theorem reads_decls {ds : List WrittenDecl} (hds : ∀ d ∈ ds, d.Clean) (trailing : Bool)
    (toks : List (List Char)) (l r sep : String) (htoken : Token sep.toList)
    (hsep : ∀ ts, Follows (sep.toList :: ts))
    (hr : Follows (r.toList :: toks)) (hne : sep.toList.head? ≠ first (r.toList :: toks)) :
    Reads (keepLeft (keepRight (lit [l]) (rep typeDecl (some (lit [sep])))) (lit [r]))
      (l.toList :: (joined sep.toList trailing (ds.map WrittenDecl.tokens) ++ r.toList :: toks))
      (ds.map WrittenDecl.value) toks := by
  have hlist : Reads (rep typeDecl (some (lit [sep])))
      (joined sep.toList trailing (ds.map WrittenDecl.tokens) ++ r.toList :: toks)
      (ds.map WrittenDecl.value) (r.toList :: toks) :=
    Reads.joined (F := Follows) trailing takes_typeDecl nonempty_decl htoken
      (fun d hd _ hts => reads_typeDecl (hds d hd) hts) hsep hr (refuses_typeDecl hr.1)
      (refuses_lit htoken.1 hne)
  exact (reads_lit.andThen hlist _).andThen reads_lit _

theorem reads_portmapping (isPortmapping : Bool) :
    Reads portmapping ((if isPortmapping then ["@portmapping".toList] else []) ++ "model".toList :: toks)
      isPortmapping ("model".toList :: toks) := by
  cases isPortmapping with
  | true => exact reads_lit.opt_some.map Option.isSome
  | false =>
    have hnone : Refuses (lit ["@portmapping"]) ("model".toList :: toks) :=
      refuses_lit (by decide) (by rintro ⟨⟩)
    exact hnone.opt_none.map Option.isSome

theorem reads_model {m : WrittenModel} (hm : m.Clean) : Reads model (m.tokens ++ toks) m.value toks := by
  obtain ⟨hname, hparams, hdecls⟩ := hm
  have hdecls := reads_decls hdecls m.trailing toks "\x7b" "\x7d" ";" (by decide)
    (fun ts => follows_cons [] ts (by decide) (by decide)) (follows_cons [] _ (by decide) (by decide))
    (by rintro ⟨⟩)
  have hgeneric := reads_genericT hname hparams
    (follows_cons (c := '\x7b') [] (joined ";".toList m.trailing (m.decls.map WrittenDecl.tokens) ++
      "\x7d".toList :: toks) (by decide) (by decide))
  have hread := (((reads_portmapping m.isPortmapping).andThen reads_lit fun t _ => t).andThen
    (hgeneric.andThen hdecls Prod.mk) Prod.mk).map fun x => (⟨x.1, x.2.1, x.2.2⟩ : Model)
  rw [WrittenModel.tokens, List.append_assoc, List.cons_append, List.cons_append, List.append_assoc,
    List.cons_append, List.append_assoc]
  exact hread

theorem reads_method {m : WrittenMethod} (hm : m.Clean) (h : Follows toks) :
    Reads method (m.tokens ++ toks) m.value toks := by
  obtain ⟨hname, hparams, hargs, hreturn⟩ := hm
  have hargs := reads_decls hargs m.trailing (":".toList :: (m.returnType.tokens ++ toks))
    "(" ")" "," (by decide) (fun ts => follows_cons [] ts (by decide) (by decide))
    (follows_cons [] _ (by decide) (by decide)) (by rintro ⟨⟩)
  have hgeneric := reads_genericT hname hparams
    (follows_cons (c := '(') [] (joined ",".toList m.trailing (m.args.map WrittenDecl.tokens) ++
      ")".toList :: ":".toList :: (m.returnType.tokens ++ toks)) (by decide) (by decide))
  have hread := (hgeneric.andThen ((hargs.andThen reads_lit fun t _ => t).andThen
    (reads_typeSymbol hreturn h) Prod.mk) Prod.mk).map
      fun x => (⟨x.1, x.2.1, x.2.2, false⟩ : Method)
  rw [WrittenMethod.tokens, List.cons_append, List.append_assoc, List.cons_append, List.append_assoc]
  exact hread

theorem refuses_model {c : Char} {cs : List Char} (hm : c ≠ 'm') (hp : c ≠ '@') :
    Refuses model ((c :: cs) :: toks) := by
  have hnone : Refuses (lit ["@portmapping"]) ((c :: cs) :: toks) :=
    refuses_lit (by decide) (by rintro ⟨⟩; exact hp rfl)
  have hmodel : Refuses (lit ["model"]) ((c :: cs) :: toks) :=
    refuses_lit (by decide) (by rintro ⟨⟩; exact hm rfl)
  exact (Errs.left (Errs.right (hnone.opt_none.map Option.isSome) hmodel _) _).map _

theorem refuses_method (h : Bounded isIdent toks) : Refuses method toks :=
  (Errs.left (Errs.map (Errs.left (Refuses.reg h) _) _) _).map _

theorem reads_interface {name : String} {methods : List WrittenMethod} (hname : IsName name)
    (hmethods : ∀ m ∈ methods, m.Clean) (trailing : Bool) :
    Reads interface ("interface".toList :: name.toList :: "\x7b".toList ::
      (joined ";".toList trailing (methods.map WrittenMethod.tokens) ++ "\x7d".toList :: toks))
      ⟨name, methods.map WrittenMethod.value⟩ toks := by
  have hclose : Follows ("\x7d".toList :: toks) := follows_cons [] toks (by decide) (by decide)
  have hlist : Reads (rep method (some (lit [";"])))
      (joined ";".toList trailing (methods.map WrittenMethod.tokens) ++ "\x7d".toList :: toks)
      (methods.map WrittenMethod.value) ("\x7d".toList :: toks) :=
    Reads.joined (F := Follows) trailing takes_method nonempty_method (by decide)
      (fun m hm _ hts => reads_method (hmethods m hm) hts)
      (fun ts => follows_cons [] ts (by decide) (by decide)) hclose (refuses_method hclose.1)
      (refuses_lit (by decide) (by rintro ⟨⟩))
  have hident : Reads ident (name.toList :: "\x7b".toList ::
      (joined ";".toList trailing (methods.map WrittenMethod.tokens) ++ "\x7d".toList :: toks)) name _ :=
    reads_ident hname (bounded_cons [] _ (by decide))
  exact (((reads_lit.andThen hident fun _ s => s).andThen reads_lit fun t _ => t).andThen
    (hlist.andThen reads_lit fun t _ => t) Prod.mk).map fun x => (⟨x.1, x.2⟩ : Interface)

theorem reads_models {ms : List WrittenModel} (hms : ∀ m ∈ ms, m.Clean) (h : Refuses model toks) :
    Reads (rep model (none : Option (Parser String))) (ms.flatMap WrittenModel.tokens ++ toks)
      (ms.map WrittenModel.value) toks := by
  have hnone : ∀ q, (none : Option (Parser String)) = some q → Takes q fun _ _ => False := by
    rintro q ⟨⟩
  apply Loops.rep
  induction ms with
  | nil => exact LoopReads.stop h
  | cons m ms ih =>
    have hread : ItemReads model (none : Option (Parser String))
        (m.tokens ++ (ms.flatMap WrittenModel.tokens ++ toks)) m.value _ :=
      ItemReads.bare (reads_model (hms m (List.mem_cons_self ..))) (by rintro q ⟨⟩)
    rw [List.flatMap_cons, List.append_assoc]
    exact LoopReads.turn takes_model nonempty_model hnone hread
      (ih fun x hx => hms x (List.mem_cons_of_mem _ hx))

/-- A specification that is written cleanly is read back from every text with its tokens. -/
theorem spec_complete {w : WrittenSpec} (hw : w.Clean) {text : List Char}
    (htext : Spaced w.tokens text) : call spec text = .ok (w.value, []) := by
  obtain ⟨hmodels, hname, hmethods⟩ := hw
  have hread : Reads spec w.tokens w.value [] :=
    (reads_models hmodels (refuses_model (by decide) (by decide))).andThen
      (reads_interface hname hmethods w.trailing) Prod.mk
  obtain ⟨rest, hcall, hrest⟩ := hread text htext
  have hblank : Blank rest := by cases hrest with | nil h => exact h
  rw [hcall, takes_spec.rest_eq_nil hcall hblank]

end

/-- A space before every token. -/
theorem spaced_flatMap {toks : List (List Char)} (h : ∀ tok ∈ toks, Token tok) :
    Spaced toks (toks.flatMap fun tok => ' ' :: tok) := by
  induction toks with
  | nil => exact .nil blank_nil
  | cons tok toks ih =>
    have hspace : Blank [' '] := by
      intro c hc
      rw [List.mem_singleton.1 hc]
      decide
    exact .cons hspace (h tok (List.mem_cons_self ..)) (ih fun t ht => h t (List.mem_cons_of_mem _ ht))

/-- A port mapping, a generic model and a method that uses them. -/
def sizesSpec : WrittenSpec where
  models := [
    { isPortmapping := true, name := "Sizes", params := []
      decls := [⟨"all", .array (.builtin .int "uint8")⟩], trailing := true },
    { isPortmapping := false, name := "Box", params := ["T"]
      decls := [⟨"item", .generic "T" []⟩, ⟨"label", .builtin .string "string"⟩]
      trailing := false }]
  name := "Worker"
  methods := [
    { name := "pack", params := ["T"], args := [⟨"boxes", .record (.generic "Box" ["T"])⟩]
      trailing := false, returnType := .generic "Sizes" [] }]
  trailing := true

theorem spec_complete_sizes :
    sizesSpec.Clean ∧ Spaced sizesSpec.tokens (sizesSpec.tokens.flatMap fun tok => ' ' :: tok) ∧
      call spec (sizesSpec.tokens.flatMap fun tok => ' ' :: tok) = .ok (sizesSpec.value, []) := by
  have hclean : sizesSpec.Clean := by decide
  have htext := @spaced_flatMap sizesSpec.tokens (by decide)
  exact ⟨hclean, htext, spec_complete hclean htext⟩

end Tierkreis.Idl
