import Mathlib.Data.List.DropRight
import Mathlib.Logic.Function.Iterate
import Tierkreis.Lib.StateExcept

/-!
# Parser combinators

A parser takes a value off the start of a text. Every call strips the text at
both ends first, so spaces may stand between any two tokens. A failure is one that
alternatives and repetitions catch, or one that they let through; a repetition of a
parser that takes nothing does not end.

`Takes` says which tokens a parser has taken where it returns, and `Ends` that it
does not go on for ever; both have a rule for each way to build a parser.
-/

namespace Lib.Parsing

open StateExcept

inductive Failure
  /-- A parser that did not find what it expected. -/
  | parser (msg : String)
  | fatal (msg : String)
  /-- The repetition goes on without taking anything. -/
  | endless
  deriving DecidableEq, Repr

abbrev Parser (α : Type) := StateT (List Char) (Except Failure) α

variable {α β γ : Type}

/-- The spaces of `str.strip`. -/
def isSpace (c : Char) : Bool :=
  let n := c.toNat
  (9 ≤ n && n ≤ 13) || (28 ≤ n && n ≤ 32) || n == 0x85 || n == 0xa0 || n == 0x1680 ||
    (0x2000 ≤ n && n ≤ 0x200a) || n == 0x2028 || n == 0x2029 || n == 0x202f || n == 0x205f ||
    n == 0x3000

def strip (ins : List Char) : List Char := (ins.dropWhile isSpace).rdropWhile isSpace

/-- `Parser.__call__`. -/
def call (p : Parser α) : Parser α := fun ins => p (strip ins)

/-- `self | other`. -/
def either (p q : Parser α) : Parser α := fun ins =>
  match call p ins with
  | .error (.parser _) => call q ins
  | result => result

/-- Two parsers one after the other. -/
def andThen (f : α → β → γ) (p : Parser α) (q : Parser β) : Parser γ := do
  let s ← call p
  let t ← call q
  pure (f s t)

/-- `self & other`. -/
def both (p : Parser α) (q : Parser β) : Parser (α × β) := andThen Prod.mk p q

/-- `self << other`. -/
def keepLeft (p : Parser α) (q : Parser β) : Parser α := andThen (fun t _ => t) p q

/-- `self >> other`. -/
def keepRight (p : Parser α) (q : Parser β) : Parser β := andThen (fun _ s => s) p q

/-- `seq` of three parsers. -/
def seq (p : Parser α) (q : Parser β) (r : Parser γ) : Parser (α × β × γ) := both p (both q r)

def opt (p : Parser α) : Parser (Option α) := fun ins =>
  match call p ins with
  | .ok (a, rest) => .ok (some a, rest)
  | .error (.parser _) => .ok (none, ins)
  | .error e => .error e

def map (f : α → β) (p : Parser α) : Parser β := do
  let t ← call p
  pure (f t)

def coerce (b : β) (p : Parser α) : Parser β := map (fun _ => b) p

/-- Refuses what `p` reads. -/
def fail (entity : String) (p : Parser α) : Parser β := do
  let _ ← call p
  throw (.fatal (entity ++ " not supported."))

/-- One separator after an item of a repetition, if there is one. -/
def skip (sep : Option (Parser γ)) : Parser Unit := fun ins =>
  match sep with
  | none => .ok ((), ins)
  | some sep =>
    match call sep ins with
    | .ok (_, rest) => .ok ((), rest)
    | .error (.parser _) => .ok ((), ins)
    | .error e => .error e

/-- One turn of `rep`. -/
def item (p : Parser α) (sep : Option (Parser γ)) : Parser α := do
  let t ← call p
  skip sep
  pure t

/-- The turns of `rep`. One that takes nothing is repeated for ever, so no text has more turns
that return than characters. -/
def repFrom (p : Parser α) (sep : Option (Parser γ)) : Nat → Parser (List α)
  | turns, ins =>
    match item p sep ins with
    | .error (.parser _) => .ok ([], ins)
    | .error e => .error e
    | .ok (t, rest) =>
      match turns with
      | 0 => .error .endless
      | turns + 1 => do
        let (outs, rest) ← repFrom p sep turns rest
        pure (t :: outs, rest)

def rep (p : Parser α) (sep : Option (Parser γ)) : Parser (List α) := fun ins =>
  repFrom p sep ins.length ins

/-- The text of a tuple of strings that hold no quotes. -/
def tupleText : List String → String
  | [a] => "('" ++ a ++ "',)"
  | args => "(" ++ ", ".intercalate (args.map fun a => "'" ++ a ++ "'") ++ ")"

def lit (args : List String) : Parser String := fun ins =>
  match args.find? fun a => a.toList.isPrefixOf ins with
  | some a => .ok (a, ins.drop a.toList.length)
  | none =>
    .error (.parser ("lit: expected " ++ tupleText args ++ " found '" ++
      String.ofList (ins.take 20) ++ "'"))

/-- `reg` of a class of characters that is repeated at least once. -/
def reg (regex : String) (cls : Char → Bool) : Parser String := fun ins =>
  match ins.takeWhile cls with
  | [] =>
    .error (.parser ("reg: expected regex " ++ regex ++ " found '" ++
      String.ofList (ins.take 20) ++ "'"))
  | c :: cs => .ok (String.ofList (c :: cs), ins.dropWhile cls)

/-- The alternatives of a chain of `|`. -/
def firstOf (p : Parser α) (ps : List (Parser α)) : Parser α := ps.foldl either p

/-- A parser that calls itself. -/
def fix (F : Parser α → Parser α) : Parser α := fun ins =>
  Nat.iterate F (ins.length + 1) (throw .endless) ins

/-! ## Spaces and tokens -/

def Blank (ws : List Char) : Prop := ∀ c ∈ ws, isSpace c = true

/-- A token is not empty and holds no spaces. -/
def Token (tok : List Char) : Prop := tok ≠ [] ∧ ∀ c ∈ tok, isSpace c = false

instance (tok : List Char) : Decidable (Token tok) :=
  decidable_of_iff (tok.isEmpty = false ∧ tok.all (fun c => !isSpace c) = true) (by
    simp [Token])

/-- A text made of tokens with any spaces before, between and after them. -/
inductive Spaced : List (List Char) → List Char → Prop
  | nil {ws : List Char} (hws : Blank ws) : Spaced [] ws
  | cons {ws tok s : List Char} {toks : List (List Char)} (hws : Blank ws) (htok : Token tok)
      (h : Spaced toks s) : Spaced (tok :: toks) (ws ++ (tok ++ s))

theorem blank_nil : Blank [] := fun _ h => by cases h

theorem Blank.append {ws ws' : List Char} (h : Blank ws) (h' : Blank ws') : Blank (ws ++ ws') := by
  intro c hc
  rcases List.mem_append.1 hc with hc | hc
  · exact h c hc
  · exact h' c hc

theorem blank_takeWhile (s : List Char) : Blank (s.takeWhile isSpace) := fun _ hc =>
  List.mem_takeWhile_imp hc

theorem Blank.rdropWhile {ws : List Char} (h : Blank ws) : ws.rdropWhile isSpace = [] :=
  List.rdropWhile_eq_nil_iff.2 h

/-- The text between the spaces that are stripped. -/
theorem strip_eq (ins : List Char) :
    ∃ ws ws', Blank ws ∧ Blank ws' ∧ ins = ws ++ strip ins ++ ws' := by
  refine ⟨ins.takeWhile isSpace, (ins.dropWhile isSpace).rtakeWhile isSpace, blank_takeWhile ins,
    fun _ hc => List.mem_rtakeWhile_imp hc, ?_⟩
  rw [strip, List.append_assoc, List.rdropWhile_append_rtakeWhile, List.takeWhile_append_dropWhile]

theorem length_strip_le (ins : List Char) : (strip ins).length ≤ ins.length := by
  obtain ⟨ws, ws', -, -, heq⟩ := strip_eq ins
  have := congrArg List.length heq
  simp only [List.length_append] at this
  omega

/-- Spaces at the end are dropped as far as the last token. -/
theorem Token.rdropWhile {tok : List Char} (h : Token tok) (ws s : List Char) :
    (ws ++ (tok ++ s)).rdropWhile isSpace = ws ++ (tok ++ s.rdropWhile isSpace) := by
  obtain ⟨cs, c, rfl⟩ := List.eq_nil_or_concat tok |>.resolve_left h.1
  have hc : isSpace c = false := h.2 c (by simp)
  rw [List.concat_eq_append]
  induction s using List.reverseRecOn with
  | nil =>
    have hlast : ws ++ (cs ++ [c] ++ []) = ws ++ cs ++ [c] := by simp
    rw [hlast, List.rdropWhile_concat_neg _ _ _ (by simp [hc])]
    simp
  | append_singleton s d ih =>
    have hlast : ws ++ (cs ++ [c] ++ (s ++ [d])) = ws ++ (cs ++ [c] ++ s) ++ [d] := by simp
    rw [hlast, List.rdropWhile_concat, List.rdropWhile_concat]
    split
    · exact ih
    · simp

theorem Token.dropWhile {tok : List Char} (h : Token tok) (s : List Char) :
    (tok ++ s).dropWhile isSpace = tok ++ s := by
  cases tok with
  | nil => exact absurd rfl h.1
  | cons c cs => simp [h.2 c (by simp)]

theorem Blank.dropWhile {ws : List Char} (h : Blank ws) (s : List Char) :
    (ws ++ s).dropWhile isSpace = s.dropWhile isSpace := by
  rw [List.dropWhile_append_of_pos h]

namespace Spaced

variable {toks toks' : List (List Char)} {tok s s' ws : List Char}

theorem blank (hws : Blank ws) (h : Spaced toks s) : Spaced toks (ws ++ s) := by
  cases h with
  | nil hs => exact .nil (hws.append hs)
  | cons hws' htok h =>
    rw [← List.append_assoc]
    exact .cons (hws.append hws') htok h

theorem append (h : Spaced toks s) (h' : Spaced toks' s') : Spaced (toks ++ toks') (s ++ s') := by
  induction h with
  | nil hws => exact h'.blank hws
  | cons hws htok _ ih =>
    rw [List.append_assoc, List.append_assoc]
    exact .cons hws htok ih

theorem rdropWhile (h : Spaced toks s) : Spaced toks (s.rdropWhile isSpace) := by
  induction h with
  | nil hws =>
    rw [hws.rdropWhile]
    exact .nil blank_nil
  | cons hws htok _ ih =>
    rw [htok.rdropWhile]
    exact .cons hws htok ih

/-- What stripping leaves of a text that begins with a token. -/
theorem strip_cons (h : Spaced (tok :: toks) s) : ∃ s', strip s = tok ++ s' ∧ Spaced toks s' := by
  cases h with
  | cons hws htok h =>
    rename_i ws s'
    refine ⟨s'.rdropWhile isSpace, ?_, h.rdropWhile⟩
    rw [Parsing.strip, hws.dropWhile, htok.dropWhile]
    exact htok.rdropWhile [] s'

theorem strip_nil (h : Spaced [] s) : strip s = [] := by
  cases h with
  | nil hws =>
    rw [strip, List.dropWhile_eq_nil_iff.2 hws]
    rfl

theorem strip (h : Spaced toks s) : Spaced toks (strip s) := by
  cases toks with
  | nil =>
    rw [h.strip_nil]
    exact .nil blank_nil
  | cons tok toks =>
    have htok : Token tok := by cases h with | cons _ htok _ => exact htok
    obtain ⟨s', heq, h'⟩ := h.strip_cons
    rw [heq]
    exact .cons blank_nil htok h'

theorem length_le (h : Spaced toks s) : toks.length ≤ s.length := by
  induction h with
  | nil _ => exact Nat.zero_le _
  | cons _ htok _ ih =>
    have := List.length_pos_of_ne_nil htok.1
    simp only [List.length_cons, List.length_append]
    omega

end Spaced

/-! ## What is taken -/

/-- Where `x` returns, the text began with tokens of `G`, and spaces were dropped at its end. -/
def Takes (x : Parser α) (G : α → List (List Char) → Prop) : Prop :=
  ∀ ⦃ins a rest⦄, x ins = .ok (a, rest) →
    ∃ toks s ws, G a toks ∧ Spaced toks s ∧ Blank ws ∧ ins = s ++ rest ++ ws

namespace Takes

variable {x : Parser α} {p : Parser α} {q : Parser β} {f : α → Parser β}
  {G G' : α → List (List Char) → Prop} {H : β → List (List Char) → Prop}

theorem mono (h : Takes x G) (hG : ∀ a toks, G a toks → G' a toks) : Takes x G' := by
  intro ins a rest hx
  obtain ⟨toks, s, ws, ha, hs⟩ := h hx
  exact ⟨toks, s, ws, hG a toks ha, hs⟩

theorem pure (a : α) : Takes (pure a : Parser α) fun b toks => b = a ∧ toks = [] := by
  intro ins b rest hx
  obtain ⟨rfl, rfl⟩ := pure_eq_ok.1 hx
  exact ⟨[], [], [], ⟨rfl, rfl⟩, .nil blank_nil, blank_nil, by simp⟩

theorem throw (e : Failure) : Takes (throw e : Parser α) G := fun _ _ _ hx => absurd hx throw_ne_ok

theorem bind {K : α → β → List (List Char) → Prop} (hx : Takes x G)
    (hf : ∀ a, Takes (f a) (K a)) :
    Takes (x >>= f) fun b toks => ∃ a t u, G a t ∧ K a b u ∧ toks = t ++ u := by
  intro ins b rest h
  obtain ⟨a, mid, hxa, hfb⟩ := bind_eq_ok.1 h
  obtain ⟨t, s, ws, ha, hs, hws, rfl⟩ := hx hxa
  obtain ⟨u, s', ws', hb, hs', hws', rfl⟩ := hf a hfb
  exact ⟨t ++ u, s ++ s', ws' ++ ws, ⟨a, t, u, ha, hb, rfl⟩, hs.append hs', hws'.append hws,
    by simp⟩

theorem call (hp : Takes p G) : Takes (call p) G := by
  intro ins a rest h
  obtain ⟨ws, ws', hws, hws', heq⟩ := strip_eq ins
  obtain ⟨toks, s, ws'', ha, hs, hws'', hstrip⟩ := hp h
  refine ⟨toks, ws ++ s, ws'' ++ ws', ha, hs.blank hws, hws''.append hws', ?_⟩
  rw [heq, hstrip]
  simp

theorem andThen (hp : Takes p G) (hq : Takes q H) (g : α → β → γ) :
    Takes (andThen g p q) fun c toks =>
      ∃ a b t u, G a t ∧ H b u ∧ c = g a b ∧ toks = t ++ u := by
  refine (hp.call.bind fun a => hq.call.bind fun b => Takes.pure (g a b)).mono ?_
  rintro c toks ⟨a, t, u, ha, ⟨b, v, w, hb, ⟨rfl, rfl⟩, rfl⟩, rfl⟩
  exact ⟨a, b, t, v, ha, hb, rfl, by simp⟩

theorem map (hp : Takes p G) (g : α → β) :
    Takes (map g p) fun b toks => ∃ a, G a toks ∧ b = g a := by
  refine (hp.call.bind fun a => Takes.pure (g a)).mono ?_
  rintro b toks ⟨a, t, u, ha, ⟨rfl, rfl⟩, rfl⟩
  exact ⟨a, by simpa using ha, rfl⟩

theorem fail (entity : String) : Takes (fail entity p : Parser β) H := by
  intro ins b rest h
  obtain ⟨a, mid, -, hthrow⟩ := bind_eq_ok.1 h
  exact absurd hthrow throw_ne_ok

theorem either {q : Parser α} (hp : Takes p G) (hq : Takes q G) : Takes (either p q) G := by
  intro ins a rest h
  rw [Parsing.either] at h
  split at h
  · exact hq.call h
  · exact hp.call h

theorem firstOf {ps : List (Parser α)} (hp : Takes p G) (hps : ∀ q ∈ ps, Takes q G) :
    Takes (firstOf p ps) G := by
  induction ps generalizing p with
  | nil => exact hp
  | cons q ps ih =>
    exact ih (hp.either (hps q (List.mem_cons_self ..))) fun r hr => hps r (List.mem_cons_of_mem _ hr)

theorem opt (hp : Takes p G) : Takes (opt p) fun o toks => o.elim (toks = []) (G · toks) := by
  intro ins o rest h
  rw [Parsing.opt] at h
  split at h
  · rename_i a rest' hcall
    cases h
    exact hp.call hcall
  · cases h
    exact ⟨[], [], [], rfl, .nil blank_nil, blank_nil, by simp⟩
  · cases h

/-- The tokens of items, each followed by a separator or not. -/
inductive Items (G : α → List (List Char) → Prop) (S : List (List Char) → Prop) :
    List α → List (List Char) → Prop
  | nil : Items G S [] []
  | item {a : α} {as : List α} {t u : List (List Char)} (ha : G a t) (has : Items G S as u) :
      Items G S (a :: as) (t ++ u)
  | separated {a : α} {as : List α} {t sep u : List (List Char)} (ha : G a t) (hsep : S sep)
      (has : Items G S as u) : Items G S (a :: as) (t ++ sep ++ u)

theorem skip {sep : Option (Parser β)} (hsep : ∀ q, sep = some q → Takes q H) :
    Takes (skip sep) fun _ toks => toks = [] ∨ ∃ q b, sep = some q ∧ H b toks := by
  intro ins u rest h
  cases sep with
  | none =>
    cases h
    exact ⟨[], [], [], .inl rfl, .nil blank_nil, blank_nil, by simp⟩
  | some q =>
    rw [Parsing.skip] at h
    split at h
    · rename_i b rest' hcall
      cases h
      obtain ⟨toks, s, ws, hb, hs⟩ := (hsep q rfl).call hcall
      exact ⟨toks, s, ws, .inr ⟨q, b, rfl, hb⟩, hs⟩
    · cases h
      exact ⟨[], [], [], .inl rfl, .nil blank_nil, blank_nil, by simp⟩
    · cases h

/-- What stands after an item. -/
def Sep (sep : Option (Parser γ)) (H : γ → List (List Char) → Prop) (toks : List (List Char)) : Prop :=
  ∃ q b, sep = some q ∧ H b toks

theorem item {sep : Option (Parser β)} (hp : Takes p G) (hsep : ∀ q, sep = some q → Takes q H) :
    Takes (item p sep) fun a toks =>
      ∃ t u, G a t ∧ (u = [] ∨ Sep sep H u) ∧ toks = t ++ u := by
  refine (hp.call.bind fun a => (skip hsep).bind fun _ => Takes.pure a).mono ?_
  rintro a toks ⟨a, t, u, ha, ⟨_, v, w, hv, ⟨rfl, rfl⟩, rfl⟩, rfl⟩
  exact ⟨t, v, ha, hv, by simp⟩

theorem repFrom {sep : Option (Parser β)} (hp : Takes p G) (hsep : ∀ q, sep = some q → Takes q H)
    (turns : Nat) : Takes (repFrom p sep turns) (Items G (Sep sep H)) := by
  induction turns with
  | zero =>
    intro ins as rest h
    rw [Parsing.repFrom] at h
    split at h
    · cases h
      exact ⟨[], [], [], .nil, .nil blank_nil, blank_nil, by simp⟩
    · cases h
    · cases h
  | succ turns ih =>
    intro ins as rest h
    rw [Parsing.repFrom] at h
    split at h
    · cases h
      exact ⟨[], [], [], .nil, .nil blank_nil, blank_nil, by simp⟩
    · cases h
    · rename_i t mid hx
      obtain ⟨⟨ts, rest'⟩, hrep, hpure⟩ := except_bind_eq_ok.1 h
      cases hpure
      obtain ⟨toks, s, ws, ⟨u, v, ha, hv, rfl⟩, hs, hws, rfl⟩ := item hp hsep hx
      obtain ⟨toks', s', ws', hts, hs', hws', rfl⟩ := ih hrep
      refine ⟨u ++ v ++ toks', s ++ s', ws' ++ ws, ?_, hs.append hs', hws'.append hws, by simp⟩
      rcases hv with rfl | hv
      · simpa using Items.item ha hts
      · exact Items.separated ha hv hts

theorem rep {sep : Option (Parser β)} (hp : Takes p G) (hsep : ∀ q, sep = some q → Takes q H) :
    Takes (rep p sep) (Items G (Sep sep H)) := fun _ _ _ h => repFrom hp hsep _ h

theorem lit {args : List String} (hargs : ∀ a ∈ args, Token a.toList) :
    Takes (lit args) fun a toks => a ∈ args ∧ toks = [a.toList] := by
  intro ins a rest h
  rw [Parsing.lit] at h
  split at h
  · rename_i b hfind
    cases h
    have hmem := List.mem_of_find?_eq_some hfind
    have hprefix := List.find?_some hfind
    obtain ⟨s, rfl⟩ := List.isPrefixOf_iff_prefix.1 hprefix
    refine ⟨[a.toList], a.toList, [], ⟨hmem, rfl⟩, ?_, blank_nil, by simp⟩
    simpa using Spaced.cons blank_nil (hargs a hmem) (.nil blank_nil)
  · cases h

theorem reg {cls : Char → Bool} (regex : String) (hcls : ∀ c, cls c = true → isSpace c = false) :
    Takes (reg regex cls) fun a toks =>
      a.toList ≠ [] ∧ (∀ c ∈ a.toList, cls c = true) ∧ toks = [a.toList] := by
  intro ins a rest h
  rw [Parsing.reg] at h
  split at h
  · cases h
  · rename_i c cs htake
    cases h
    have hall : ∀ d ∈ c :: cs, cls d = true := by
      rw [← htake]
      exact fun d hd => List.mem_takeWhile_imp hd
    refine ⟨[c :: cs], c :: cs, [], ⟨by simp, by simpa using hall, by simp⟩, ?_, blank_nil, ?_⟩
    · simpa using Spaced.cons blank_nil ⟨List.cons_ne_nil c cs, fun d hd => hcls d (hall d hd)⟩
        (.nil blank_nil)
    · rw [← htake, List.append_nil, List.takeWhile_append_dropWhile]

theorem iterate {F : Parser α → Parser α} (hF : ∀ p, Takes p G → Takes (F p) G) (n : Nat) :
    Takes (Nat.iterate F n (MonadExcept.throw .endless)) G := by
  induction n with
  | zero => exact Takes.throw _
  | succ n ih =>
    rw [Function.iterate_succ_apply']
    exact hF _ ih

theorem fix {F : Parser α → Parser α} (hF : ∀ p, Takes p G → Takes (F p) G) : Takes (fix F) G :=
  fun _ _ _ h => iterate hF _ h

end Takes

/-- Where spaces are left they were stripped before. -/
theorem Takes.rest_eq_nil {p : Parser α} {G : α → List (List Char) → Prop} (h : Takes p G)
    {ins rest : List Char} {a : α} (hp : Parsing.call p ins = .ok (a, rest)) (hrest : Blank rest) :
    rest = [] := by
  obtain ⟨toks, s, ws, -, -, hws, heq⟩ := h hp
  by_contra hne
  have hnonempty : strip ins ≠ [] := by
    rw [heq]
    simp [hne]
  have hlast := List.rdropWhile_last_not isSpace (ins.dropWhile isSpace) hnonempty
  have hmem : (strip ins).getLast hnonempty ∈ rest ++ ws := by
    have hright : rest ++ ws ≠ [] := by simp [hne]
    simp only [heq, List.append_assoc]
    rw [List.getLast_append_of_ne_nil _ hright]
    exact List.getLast_mem hright
  exact hlast ((hrest.append hws) _ hmem)

/-! ## Parsers that end -/

theorem Takes.length_le {x : Parser α} {G : α → List (List Char) → Prop} (h : Takes x G)
    {ins rest : List Char} {a : α} (hx : x ins = .ok (a, rest)) : rest.length ≤ ins.length := by
  obtain ⟨toks, s, ws, -, -, -, rfl⟩ := h hx
  simp only [List.length_append]
  omega

/-- What is returned has tokens. -/
def Nonempty (G : α → List (List Char) → Prop) : Prop := ∀ a toks, G a toks → toks ≠ []

theorem Takes.length_lt {x : Parser α} {G : α → List (List Char) → Prop} (h : Takes x G)
    (hG : Nonempty G) {ins rest : List Char} {a : α} (hx : x ins = .ok (a, rest)) :
    rest.length < ins.length := by
  obtain ⟨toks, s, ws, ha, hs, -, rfl⟩ := h hx
  have := hs.length_le
  have := List.length_pos_of_ne_nil (hG a toks ha)
  simp only [List.length_append]
  omega

/-- Two parsers agree on the texts that are shorter than `n`, and end there. -/
def Agree (n : Nat) (x y : Parser α) : Prop :=
  ∀ ins, ins.length < n → x ins = y ins ∧ x ins ≠ .error .endless

namespace Agree

variable {n : Nat} {x y : Parser α} {p p' : Parser α} {q q' : Parser β}
  {G : α → List (List Char) → Prop} {H : β → List (List Char) → Prop}

/-- The second parsers agree on what the first one leaves. -/
theorem bind {f g : α → Parser β} (hx : Agree n x y)
    (hf : ∀ ⦃ins a rest⦄, ins.length < n → x ins = .ok (a, rest) →
      f a rest = g a rest ∧ f a rest ≠ .error .endless) : Agree n (x >>= f) (y >>= g) := by
  intro ins hins
  obtain ⟨heq, hend⟩ := hx ins hins
  change (x ins >>= fun r => f r.1 r.2) = (y ins >>= fun r => g r.1 r.2) ∧ _ ≠ _
  rw [← heq]
  cases hxi : x ins with
  | error e =>
    refine ⟨rfl, ?_⟩
    rw [bind_of_error hxi]
    rintro ⟨⟩
    exact hend hxi
  | ok r =>
    obtain ⟨hfg, hne⟩ := hf hins (show x ins = .ok (r.1, r.2) from hxi)
    rw [bind_of_ok (show x ins = .ok (r.1, r.2) from hxi)]
    exact ⟨hfg, hne⟩

theorem bind_pure (hx : Agree n x y) (g : α → β) :
    Agree n (x >>= fun a => Pure.pure (g a)) (y >>= fun a => Pure.pure (g a)) :=
  hx.bind fun _ _ _ _ _ => ⟨rfl, fun h => by cases h⟩

theorem call (h : Agree n p p') : Agree n (call p) (call p') :=
  fun ins hins => h (strip ins) (Nat.lt_of_le_of_lt (length_strip_le ins) hins)

theorem andThen (hp : Agree n p p') (hG : Takes p G) (hq : Agree n q q') (g : α → β → γ) :
    Agree n (andThen g p q) (andThen g p' q') :=
  hp.call.bind fun _ a _ hins h =>
    hq.call.bind_pure (g a) _ (Nat.lt_of_le_of_lt (hG.call.length_le h) hins)

/-- The second parser is called on a shorter text. -/
theorem andThen_guarded (hp : Agree (n + 1) p p') (hG : Takes p G) (hne : Nonempty G)
    (hq : Agree n q q') (g : α → β → γ) :
    Agree (n + 1) (Parsing.andThen g p q) (Parsing.andThen g p' q') :=
  hp.call.bind fun ins a rest hins h => hq.call.bind_pure (g a) rest (by
    have := hG.call.length_lt hne h
    omega)

theorem map (hp : Agree n p p') (g : α → β) : Agree n (map g p) (map g p') := hp.call.bind_pure g

theorem fail (hp : Agree n p p') (entity : String) :
    Agree n (fail entity p : Parser β) (fail entity p') :=
  hp.call.bind fun _ _ _ _ _ => ⟨rfl, fun h => by cases h⟩

theorem either (hp : Agree n x p) (hq : Agree n y p') : Agree n (either x y) (either p p') := by
  intro ins hins
  obtain ⟨heq, hend⟩ := hp.call ins hins
  obtain ⟨heq', hend'⟩ := hq.call ins hins
  rw [Parsing.either, Parsing.either, ← heq, ← heq']
  refine ⟨rfl, ?_⟩
  split
  · exact hend'
  · exact hend

theorem firstOf {ps ps' : List (Parser α)} (hp : Agree n p p')
    (hps : List.Forall₂ (Agree n) ps ps') : Agree n (firstOf p ps) (firstOf p' ps') := by
  induction hps generalizing p p' with
  | nil => exact hp
  | cons hq _ ih => exact ih (hp.either hq)

theorem opt (hp : Agree n p p') : Agree n (opt p) (opt p') := by
  intro ins hins
  obtain ⟨heq, hend⟩ := hp.call ins hins
  rw [Parsing.opt, Parsing.opt, ← heq]
  refine ⟨rfl, ?_⟩
  split
  · rintro ⟨⟩
  · rintro ⟨⟩
  · rintro ⟨⟩
    contradiction

theorem lit (args : List String) : Agree n (lit args) (lit args) := by
  intro ins _
  refine ⟨rfl, ?_⟩
  rw [Parsing.lit]
  split
  · rintro ⟨⟩
  · rintro ⟨⟩

theorem reg (regex : String) (cls : Char → Bool) : Agree n (reg regex cls) (reg regex cls) := by
  intro ins _
  refine ⟨rfl, ?_⟩
  rw [Parsing.reg]
  split
  · rintro ⟨⟩
  · rintro ⟨⟩

end Agree

/-- A parser that ends on every text. -/
def Ends (x : Parser α) : Prop := ∀ n, Agree n x x

theorem Ends.ne_endless {x : Parser α} (h : Ends x) (ins : List Char) :
    x ins ≠ .error .endless :=
  (h (ins.length + 1) ins (Nat.lt_succ_self _)).2

theorem Ends.of_ne {x : Parser α} (h : ∀ ins, x ins ≠ .error .endless) : Ends x :=
  fun _ ins _ => ⟨rfl, h ins⟩

theorem Ends.lit (args : List String) : Ends (lit args) := fun _ => Agree.lit args

theorem Ends.reg (regex : String) (cls : Char → Bool) : Ends (reg regex cls) :=
  fun _ => Agree.reg regex cls

theorem Ends.andThen {p : Parser α} {q : Parser β} {G : α → List (List Char) → Prop} (hp : Ends p)
    (hG : Takes p G) (hq : Ends q) (g : α → β → γ) : Ends (andThen g p q) :=
  fun n => (hp n).andThen hG (hq n) g

theorem Ends.map {p : Parser α} (hp : Ends p) (g : α → β) : Ends (map g p) := fun n => (hp n).map g

theorem Ends.fail {p : Parser α} (hp : Ends p) (entity : String) :
    Ends (fail entity p : Parser β) := fun n => (hp n).fail entity

theorem Ends.opt {p : Parser α} (hp : Ends p) : Ends (opt p) := fun n => (hp n).opt

theorem Ends.either {p q : Parser α} (hp : Ends p) (hq : Ends q) : Ends (either p q) :=
  fun n => (hp n).either (hq n)

theorem Ends.skip {sep : Option (Parser γ)} (h : ∀ q, sep = some q → Ends q) :
    Ends (Parsing.skip sep) := by
  apply Ends.of_ne
  intro ins
  cases sep with
  | none => rintro ⟨⟩
  | some q =>
    have hend : Parsing.call q ins ≠ .error .endless := (h q rfl).ne_endless _
    rw [Parsing.skip]
    split
    · rintro ⟨⟩
    · rintro ⟨⟩
    · rintro ⟨⟩
      contradiction

/-- A repetition ends where its items take tokens. -/
theorem Ends.rep {p : Parser α} {sep : Option (Parser γ)} {G : α → List (List Char) → Prop}
    {H : γ → List (List Char) → Prop} (hp : Ends p) (hG : Takes p G) (hne : Nonempty G)
    (hsep : ∀ q, sep = some q → Ends q) (hH : ∀ q, sep = some q → Takes q H) :
    Ends (Parsing.rep p sep) := by
  have hitem : Ends (item p sep) := fun n =>
    (hp n).call.bind fun _ a rest _ _ =>
      ((Ends.skip hsep) (rest.length + 1)).bind_pure (fun _ => a) rest (Nat.lt_succ_self _)
  have hlt : ∀ {ins rest a}, item p sep ins = .ok (a, rest) → rest.length < ins.length :=
    (hG.item hH).length_lt (by
      rintro a toks ⟨t, u, ha, -, rfl⟩
      exact List.append_ne_nil_of_left_ne_nil (hne a t ha) u)
  apply Ends.of_ne
  intro ins
  suffices h : ∀ turns ins, ins.length ≤ turns → repFrom p sep turns ins ≠ .error .endless from
    h ins.length ins (Nat.le_refl _)
  intro turns
  induction turns with
  | zero =>
    intro ins hlen
    rw [repFrom]
    split
    · rintro ⟨⟩
    · rename_i e _ heq
      rintro ⟨⟩
      exact hitem.ne_endless ins heq
    · rename_i heq
      have := hlt heq
      omega
  | succ turns ih =>
    intro ins hlen
    rw [repFrom]
    split
    · rintro ⟨⟩
    · rename_i e _ heq
      rintro ⟨⟩
      exact hitem.ne_endless ins heq
    · rename_i t rest heq
      have hrest := ih rest (by have := hlt heq; omega)
      change (repFrom p sep turns rest >>= fun r => pure (t :: r.1, r.2)) ≠ _
      cases hrep : repFrom p sep turns rest with
      | ok r => rintro ⟨⟩
      | error e =>
        rintro ⟨⟩
        exact hrest hrep

/-- A parser that calls itself on shorter texts is what it is made from. -/
theorem fix_eq {F : Parser α → Parser α} {G : α → List (List Char) → Prop}
    (hG : ∀ p, Takes p G → Takes (F p) G)
    (hF : ∀ {n p q}, Agree n p q → Takes p G → Agree (n + 1) (F p) (F q)) :
    fix F = F (fix F) ∧ Ends (fix F) := by
  have hiter : ∀ n m, n ≤ m →
      Agree n (Nat.iterate F n (throw .endless)) (Nat.iterate F m (throw .endless)) := by
    intro n
    induction n with
    | zero => exact fun m _ ins hins => absurd hins (Nat.not_lt_zero _)
    | succ n ih =>
      intro m hm
      obtain ⟨m, rfl⟩ : ∃ k, m = k + 1 := ⟨m - 1, by omega⟩
      rw [Function.iterate_succ_apply', Function.iterate_succ_apply']
      exact hF (ih m (by omega)) (Takes.iterate hG n)
  constructor
  · funext ins
    have hfix : Agree ins.length (Nat.iterate F ins.length (throw .endless)) (fix F) := by
      intro r hr
      obtain ⟨heq, hend⟩ := hiter (r.length + 1) ins.length hr r (Nat.lt_succ_self _)
      rw [← heq]
      exact ⟨rfl, hend⟩
    rw [Parsing.fix, Function.iterate_succ_apply']
    exact (hF hfix (Takes.iterate hG _) ins (Nat.lt_succ_self _)).1
  · exact Ends.of_ne fun ins => (hiter (ins.length + 1) _ (Nat.le_refl _) ins (Nat.lt_succ_self _)).2

end Lib.Parsing
