import Mathlib.Data.List.Find
import Tierkreis.Lib.Parsing

/-!
# What parsers do on given tokens

`Reads` says that a parser returns a value on every text that is made of given
tokens, whatever spaces stand between them, and `Errs` that it fails there. They
compose like triples: the tokens that one parser leaves are those that the next
one begins with.
-/

namespace Lib.Parsing

open StateExcept

variable {α β γ : Type}

/-- What a call of `p` does on every text made of `toks`. -/
def Does (P : Except Failure (α × List Char) → Prop) (p : Parser α) (toks : List (List Char)) : Prop :=
  ∀ s, Spaced toks s → P (call p s)

/-- `p` returns `a` and leaves `rest`. -/
abbrev Reads (p : Parser α) (toks : List (List Char)) (a : α) (rest : List (List Char)) : Prop :=
  Does (fun r => ∃ s, r = .ok (a, s) ∧ Spaced rest s) p toks

abbrev Errs (E : Failure → Prop) (p : Parser α) (toks : List (List Char)) : Prop :=
  Does (fun r => ∃ e, E e ∧ r = .error e) p toks

def Failure.isParser : Failure → Prop
  | .parser _ => True
  | .fatal _ | .endless => False

/-- `p` fails, and alternatives go on. -/
abbrev Refuses (p : Parser α) (toks : List (List Char)) : Prop := Errs Failure.isParser p toks

section

variable {p : Parser α} {q : Parser β} {a : α} {b : β} {E : Failure → Prop}
  {toks mid rest : List (List Char)}

theorem Refuses.eq (h : Refuses p toks) {s : List Char} (hs : Spaced toks s) :
    ∃ msg, call p s = .error (.parser msg) := by
  obtain ⟨e, he, heq⟩ := h s hs
  cases e with
  | parser msg => exact ⟨msg, heq⟩
  | fatal msg => exact absurd he id
  | endless => exact absurd he id

theorem Refuses.of_eq (h : ∀ s, Spaced toks s → ∃ msg, call p s = .error (.parser msg)) :
    Refuses p toks := by
  intro s hs
  obtain ⟨msg, heq⟩ := h s hs
  exact ⟨.parser msg, trivial, heq⟩

theorem Reads.andThen (hp : Reads p toks a mid) (hq : Reads q mid b rest) (g : α → β → γ) :
    Reads (andThen g p q) toks (g a b) rest := by
  intro s hs
  obtain ⟨s', hps, hs'⟩ := hp _ hs.strip
  obtain ⟨s'', hqs, hs''⟩ := hq _ hs'
  refine ⟨s'', ?_, hs''⟩
  rw [Parsing.call, Parsing.andThen, bind_of_ok hps, bind_of_ok hqs]
  rfl

theorem Reads.map (hp : Reads p toks a rest) (f : α → β) : Reads (map f p) toks (f a) rest := by
  intro s hs
  obtain ⟨s', hps, hs'⟩ := hp _ hs.strip
  refine ⟨s', ?_, hs'⟩
  rw [Parsing.call, Parsing.map, bind_of_ok hps]
  rfl

theorem Errs.left (hp : Errs E p toks) (g : α → β → γ) : Errs E (andThen g p q) toks := by
  intro s hs
  obtain ⟨e, he, hps⟩ := hp _ hs.strip
  exact ⟨e, he, bind_of_error hps⟩

theorem Errs.right (hp : Reads p toks a mid) (hq : Errs E q mid) (g : α → β → γ) :
    Errs E (andThen g p q) toks := by
  intro s hs
  obtain ⟨s', hps, hs'⟩ := hp _ hs.strip
  obtain ⟨e, he, hqs⟩ := hq _ hs'
  refine ⟨e, he, ?_⟩
  rw [Parsing.call, Parsing.andThen, bind_of_ok hps, bind_of_error hqs]

theorem Errs.map (hp : Errs E p toks) (f : α → β) : Errs E (map f p) toks := by
  intro s hs
  obtain ⟨e, he, hps⟩ := hp _ hs.strip
  exact ⟨e, he, bind_of_error hps⟩

theorem Errs.fail (hp : Errs E p toks) (entity : String) :
    Errs E (fail entity p : Parser β) toks := by
  intro s hs
  obtain ⟨e, he, hps⟩ := hp _ hs.strip
  exact ⟨e, he, bind_of_error hps⟩

theorem Reads.opt_some (hp : Reads p toks a rest) : Reads (opt p) toks (some a) rest := by
  intro s hs
  obtain ⟨s', hps, hs'⟩ := hp _ hs.strip
  refine ⟨s', ?_, hs'⟩
  rw [Parsing.call, Parsing.opt, hps]

theorem Refuses.opt_none (hp : Refuses p toks) : Reads (opt p) toks none toks := by
  intro s hs
  obtain ⟨msg, hps⟩ := hp.eq hs.strip
  refine ⟨strip s, ?_, hs.strip⟩
  rw [Parsing.call, Parsing.opt, hps]

variable {P : Except Failure (α × List Char) → Prop} {r : Parser α}

theorem Does.either_left (hP : ∀ msg, ¬P (.error (.parser msg))) (hp : Does P p toks) :
    Does P (either p r) toks := by
  intro s hs
  have hps := hp _ hs.strip
  rw [Parsing.call, Parsing.either]
  split
  · rename_i msg heq
    rw [heq] at hps
    exact absurd hps (hP msg)
  · exact hps

theorem Does.either_right (hp : Refuses p toks) (hr : Does P r toks) : Does P (either p r) toks := by
  intro s hs
  obtain ⟨msg, hps⟩ := hp.eq hs.strip
  rw [Parsing.call, Parsing.either, hps]
  exact hr _ hs.strip

/-- Alternatives do what the first of them does that does not refuse. -/
theorem Does.firstOf (hP : ∀ msg, ¬P (.error (.parser msg))) {ps : List (Parser α)}
    (before after : List (Parser α)) (heq : p :: ps = before ++ r :: after)
    (hbefore : ∀ q ∈ before, Refuses q toks) (hr : Does P r toks) : Does P (firstOf p ps) toks := by
  induction ps generalizing p r before after with
  | nil =>
    cases before with
    | nil =>
      cases heq
      exact hr
    | cons _ before => simp at heq
  | cons q ps ih =>
    cases before with
    | nil =>
      cases heq
      exact ih [] ps rfl (fun _ h => by cases h) (hr.either_left hP)
    | cons p' before =>
      obtain ⟨rfl, htail⟩ := List.cons.inj heq
      have hp : Refuses p toks := hbefore p (List.mem_cons_self ..)
      cases before with
      | nil =>
        cases htail
        exact ih [] ps rfl (fun _ h => by cases h) (Does.either_right hp hr)
      | cons q' before =>
        obtain ⟨rfl, rfl⟩ := List.cons.inj htail
        refine ih (either p q :: before) after rfl ?_ hr
        intro x hx
        rcases List.mem_cons.1 hx with rfl | hx
        · exact Does.either_right hp (hbefore q (by simp))
        · exact hbefore x (by simp [hx])

end

/-! ## Literals and words -/

/-- The first character of a text made of `toks`, beside spaces. -/
def first (toks : List (List Char)) : Option Char := toks.head?.bind List.head?

theorem Spaced.head?_strip {toks : List (List Char)} {s : List Char} (h : Spaced toks s) :
    (Parsing.strip s).head? = first toks := by
  cases toks with
  | nil =>
    rw [h.strip_nil]
    rfl
  | cons tok toks =>
    have htok : tok ≠ [] := by cases h with | cons _ htok _ => exact htok.1
    obtain ⟨s', heq, -⟩ := h.strip_cons
    rw [heq, List.head?_append_of_ne_nil _ htok]
    rfl

section

variable {toks : List (List Char)} {tok : List Char} {cls : Char → Bool}

theorem Refuses.lit {args : List String}
    (h : ∀ a ∈ args, a.toList ≠ [] ∧ a.toList.head? ≠ first toks) : Refuses (lit args) toks := by
  apply Refuses.of_eq
  intro s hs
  have hfind : (args.find? fun a => a.toList.isPrefixOf (strip s)) = none := by
    refine List.find?_eq_none.2 fun a ha hprefix => ?_
    obtain ⟨hne, hfirst⟩ := h a ha
    obtain ⟨s', heq⟩ := List.isPrefixOf_iff_prefix.1 hprefix
    rw [← hs.head?_strip, ← heq, List.head?_append_of_ne_nil _ hne] at hfirst
    exact hfirst rfl
  rw [Parsing.call, Parsing.lit, hfind]
  exact ⟨_, rfl⟩

/-- A literal is read where none before it in the list begins the same way. -/
theorem Reads.lit {args : List String} {a : String}
    (ha : (args.find? fun b => b.toList.isPrefixOf a.toList || a.toList.isPrefixOf b.toList) = some a) :
    Reads (lit args) (a.toList :: toks) a toks := by
  intro s hs
  obtain ⟨s', heq, hs'⟩ := hs.strip_cons
  obtain ⟨-, as, bs, rfl, hbefore⟩ := List.find?_eq_some_iff_append.1 ha
  have hfind : ((as ++ a :: bs).find? fun b => b.toList.isPrefixOf (a.toList ++ s')) = some a := by
    refine List.find?_eq_some_iff_append.2 ⟨?_, as, bs, rfl, fun b hb => ?_⟩
    · exact List.isPrefixOf_iff_prefix.2 (List.prefix_append _ _)
    · have hab := hbefore b hb
      simp only [Bool.not_eq_true', Bool.or_eq_false_iff] at hab
      rw [Bool.not_eq_true', Bool.eq_false_iff]
      intro hprefix
      rcases List.prefix_or_prefix_of_prefix (List.isPrefixOf_iff_prefix.1 hprefix)
        (List.prefix_append a.toList s') with h | h
      · exact absurd (List.isPrefixOf_iff_prefix.2 h) (by simp [hab.1])
      · exact absurd (List.isPrefixOf_iff_prefix.2 h) (by simp [hab.2])
  refine ⟨s', ?_, hs'⟩
  rw [Parsing.call, heq, Parsing.lit, hfind]
  simp

/-- What follows a word does not go on with it. -/
def Bounded (cls : Char → Bool) (toks : List (List Char)) : Prop :=
  ∀ c, first toks = some c → cls c = false

/-- A word of characters of `cls`. -/
def Word (cls : Char → Bool) (tok : List Char) : Prop := tok ≠ [] ∧ ∀ c ∈ tok, cls c = true

theorem Spaced.first_eq {s : List Char} {c : Char} (hs : Spaced toks (c :: s))
    (hc : isSpace c = false) : first toks = some c := by
  have htok : Token [c] := ⟨List.cons_ne_nil _ _, by simpa using hc⟩
  rw [← hs.head?_strip, Parsing.strip, show c :: s = [c] ++ s from rfl, htok.dropWhile,
    ← List.nil_append ([c] ++ s), htok.rdropWhile]
  rfl

theorem Bounded.head {s : List Char} (h : Bounded cls toks)
    (hcls : ∀ c, cls c = true → isSpace c = false) (hs : Spaced toks s) :
    ∀ c, s.head? = some c → cls c = false := by
  intro c hc
  cases s with
  | nil => cases hc
  | cons d s =>
    cases hc
    by_contra hcc
    rw [Bool.not_eq_false] at hcc
    exact absurd (h c (hs.first_eq (hcls c hcc))) (by simp [hcc])

theorem takeWhile_word {s : List Char} (hw : ∀ c ∈ tok, cls c = true)
    (hs : ∀ c, s.head? = some c → cls c = false) :
    (tok ++ s).takeWhile cls = tok ∧ (tok ++ s).dropWhile cls = s := by
  cases s with
  | nil => simpa using hw
  | cons c s =>
    rw [List.takeWhile_append_of_pos hw, List.dropWhile_append_of_pos hw]
    simp [hs c rfl]

theorem Reads.reg (regex : String) (hw : Word cls tok) (hb : Bounded cls toks)
    (hcls : ∀ c, cls c = true → isSpace c = false) :
    Reads (reg regex cls) (tok :: toks) (String.ofList tok) toks := by
  intro s hs
  obtain ⟨s', heq, hs'⟩ := hs.strip_cons
  obtain ⟨htake, hdrop⟩ := takeWhile_word hw.2 (hb.head hcls hs')
  refine ⟨s', ?_, hs'⟩
  rw [Parsing.call, heq, Parsing.reg, htake, hdrop]
  split
  · exact absurd rfl hw.1
  · rfl

theorem Refuses.reg {regex : String} (hb : Bounded cls toks) : Refuses (reg regex cls) toks := by
  apply Refuses.of_eq
  intro s hs
  have htake : (strip s).takeWhile cls = [] := by
    cases heq : strip s with
    | nil => rfl
    | cons c s' =>
      have hc : cls c = false := hb c (by rw [← hs.head?_strip, heq]; rfl)
      simp [hc]
  rw [Parsing.call, Parsing.reg, htake]
  exact ⟨_, rfl⟩

/-- Literals that are words are looked for in the word that comes first. -/
theorem lit_word {args : List String} (hargs : ∀ a ∈ args, ∀ c ∈ a.toList, cls c = true)
    (hb : Bounded cls toks) (hcls : ∀ c, cls c = true → isSpace c = false) {s : List Char}
    (hs : Spaced toks s) :
    (args.find? fun a => a.toList.isPrefixOf (tok ++ s)) =
      args.find? fun a => a.toList.isPrefixOf tok := by
  refine List.find?_congr fun a ha => ?_
  rw [Bool.eq_iff_iff, List.isPrefixOf_iff_prefix, List.isPrefixOf_iff_prefix]
  constructor
  · intro hprefix
    rcases List.prefix_or_prefix_of_prefix hprefix (List.prefix_append tok s) with h | ⟨t, ht⟩
    · exact h
    · rw [← ht, List.prefix_append_right_inj] at hprefix
      cases t with
      | nil => simp [← ht]
      | cons c t =>
        obtain ⟨s', rfl⟩ := hprefix
        have hc := hargs a ha c (by simp [← ht])
        exact absurd hc (by simp [hb.head hcls hs c rfl])
  · exact fun h => h.trans (List.prefix_append _ _)

/-- The tokens where a word has been read as far as `suffix`. -/
def cut (suffix : List Char) (toks : List (List Char)) : List (List Char) :=
  if suffix = [] then toks else suffix :: toks

theorem Reads.lit_word {args : List String} {a : String} {suffix : List Char}
    (hargs : ∀ a ∈ args, ∀ c ∈ a.toList, cls c = true) (hb : Bounded cls toks)
    (hcls : ∀ c, cls c = true → isSpace c = false)
    (hfind : (args.find? fun a => a.toList.isPrefixOf tok) = some a)
    (htok : tok = a.toList ++ suffix) : Reads (Parsing.lit args) (tok :: toks) a
    (cut suffix toks) := by
  intro s hs
  have hproper : Token tok := by cases hs with | cons _ htok _ => exact htok
  obtain ⟨s', heq, hs'⟩ := hs.strip_cons
  refine ⟨suffix ++ s', ?_, ?_⟩
  · rw [Parsing.call, heq, Parsing.lit, Parsing.lit_word hargs hb hcls hs', hfind]
    simp [htok]
  · rw [cut]
    split
    · rename_i hnil
      rw [hnil]
      exact hs'
    · rename_i hne
      refine Spaced.cons blank_nil ⟨hne, fun c hc => hproper.2 c ?_⟩ hs'
      rw [htok]
      exact List.mem_append_right _ hc

theorem Refuses.lit_word {args : List String} (hargs : ∀ a ∈ args, ∀ c ∈ a.toList, cls c = true)
    (hb : Bounded cls toks) (hcls : ∀ c, cls c = true → isSpace c = false)
    (hfind : (args.find? fun a => a.toList.isPrefixOf tok) = none) :
    Refuses (Parsing.lit args) (tok :: toks) := by
  apply Refuses.of_eq
  intro s hs
  obtain ⟨s', heq, hs'⟩ := hs.strip_cons
  rw [Parsing.call, heq, Parsing.lit, Parsing.lit_word hargs hb hcls hs', hfind]
  exact ⟨_, rfl⟩

/-- A literal that is a word with one more character. -/
theorem Refuses.lit_concat {a : String} {w : List Char} {d : Char} (ha : a.toList = w ++ [d])
    (hd : cls d = false) (hds : isSpace d = false) (hw : ∀ c ∈ w, cls c = true)
    (htok : ∀ c ∈ tok, cls c = true) (hb : Bounded cls toks)
    (hcls : ∀ c, cls c = true → isSpace c = false) (h : tok = w → first toks ≠ some d) :
    Refuses (Parsing.lit [a]) (tok :: toks) := by
  apply Refuses.of_eq
  intro s hs
  obtain ⟨s', heq, hs'⟩ := hs.strip_cons
  have hnot : a.toList.isPrefixOf (tok ++ s') = false := by
    rw [Bool.eq_false_iff]
    intro hprefix
    rw [List.isPrefixOf_iff_prefix, ha] at hprefix
    rcases List.prefix_or_prefix_of_prefix hprefix (List.prefix_append tok s') with hin | ⟨t, ht⟩
    · exact absurd (htok d (hin.subset (by simp))) (by simp [hd])
    · rw [← ht, List.prefix_append_right_inj] at hprefix
      obtain ⟨s'', rfl⟩ := hprefix
      rcases List.eq_nil_or_concat t with rfl | ⟨t', c, rfl⟩
      · rw [List.append_nil] at ht
        exact absurd (htok d (by simp [ht])) (by simp [hd])
      · rw [List.concat_eq_append] at ht hs'
        rw [← List.append_assoc] at ht
        obtain ⟨htw, hcd⟩ := List.append_inj' ht rfl
        obtain rfl : c = d := by simpa using hcd
        cases t' with
        | nil => exact h (by simpa using htw) (hs'.first_eq hds)
        | cons e t' =>
          have he := hw e (by simp [← htw])
          exact absurd he (by simp [hb.head hcls hs' e rfl])
  rw [Parsing.call, heq, Parsing.lit, List.find?_cons, hnot]
  exact ⟨_, rfl⟩

end

/-! ## Reading repetitions -/

section

variable {p : Parser α} {sep : Option (Parser γ)} {a : α} {as : List α} {E : Failure → Prop}
  {toks mid mid' rest : List (List Char)}

/-- What the turns of a repetition do on every text made of `toks`. -/
def Loops (P : Except Failure (List α × List Char) → Prop) (p : Parser α) (sep : Option (Parser γ))
    (toks : List (List Char)) : Prop :=
  ∀ turns s, Spaced toks s → s.length ≤ turns → P (repFrom p sep turns s)

abbrev LoopReads (p : Parser α) (sep : Option (Parser γ)) (toks : List (List Char)) (as : List α)
    (rest : List (List Char)) : Prop :=
  Loops (fun r => ∃ s, r = .ok (as, s) ∧ Spaced rest s) p sep toks

/-- One turn returns `a` and leaves `rest`. -/
def ItemReads (p : Parser α) (sep : Option (Parser γ)) (toks : List (List Char)) (a : α)
    (rest : List (List Char)) : Prop :=
  ∀ s, Spaced toks s → ∃ s', item p sep s = .ok (a, s') ∧ Spaced rest s'

theorem ItemReads.bare (hp : Reads p toks a rest)
    (hsep : ∀ q, sep = some q → Refuses q rest) : ItemReads p sep toks a rest := by
  intro s hs
  obtain ⟨s', hps, hs'⟩ := hp s hs
  refine ⟨s', ?_, hs'⟩
  rw [item, bind_of_ok hps]
  cases sep with
  | none => rfl
  | some q =>
    obtain ⟨msg, hqs⟩ := (hsep q rfl).eq hs'
    have hskip : skip (some q) s' = .ok ((), s') := by rw [skip, hqs]
    rw [bind_of_ok hskip]
    rfl

theorem ItemReads.separated {q : Parser γ} {b : γ} (hp : Reads p toks a mid)
    (hq : Reads q mid b rest) : ItemReads p (some q) toks a rest := by
  intro s hs
  obtain ⟨s', hps, hs'⟩ := hp s hs
  obtain ⟨s'', hqs, hs''⟩ := hq s' hs'
  refine ⟨s'', ?_, hs''⟩
  have hskip : skip (some q) s' = .ok ((), s'') := by rw [skip, hqs]
  rw [item, bind_of_ok hps, bind_of_ok hskip]
  rfl

theorem LoopReads.stop (h : Refuses p toks) : LoopReads p sep toks [] toks := by
  intro turns s hs _
  obtain ⟨msg, hps⟩ := h.eq hs
  refine ⟨s, ?_, hs⟩
  rw [repFrom, item, bind_of_error hps]

variable {G : α → List (List Char) → Prop} {H : γ → List (List Char) → Prop}

theorem Loops.turn {P Q : Except Failure (List α × List Char) → Prop} (hG : Takes p G)
    (hne : Nonempty G) (hH : ∀ q, sep = some q → Takes q H) (ha : ItemReads p sep toks a mid)
    (h : Loops P p sep mid) (hPQ : ∀ r, P r → Q (r.bind fun r => .ok (a :: r.1, r.2))) :
    Loops Q p sep toks := by
  intro turns s hs hlen
  obtain ⟨s', hitem, hs'⟩ := ha s hs
  have hlt : s'.length < s.length :=
    (hG.item hH).length_lt (by
      rintro a toks ⟨t, u, ha, -, rfl⟩
      exact List.append_ne_nil_of_left_ne_nil (hne a t ha) u) hitem
  obtain ⟨turns, rfl⟩ : ∃ k, turns = k + 1 := ⟨turns - 1, by omega⟩
  rw [repFrom, hitem]
  exact hPQ _ (h turns s' hs' (by omega))

theorem LoopReads.turn (hG : Takes p G) (hne : Nonempty G) (hH : ∀ q, sep = some q → Takes q H)
    (ha : ItemReads p sep toks a mid) (h : LoopReads p sep mid as rest) :
    LoopReads p sep toks (a :: as) rest :=
  Loops.turn hG hne hH ha h (by
    rintro r ⟨s, rfl, hs⟩
    exact ⟨s, rfl, hs⟩)

theorem Loops.rep {P : Except Failure (List α × List Char) → Prop} (h : Loops P p sep toks) :
    Does P (rep p sep) toks := fun s hs => h _ (strip s) hs.strip (Nat.le_refl _)

/-- The tokens of items with `sep` between them, and after the last where `trailing`. -/
def joined (sep : List Char) (trailing : Bool) : List (List (List Char)) → List (List Char)
  | [] => []
  | [item] => item ++ if trailing then [sep] else []
  | item :: items => item ++ sep :: joined sep trailing items

/-- A repetition reads all items that are joined, if each is read before whatever may follow it. -/
theorem Reads.joined {s : String} {β : Type} {items : List β} {tokens : β → List (List Char)}
    {value : β → α} {F : List (List Char) → Prop} (trailing : Bool) (hG : Takes p G)
    (hne : Nonempty G) (hs : Token s.toList)
    (hitem : ∀ b ∈ items, ∀ ts, F ts → Reads p (tokens b ++ ts) (value b) ts)
    (hF : ∀ ts, F (s.toList :: ts)) (hrest : F rest) (hstop : Refuses p rest)
    (hsep : Refuses (Parsing.lit [s]) rest) :
    Reads (Parsing.rep p (some (Parsing.lit [s])))
      (Parsing.joined s.toList trailing (items.map tokens) ++ rest) (items.map value) rest := by
  have hH : ∀ q, some (Parsing.lit [s]) = some q →
      Takes q fun a toks => a ∈ [s] ∧ toks = [a.toList] := by
    rintro q ⟨⟩
    exact Takes.lit (by simpa using hs)
  have hlit : ∀ ts, Reads (Parsing.lit [s]) (s.toList :: ts) s ts := fun ts =>
    Reads.lit (by simp [List.isPrefixOf_iff_prefix])
  apply Loops.rep
  induction items with
  | nil => exact LoopReads.stop hstop
  | cons b items ih =>
    have hb := hitem b (List.mem_cons_self ..)
    cases items with
    | nil =>
      cases trailing with
      | false =>
        refine LoopReads.turn hG hne hH ?_ (LoopReads.stop hstop)
        have hbare : ItemReads p (some (Parsing.lit [s])) (tokens b ++ rest) (value b) rest :=
          ItemReads.bare (hb rest hrest) (by rintro q ⟨⟩; exact hsep)
        simpa [Parsing.joined] using hbare
      | true =>
        refine LoopReads.turn hG hne hH ?_ (LoopReads.stop hstop)
        have := ItemReads.separated (hb (s.toList :: rest) (hF rest)) (hlit rest)
        simpa [Parsing.joined] using this
    | cons b' items =>
      have hturn := ItemReads.separated
        (hb (s.toList :: (Parsing.joined s.toList trailing ((b' :: items).map tokens) ++ rest)) (hF _))
        (hlit _)
      have := LoopReads.turn hG hne hH hturn (ih fun c hc => hitem c (List.mem_cons_of_mem _ hc))
      simpa [Parsing.joined] using this

end

end Lib.Parsing
