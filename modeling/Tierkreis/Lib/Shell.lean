import Mathlib.Tactic.Common

/-!
# Words of the POSIX shell

A shell reads its text character by character and cuts it into commands and
their words: blanks separate words, unquoted newlines end commands, comments run
from a hash that starts a word to the end of the line, and quotes and
backslashes take away the meaning of what they enclose. What is expanded or has
an operator's meaning (parameters, substitutions, patterns, tildes, redirections,
lists) is not a literal word any more: the reader stops there with `none`. The
value of an assignment is no pattern, and a tilde means something in it only
where it begins the value or follows a colon.
-/

namespace Lib.Shell

abbrev Word := List Char

/-- Characters that stand for themselves only when they are quoted. -/
def isActive : Char → Bool
  | '|' | '&' | ';' | '<' | '>' | '(' | ')' | '$' | '\x60' | '\x00' => true
  | _ => false

/-- Characters of a pattern, which is expanded to the names of the files that match it. -/
def isPattern : Char → Bool
  | '*' | '?' | '[' => true
  | _ => false

/-- Whether `c` goes on with the name `w`. -/
def goesOn (w : Word) (c : Char) : Bool := c.isAlpha || c == '_' || c.isDigit && !w.isEmpty

/-- What the characters of a word have made of it so far. -/
inductive Form
  /-- A name without quotes: an equals sign makes it an assignment. -/
  | name
  /-- An assignment, after its equals sign or after a colon of its value. -/
  | begins
  /-- Elsewhere in the value of an assignment. -/
  | value
  | other
  deriving DecidableEq, Repr

namespace Form

/-- After the unquoted character `c`, which follows `w`. -/
def next (f : Form) (w : Word) (c : Char) : Form :=
  match f with
  | .name => if goesOn w c then .name else if c = '=' ∧ w ≠ [] then .begins else .other
  | .begins | .value => if c = ':' then .begins else .value
  | .other => .other

/-- After quoted text. -/
def quoted : Form → Form
  | .name | .other => .other
  | .begins | .value => .value

/-- After the unquoted characters `v`, which follow `w`. -/
def along (f : Form) (w v : Word) : Form :=
  match v with
  | [] => f
  | c :: v => (f.next w c).along (w ++ [c]) v

def isValue : Form → Bool
  | .begins | .value => true
  | .name | .other => false

end Form

inductive Mode
  /-- Between two words. -/
  | blank
  | comment
  | word (w : Word) (f : Form)
  | single (w : Word) (f : Form)
  | double (w : Word) (f : Form)
  /-- After an unquoted backslash, in a word or before one. -/
  | escaped (w : Option Word) (f : Form)
  | doubleEscaped (w : Word) (f : Form)
  deriving DecidableEq, Repr

structure State where
  commands : List (List Word) := []
  words : List Word := []
  mode : Mode := .blank
  deriving DecidableEq, Repr

namespace State

def endCommand (s : State) (words : List Word) : State where
  commands := if words = [] then s.commands else s.commands ++ [words]
  words := []
  mode := .blank

/-- The next word may be an assignment that is not expanded as a pattern: the first of a
command, or an argument of a command that declares variables. -/
def declares (s : State) : Bool :=
  match s.words.head? with
  | none => true
  | some w => w == "export".toList || w == "readonly".toList

/-- One character outside quotes, in the word `w` of the form `f` if there is one. -/
def unquoted (s : State) (w : Option Word) (f : Form) (c : Char) : Option State :=
  let words := s.words ++ w.toList
  if c = ' ' ∨ c = '\t' then some { s with words := words, mode := .blank }
  else if c = '\n' then some (s.endCommand words)
  else if c = '#' ∧ w = none then some { s with mode := .comment }
  else if c = '\x27' then some { s with mode := .single (w.getD []) f.quoted }
  else if c = '"' then some { s with mode := .double (w.getD []) f.quoted }
  else if c = '\\' then some { s with mode := .escaped w f }
  else if isActive c then none
  else if isPattern c ∧ ¬(f.isValue ∧ s.declares) then none
  else if c = '~' ∧ (w = none ∨ f = .begins) then none
  else some { s with mode := .word (w.getD [] ++ [c]) (f.next (w.getD []) c) }

def step (s : State) (c : Char) : Option State :=
  match s.mode with
  | .blank => s.unquoted none .name c
  | .word w f => s.unquoted (some w) f c
  | .comment => some (if c = '\n' then s.endCommand s.words else s)
  | .single w f =>
    some { s with mode := if c = '\x27' then .word w f else .single (w ++ [c]) f }
  | .double w f =>
    if c = '"' then some { s with mode := .word w f }
    else if c = '\\' then some { s with mode := .doubleEscaped w f }
    else if c = '$' ∨ c = '\x60' then none
    else some { s with mode := .double (w ++ [c]) f }
  | .escaped w f =>
    -- A backslash before a newline joins the lines.
    if c = '\n' then some { s with mode := w.elim .blank fun w => .word w f }
    else some { s with mode := .word (w.getD [] ++ [c]) f.quoted }
  | .doubleEscaped w f =>
    if c = '\n' then some { s with mode := .double w f }
    else if c = '$' ∨ c = '\x60' ∨ c = '"' ∨ c = '\\' then
      some { s with mode := .double (w ++ [c]) f }
    else some { s with mode := .double (w ++ ['\\', c]) f }

/-- The end of the text ends the last command, unless a quote is open. -/
def finish (s : State) : Option (List (List Word)) :=
  match s.mode with
  | .blank | .comment => some (s.endCommand s.words).commands
  | .word w _ => some (s.endCommand (s.words ++ [w])).commands
  | _ => none

end State

def read (s : State) (text : List Char) : Option State := text.foldlM State.step s

/-- The commands of a script, each as its words. -/
def commands (script : List Char) : Option (List (List Word)) :=
  (read {} script).bind State.finish

/-- The words of one command line. -/
def splitWords (line : List Char) : Option (List Word) :=
  match commands line with
  | some [] => some []
  | some [words] => some words
  | _ => none

/-! ## Reading on -/

variable {s t : State} {text rest : List Char} {w : Word} {f : Form} {cs : List (List Word)}
  {ws : List Word}

@[simp] theorem read_nil (s : State) : read s [] = some s := rfl

theorem read_cons (s : State) (c : Char) (rest : List Char) :
    read s (c :: rest) = (s.step c).bind fun t => read t rest := rfl

theorem read_append (s : State) (text rest : List Char) :
    read s (text ++ rest) = (read s text).bind fun t => read t rest := by
  unfold read
  rw [List.foldlM_append]
  rfl

/-- In single quotes every other character stands for itself. -/
theorem read_single (h : '\x27' ∉ text) :
    read ⟨cs, ws, .single w f⟩ text = some ⟨cs, ws, .single (w ++ text) f⟩ := by
  induction text generalizing w with
  | nil => rw [read_nil, List.append_nil]
  | cons c text ih =>
    have hc : c ≠ '\x27' := fun hc => h (hc ▸ List.mem_cons_self)
    have hstep : State.step ⟨cs, ws, .single w f⟩ c = some ⟨cs, ws, .single (w ++ [c]) f⟩ := by
      simp [State.step, hc]
    rw [read_cons, hstep, Option.bind_some, ih fun hm => h (.tail _ hm), List.append_assoc]
    rfl

/-- A comment line, or an empty one, is no command. -/
theorem read_comment (h : '\n' ∉ text) (hhash : text = [] ∨ text.head? = some '#') :
    read ⟨cs, [], .blank⟩ (text ++ ['\n']) = some ⟨cs, [], .blank⟩ := by
  have hcomment : ∀ l : List Char, '\n' ∉ l →
      read ⟨cs, [], .comment⟩ (l ++ ['\n']) = some ⟨cs, [], .blank⟩ := by
    intro l hl
    induction l with
    | nil => rfl
    | cons c l ih =>
      have hc : c ≠ '\n' := fun hc => hl (hc ▸ List.mem_cons_self)
      have hstep : State.step ⟨cs, [], .comment⟩ c = some ⟨cs, [], .comment⟩ := by
        simp [State.step, hc]
      rw [List.cons_append, read_cons, hstep, Option.bind_some]
      exact ih fun hm => hl (.tail _ hm)
  rcases hhash with rfl | hhash
  · rfl
  · obtain ⟨l, rfl⟩ : ∃ l, text = '#' :: l := by
      cases text with
      | nil => cases hhash
      | cons c l =>
        cases hhash
        exact ⟨l, rfl⟩
    exact hcomment l fun hm => h (.tail _ hm)

/-! ## Text that is read as it stands -/

/-- A character that no rule takes outside quotes in the value of an assignment, a tilde apart
that begins it. -/
def isPlain (c : Char) : Bool :=
  !(isActive c || c == ' ' || c == '\t' || c == '\n' || c == '\x27' || c == '"' || c == '\\')

/-- A tilde is expanded where a value begins and after its colons. -/
def tildeAt (v : Word) : Bool :=
  match v.getLast? with
  | none | some ':' => true
  | some _ => false

/-- What may follow the equals sign of an assignment without quotes. -/
structure Literal (v : List Char) : Prop where
  plain : ∀ c ∈ v, isPlain c = true
  tilde : ∀ p r, v = p ++ '~' :: r → tildeAt p = false

theorem Literal.of_all {v : List Char} (h : v.all (fun c => isPlain c && c != '~') = true) :
    Literal v where
  plain := fun c hc => (Bool.and_eq_true_iff.1 (List.all_eq_true.1 h c hc)).1
  tilde := by
    rintro p r rfl
    simp at h

theorem unquoted_plain {c : Char} (hc : isPlain c = true)
    (hpattern : isPattern c = true → f.isValue = true ∧ s.declares = true)
    (htilde : c = '~' → f ≠ .begins) :
    State.unquoted s (some w) f c = some { s with mode := .word (w ++ [c]) (f.next w c) } := by
  simp only [isPlain, Bool.not_eq_true', Bool.or_eq_false_iff, beq_eq_false_iff_ne] at hc
  obtain ⟨⟨⟨⟨⟨⟨hactive, h₁⟩, h₂⟩, h₃⟩, h₄⟩, h₅⟩, h₆⟩ := hc
  have hp : ¬(isPattern c = true ∧ ¬(f.isValue = true ∧ s.declares = true)) :=
    fun ⟨h, hno⟩ => hno (hpattern h)
  have ht : ¬(c = '~' ∧ f = .begins) := fun ⟨h, hb⟩ => htilde h hb
  simp only [State.unquoted, h₁, h₂, h₃, h₄, h₅, h₆, hactive, false_or, if_false, reduceCtorEq,
    and_false, Option.getD_some, hp, ht, Bool.false_eq_true]

/-- A word of plain characters without a pattern or a tilde, the first of them not a hash. -/
structure PlainWord (w : Word) : Prop where
  ne_nil : w ≠ []
  plain : ∀ c ∈ w, isPlain c = true ∧ isPattern c = false ∧ c ≠ '~'
  hash : w.head? ≠ some '#'

theorem PlainWord.of_all {w : Word} (hne : w ≠ [])
    (hplain : w.all (fun c => isPlain c && !isPattern c && c != '~') = true)
    (hhash : w.head? ≠ some '#') : PlainWord w where
  ne_nil := hne
  plain := fun c hc => by simpa [and_assoc] using List.all_eq_true.1 hplain c hc
  hash := hhash

theorem read_plain {w v : Word} (h : ∀ c ∈ v, isPlain c = true ∧ isPattern c = false ∧ c ≠ '~') :
    read ⟨cs, ws, .word w f⟩ v = some ⟨cs, ws, .word (w ++ v) (f.along w v)⟩ := by
  induction v generalizing w f with
  | nil =>
    rw [read_nil, List.append_nil]
    rfl
  | cons c v ih =>
    obtain ⟨hc, hpattern, htilde⟩ := h c List.mem_cons_self
    have hstep : State.step ⟨cs, ws, .word w f⟩ c =
        some ⟨cs, ws, .word (w ++ [c]) (f.next w c)⟩ :=
      unquoted_plain hc (fun h => absurd (hpattern.symm.trans h) (by decide))
        fun h => absurd h htilde
    rw [read_cons, hstep, Option.bind_some, ih fun d hd => h d (.tail _ hd), List.append_assoc]
    rfl

theorem read_plainWord {w : Word} (h : PlainWord w) :
    read ⟨cs, ws, .blank⟩ w = some ⟨cs, ws, .word w (Form.name.along [] w)⟩ := by
  obtain ⟨hne, hplain, hhash⟩ := h
  cases w with
  | nil => exact absurd rfl hne
  | cons c w =>
    obtain ⟨hc, hpattern, htilde⟩ := hplain c List.mem_cons_self
    have hchash : c ≠ '#' := fun h => hhash (h ▸ rfl)
    have hstep : State.step ⟨cs, ws, .blank⟩ c =
        some ⟨cs, ws, .word [c] (Form.name.next [] c)⟩ := by
      simp only [isPlain, Bool.not_eq_true', Bool.or_eq_false_iff, beq_eq_false_iff_ne] at hc
      obtain ⟨⟨⟨⟨⟨⟨hactive, h₁⟩, h₂⟩, h₃⟩, h₄⟩, h₅⟩, h₆⟩ := hc
      simp [State.step, State.unquoted, h₁, h₂, h₃, h₄, h₅, h₆, hactive, hpattern, htilde, hchash]
    rw [read_cons, hstep, Option.bind_some, read_plain fun d hd => hplain d (.tail _ hd)]
    rfl

/-- A name: letters, digits and underscores, the first no digit. -/
structure IsName (n : Word) : Prop where
  ne_nil : n ≠ []
  chars : ∀ c ∈ n, c.isAlphanum = true ∨ c = '_'
  first : ∀ c, n.head? = some c → c.isDigit = false

theorem isPlain_of_isAlphanum {c : Char} (h : c.isAlphanum = true ∨ c = '_' ∨ c = '=') :
    isPlain c = true ∧ isPattern c = false ∧ c ≠ '~' ∧ c ≠ '#' := by
  have hactive : isActive c = false := by
    unfold isActive
    split
    all_goals first
      | rfl
      | exact absurd h (by decide)
  have hpattern : isPattern c = false := by
    unfold isPattern
    split
    all_goals first
      | rfl
      | exact absurd h (by decide)
  have hne : ∀ d : Char, (d.isAlphanum = true ∨ d = '_' ∨ d = '=') = False → c ≠ d := by
    rintro d hd rfl
    rw [hd] at h
    exact h
  refine ⟨?_, hpattern, hne _ (by decide), hne _ (by decide)⟩
  simp [isPlain, hactive, hne ' ' (by decide), hne '\t' (by decide), hne '\n' (by decide),
    hne '\x27' (by decide), hne '"' (by decide), hne '\\' (by decide)]

/-! ## The form of a word -/

namespace Form

theorem along_append (f : Form) (w v v' : Word) :
    f.along w (v ++ v') = (f.along w v).along (w ++ v) v' := by
  induction v generalizing f w with
  | nil => rw [List.nil_append, List.append_nil, along]
  | cons c v ih => rw [List.cons_append, along, along, ih, List.append_assoc]; rfl

theorem along_name {n : Word} (h : IsName n) : Form.name.along [] n = .name := by
  have hrest : ∀ (v w : Word), w ≠ [] → (∀ c ∈ v, c.isAlphanum = true ∨ c = '_') →
      Form.name.along w v = .name := by
    intro v
    induction v with
    | nil => exact fun _ _ _ => rfl
    | cons c v ih =>
      intro w hw hv
      have hc : goesOn w c = true := by
        rcases hv c List.mem_cons_self with hc | rfl
        · unfold Char.isAlphanum at hc
          cases w with
          | nil => exact absurd rfl hw
          | cons _ _ =>
            simp only [goesOn, List.isEmpty_cons, Bool.not_false, Bool.and_true]
            rcases Bool.or_eq_true_iff.1 hc with hc | hc
            · simp [hc]
            · simp [hc]
        · rfl
      rw [along, next, if_pos hc]
      exact ih _ (by simp) fun d hd => hv d (.tail _ hd)
  obtain ⟨hne, hchars, hfirst⟩ := h
  obtain ⟨c, v, rfl⟩ := List.exists_cons_of_ne_nil hne
  have hc : goesOn [] c = true := by
    have hdigit := hfirst c rfl
    rcases hchars c List.mem_cons_self with hc | rfl
    · unfold Char.isAlphanum at hc
      rw [hdigit, Bool.or_false] at hc
      simp [goesOn, hc]
    · rfl
  rw [along, next, if_pos hc]
  exact hrest v _ (by simp) fun d hd => hchars d (.tail _ hd)

/-- A name and its equals sign begin a value. -/
theorem along_assignment {n : Word} (h : IsName n) :
    Form.name.along [] (n ++ ['=']) = .begins := by
  rw [along_append, along_name h, List.nil_append, along, along, next,
    if_neg (by simp [goesOn]), if_pos ⟨rfl, h.ne_nil⟩]

theorem isValue_along {f : Form} (hf : f.isValue = true) (w v : Word) :
    (f.along w v).isValue = true := by
  induction v generalizing f w with
  | nil => exact hf
  | cons c v ih =>
    refine ih ?_ (w ++ [c])
    cases f with
    | name => cases hf
    | other => cases hf
    | begins | value =>
      change (if c = ':' then begins else Form.value).isValue = true
      split
      · rfl
      · rfl

/-- A value begins again after its colons. -/
theorem along_begins (w v : Word) : Form.begins.along w v = .begins ↔ tildeAt v = true := by
  rcases List.eq_nil_or_concat v with rfl | ⟨v, c, rfl⟩
  · simp [along, tildeAt]
  · have hvalue := isValue_along (f := .begins) rfl w v
    have hlast : tildeAt (v ++ [c]) = true ↔ c = ':' := by
      unfold tildeAt
      rw [List.getLast?_concat]
      split
      · rename_i h
        cases h
      · rename_i h
        cases h
        exact ⟨fun _ => rfl, fun _ => rfl⟩
      · rename_i d hno h
        cases h
        exact iff_of_false (by decide) hno
    rw [List.concat_eq_append, along_append, hlast, along, along]
    cases hform : Form.begins.along w v with
    | name =>
      rw [hform] at hvalue
      cases hvalue
    | other =>
      rw [hform] at hvalue
      cases hvalue
    | begins | value => simp [next]

end Form

/-- A literal value is read as it stands. -/
theorem read_literal {v : List Char} (hdeclares : State.declares ⟨cs, ws, .blank⟩ = true)
    (hv : Literal v) : read ⟨cs, ws, .word w .begins⟩ v =
      some ⟨cs, ws, .word (w ++ v) (Form.begins.along w v)⟩ := by
  have hread : ∀ (r p : List Char), v = p ++ r →
      read ⟨cs, ws, .word (w ++ p) (Form.begins.along w p)⟩ r =
        some ⟨cs, ws, .word (w ++ p ++ r) (Form.begins.along w (p ++ r))⟩ := by
    intro r
    induction r with
    | nil =>
      intro p _
      rw [read_nil, List.append_nil, List.append_nil]
    | cons c r ih =>
      intro p hp
      have hc : isPlain c = true := hv.plain c (by simp [hp])
      have htilde : c = '~' → Form.begins.along w p ≠ .begins := by
        rintro rfl hbegins
        have hbefore := hv.tilde p r hp
        rw [(Form.along_begins w p).1 hbegins] at hbefore
        cases hbefore
      have hstep : State.step ⟨cs, ws, .word (w ++ p) (Form.begins.along w p)⟩ c =
          some ⟨cs, ws, .word (w ++ (p ++ [c])) (Form.begins.along w (p ++ [c]))⟩ := by
        rw [← List.append_assoc, Form.along_append]
        exact unquoted_plain hc (fun _ => ⟨Form.isValue_along rfl w p, hdeclares⟩) htilde
      rw [read_cons, hstep, Option.bind_some, ih (p ++ [c]) (by simp [hp])]
      simp
  have := hread v [] rfl
  rwa [List.append_nil] at this

/-! ## What a word holds

A word holds the characters it was read from, less the quotes, the backslashes
and the newlines that they join: so a word that is as long as its text was read
from plain text.
-/

/-- The word in progress. -/
def Mode.body : Mode → Option Word
  | .word w _ | .single w _ | .double w _ | .escaped (some w) _ | .doubleEscaped w _ => some w
  | .blank | .comment | .escaped none _ => none

/-- A backslash that may still become part of the word. -/
def Mode.pending : Mode → Nat
  | .doubleEscaped _ _ => 1
  | _ => 0

/-- A backslash that has not met its character. -/
def Mode.owed : Mode → Nat
  | .escaped _ _ | .doubleEscaped _ _ => 1
  | _ => 0

theorem Mode.pending_le_owed (m : Mode) : m.pending ≤ m.owed := by
  cases m with
  | escaped w f => exact Nat.zero_le 1
  | _ => exact Nat.le_refl _

/-- The words that are complete. -/
def State.done (s : State) : List Word := s.commands.flatten ++ s.words

theorem State.done_endCommand (s : State) (words : List Word) :
    (s.endCommand words).done = s.commands.flatten ++ words := by
  unfold State.endCommand State.done
  split
  · rename_i h
    simp [h]
  · simp

/-- Characters that quoting never takes away. -/
def isOrdinary (c : Char) : Bool := !(c == '\x27' || c == '"' || c == '\\' || c == '\n')

theorem step_word {w : Word} {c : Char} (hm : s.mode = .word w f) (h : s.step c = some t) :
    (t.mode = .word (w ++ [c]) (f.next w c) ∧ isPlain c = true ∧ (c = '~' → f ≠ .begins) ∧
        t.done = s.done) ∨
      ((t.mode = .single w f.quoted ∨ t.mode = .double w f.quoted ∨
          t.mode = .escaped (some w) f) ∧ isOrdinary c = false ∧ t.done = s.done) ∨
      ((c = ' ' ∨ c = '\t' ∨ c = '\n') ∧ t.done = s.done ++ [w]) := by
  unfold State.step at h
  rw [hm] at h
  simp only [State.unquoted, Option.getD_some, Option.toList_some] at h
  split at h
  · rename_i hc
    cases h
    exact .inr (.inr ⟨hc.elim .inl (fun h => .inr (.inl h)), by simp [State.done]⟩)
  · split at h
    · rename_i hc
      cases h
      refine .inr (.inr ⟨.inr (.inr hc), ?_⟩)
      rw [State.done_endCommand, State.done, List.append_assoc]
    · rename_i hblank hnl
      simp only [reduceCtorEq, and_false, false_or, if_false] at h
      split at h
      · rename_i hc
        cases h
        exact .inr (.inl ⟨.inl rfl, by subst hc; rfl, rfl⟩)
      · split at h
        · rename_i hc
          cases h
          exact .inr (.inl ⟨.inr (.inl rfl), by subst hc; rfl, rfl⟩)
        · split at h
          · rename_i hc
            cases h
            exact .inr (.inl ⟨.inr (.inr rfl), by subst hc; rfl, rfl⟩)
          · split at h
            · cases h
            · split at h
              · cases h
              · split at h
                · cases h
                · rename_i h₁ h₂ h₃ hactive _ htilde
                  cases h
                  simp only [not_or] at hblank
                  refine .inl ⟨rfl, ?_, fun hc hf => htilde ⟨hc, hf⟩, rfl⟩
                  simp [isPlain, hblank.1, hblank.2, hnl, h₁, h₂, h₃, hactive]

/-- One character of a word that goes on. -/
structure Grows (s : State) (c : Char) (t : State) (b b' : Word) : Prop where
  body : t.mode.body = some b'
  done : t.done = s.done
  length : b'.length + t.mode.owed ≤ b.length + s.mode.pending + 1
  ordinary : b'.countP isOrdinary = b.countP isOrdinary + [c].countP isOrdinary

theorem step_body {b : Word} {c : Char} (hb : s.mode.body = some b) (h : s.step c = some t) :
    (∃ b', Grows s c t b b') ∨ ((∃ f, s.mode = .word b f) ∧ (c = ' ' ∨ c = '\t' ∨ c = '\n') ∧
      t.done = s.done ++ [b]) := by
  obtain ⟨cs, ws, m⟩ := s
  have hkept : ∀ {m' : Mode}, t.mode.body = some b → t.done = State.done ⟨cs, ws, m'⟩ →
      t.mode.owed ≤ m'.pending + 1 → [c].countP isOrdinary = 0 →
      ∃ b', Grows ⟨cs, ws, m'⟩ c t b b' := fun hbody hd howed hc =>
    ⟨b, hbody, hd, by simp only; omega, by rw [hc]; rfl⟩
  have hadded : ∀ {m' : Mode}, t.mode.body = some (b ++ [c]) → t.done = State.done ⟨cs, ws, m'⟩ →
      t.mode.owed = 0 → ∃ b', Grows ⟨cs, ws, m'⟩ c t b b' := fun hbody hd howed =>
    ⟨b ++ [c], hbody, hd, by rw [howed]; simp, by rw [List.countP_append]⟩
  cases m with
  | blank => cases hb
  | comment => cases hb
  | word w f =>
    cases hb
    rcases step_word rfl h with ⟨hm, -, -, hd⟩ | ⟨hm, hc, hd⟩ | ⟨hc, hd⟩
    · exact .inl (hadded (by rw [hm]; rfl) hd (by rw [hm]; rfl))
    · have hord : [c].countP isOrdinary = 0 := by simp [hc]
      rcases hm with hm | hm | hm
      · exact .inl (hkept (by rw [hm]; rfl) hd (by rw [hm]; exact Nat.zero_le _) hord)
      · exact .inl (hkept (by rw [hm]; rfl) hd (by rw [hm]; exact Nat.zero_le _) hord)
      · exact .inl (hkept (by rw [hm]; rfl) hd (by rw [hm]; exact Nat.le_refl _) hord)
    · exact .inr ⟨⟨f, rfl⟩, hc, hd⟩
  | single w f =>
    cases hb
    cases h
    by_cases hc : c = '\x27'
    · subst hc
      exact .inl (hkept rfl rfl (Nat.zero_le _) rfl)
    · exact .inl (hadded (by simp [hc, Mode.body]) rfl (by simp [hc, Mode.owed]))
  | double w f =>
    cases hb
    simp only [State.step] at h
    split at h
    · rename_i hc
      cases h
      subst hc
      exact .inl (hkept rfl rfl (Nat.zero_le _) rfl)
    · split at h
      · rename_i hc
        cases h
        subst hc
        exact .inl (hkept rfl rfl (Nat.le_refl _) rfl)
      · split at h
        · cases h
        · cases h
          exact .inl (hadded rfl rfl rfl)
  | escaped w f =>
    cases w with
    | none => cases hb
    | some w =>
      cases hb
      simp only [State.step] at h
      split at h
      · rename_i hc
        cases h
        subst hc
        exact .inl (hkept rfl rfl (Nat.zero_le _) rfl)
      · cases h
        exact .inl (hadded rfl rfl rfl)
  | doubleEscaped w f =>
    cases hb
    simp only [State.step] at h
    split at h
    · rename_i hc
      cases h
      subst hc
      exact .inl (hkept rfl rfl (Nat.zero_le _) rfl)
    · split at h
      · cases h
        exact .inl (hadded rfl rfl rfl)
      · cases h
        refine .inl ⟨b ++ ['\\', c], rfl, rfl, by simp [Mode.pending, Mode.owed], ?_⟩
        rw [List.countP_append]
        rfl

theorem State.done_step {s t : State} {c : Char} (h : s.step c = some t) : s.done <+: t.done := by
  cases hb : s.mode.body with
  | some b =>
    rcases step_body hb h with ⟨b', hg⟩ | ⟨-, -, hd⟩
    · exact hg.done ▸ List.prefix_refl _
    · exact hd ▸ List.prefix_append _ _
  | none =>
    have hend : s.done <+: (s.endCommand s.words).done := by
      rw [State.done_endCommand]
      exact List.prefix_refl _
    obtain ⟨cs, ws, m⟩ := s
    cases m with
    | blank =>
      simp only [State.step, State.unquoted, Option.toList_none, List.append_nil] at h
      repeat' split at h
      all_goals cases h
      all_goals first
        | exact List.prefix_refl _
        | exact hend
    | comment =>
      cases h
      split
      · exact hend
      · exact List.prefix_refl _
    | escaped w f =>
      cases w with
      | some w => cases hb
      | none =>
        simp only [State.step] at h
        split at h
        · cases h
          exact List.prefix_refl _
        · cases h
          exact List.prefix_refl _
    | _ => cases hb

theorem done_read {s t : State} {text : List Char} (h : read s text = some t) :
    s.done <+: t.done := by
  induction text generalizing s with
  | nil =>
    cases h
    exact List.prefix_refl _
  | cons c text ih =>
    rw [read_cons, Option.bind_eq_some_iff] at h
    obtain ⟨u, hu, h⟩ := h
    exact (State.done_step hu).trans (ih h)

/-- A word that goes on to the end of the text, or to a blank in it. -/
theorem read_body {b : Word} (hb : s.mode.body = some b) (h : read s text = some t) :
    (∃ b', t.mode.body = some b' ∧ t.done = s.done ∧
        b'.length + t.mode.owed ≤ b.length + s.mode.owed + text.length ∧
        b'.countP isOrdinary = b.countP isOrdinary + text.countP isOrdinary) ∨
      ∃ p c r b' u, text = p ++ c :: r ∧ (c = ' ' ∨ c = '\t' ∨ c = '\n') ∧ read s p = some u ∧
        (∃ f, u.mode = .word b' f) ∧ u.done = s.done ∧ (s.done ++ [b']) <+: t.done ∧
        b'.length ≤ b.length + s.mode.owed + p.length ∧
        b'.countP isOrdinary = b.countP isOrdinary + p.countP isOrdinary := by
  induction text generalizing s b with
  | nil =>
    cases h
    exact .inl ⟨b, hb, rfl, Nat.le_refl _, rfl⟩
  | cons c text ih =>
    rw [read_cons, Option.bind_eq_some_iff] at h
    obtain ⟨s', hs', h⟩ := h
    rcases step_body hb hs' with ⟨b₁, hg⟩ | ⟨hm, hc, hd⟩
    · have hlen := hg.length
      have hle := s.mode.pending_le_owed
      have hord := hg.ordinary
      rcases ih hg.body h with
        ⟨b', hb', hd, hl, ho⟩ | ⟨p, c', r, b', u, rfl, hc', hu, hm, hd, hdone, hl, ho⟩
      · refine .inl ⟨b', hb', hd.trans hg.done, ?_, ?_⟩
        · rw [List.length_cons]
          omega
        · rw [← List.singleton_append, List.countP_append]
          omega
      · refine .inr ⟨c :: p, c', r, b', u, rfl, hc', ?_, hm, hd.trans hg.done, hg.done ▸ hdone,
          ?_, ?_⟩
        · rw [read_cons, hs']
          exact hu
        · rw [List.length_cons]
          omega
        · rw [← List.singleton_append, List.countP_append]
          omega
    · refine .inr ⟨[], c, text, b, s, rfl, hc, rfl, hm, rfl, hd ▸ done_read h, ?_, ?_⟩
      · rw [List.length_nil]
        omega
      · rw [List.countP_nil]
        omega

/-! ## Text that had to be plain -/

/-- A word that is as long as its text comes from plain text. -/
theorem plain_of_read {v : List Char} {u : State} {f' : Form} :
    ∀ {s : State} {w : Word} {f : Form}, s.mode = .word w f → read s v = some u →
      u.mode = .word (w ++ v) f' → u.done = s.done → (∀ c ∈ v, isPlain c = true) ∧
        ∀ p r, v = p ++ '~' :: r → f.along w p ≠ .begins := by
  induction v with
  | nil => exact fun _ _ _ _ => ⟨by simp, by simp⟩
  | cons c v ih =>
    intro s w f hm h hu hdone
    rw [read_cons, Option.bind_eq_some_iff] at h
    obtain ⟨t, ht, h⟩ := h
    rcases step_word hm ht with ⟨hmt, hc, htilde, hd⟩ | ⟨hmt, -, hd⟩ | ⟨-, hd⟩
    · obtain ⟨hplain, htildes⟩ := ih hmt h (by rw [hu]; simp) (hdone.trans hd.symm)
      refine ⟨List.forall_mem_cons.2 ⟨hc, hplain⟩, fun p r hp => ?_⟩
      cases p with
      | nil =>
        obtain ⟨rfl, -⟩ := List.cons.inj hp
        exact htilde rfl
      | cons d p =>
        obtain ⟨rfl, hv⟩ := List.cons.inj hp
        exact htildes p r hv
    · -- The character is lost: what follows it is too short.
      exfalso
      have hshort : (w ++ c :: v).length ≤ w.length + v.length := by
        have hbody : t.mode.body = some w := by
          rcases hmt with hmt | hmt | hmt
          · rw [hmt]; rfl
          · rw [hmt]; rfl
          · rw [hmt]; rfl
        have hpending : t.mode.pending = 0 := by
          rcases hmt with hmt | hmt | hmt
          · rw [hmt]; rfl
          · rw [hmt]; rfl
          · rw [hmt]; rfl
        have hnil : v ≠ [] := by
          rintro rfl
          cases h
          rcases hmt with hmt | hmt | hmt
          · rw [hmt] at hu; cases hu
          · rw [hmt] at hu; cases hu
          · rw [hmt] at hu; cases hu
        obtain ⟨d, v', rfl⟩ := List.exists_cons_of_ne_nil hnil
        rw [read_cons, Option.bind_eq_some_iff] at h
        obtain ⟨t', ht', h⟩ := h
        have hdone' : u.done = t.done := hdone.trans hd.symm
        rcases step_body hbody ht' with ⟨b₁, hg⟩ | ⟨-, -, hd'⟩
        · have hlen := hg.length
          rcases read_body hg.body h with ⟨b', hb', -, hl, -⟩ | ⟨_, _, _, b', _, _, _, _, _, _, hp, _⟩
          · rw [hu] at hb'
            obtain rfl := Option.some.inj hb'
            rw [hpending] at hlen
            rw [List.length_cons]
            omega
          · exfalso
            have := hp.length_le
            rw [hdone', hg.done, List.length_append, List.length_singleton] at this
            omega
        · exfalso
          have := (done_read h).length_le
          rw [hdone', hd', List.length_append, List.length_singleton] at this
          omega
      rw [List.length_append, List.length_cons] at hshort
      omega
    · exfalso
      have := (done_read h).length_le
      rw [hdone, hd, List.length_append, List.length_singleton] at this
      omega

/-- A word that holds the whole of a line's rest had to be plain, when a line follows that does
not begin with a blank. -/
theorem literal_of_line {v rest : List Char} {s t : State} {w : Word}
    (hm : s.mode = .word w .begins) (h : read s (v ++ '\n' :: rest) = some t)
    (hdone : (s.done ++ [w ++ v]) <+: t.done)
    (hrest : ∃ c r, (rest = c :: r ∨ rest = '\n' :: c :: r) ∧ isOrdinary c = true ∧ c ≠ ' ' ∧
      c ≠ '\t') : Literal v := by
  have hb : s.mode.body = some w := by rw [hm]; rfl
  have howed : s.mode.owed = 0 := by rw [hm]; rfl
  rcases read_body hb h with
    ⟨b', -, hd, -, -⟩ | ⟨p, c, r, b', u, htext, hc, hu, ⟨f', hmu⟩, hdu, hp, hl, ho⟩
  · exfalso
    have := hdone.length_le
    rw [hd, List.length_append, List.length_singleton] at this
    omega
  · -- The word that ends at `c` is the one expected, so all of `v` has been read before it.
    obtain rfl : b' = w ++ v := by
      have hlen : (s.done ++ [b']).length = (s.done ++ [w ++ v]).length := by simp
      have := List.prefix_of_prefix_length_le hp hdone (Nat.le_of_eq hlen)
      have heq := this.eq_of_length hlen
      simpa using heq
    rw [howed, Nat.add_zero, List.length_append] at hl
    rw [List.countP_append] at ho
    obtain ⟨p', rfl, htail⟩ : ∃ p', p = v ++ p' ∧ p' ++ c :: r = '\n' :: rest := by
      rcases List.append_eq_append_iff.1 htext with ⟨l, hpl, hrest'⟩ | ⟨l, hvl, hcl⟩
      · exact ⟨l, hpl, hrest'.symm⟩
      · have hnil : l = [] := by
          have := congrArg List.length hvl
          rw [List.length_append] at this
          exact List.length_eq_zero_iff.1 (by omega)
        subst hnil
        exact ⟨[], by simpa using hvl.symm, by simpa using hcl⟩
    rw [List.countP_append] at ho
    have hzero : p'.countP isOrdinary = 0 := by omega
    cases p' with
    | nil =>
      rw [List.append_nil] at hu
      obtain ⟨hplain, htilde⟩ := plain_of_read hm hu hmu hdu
      exact ⟨hplain, fun p r hp => Bool.eq_false_iff.2 fun hb =>
        htilde p r hp ((Form.along_begins w p).2 hb)⟩
    | cons d p' =>
      exfalso
      obtain ⟨rfl, hfollow⟩ := List.cons.inj htail
      obtain ⟨c₀, r₀, hform, hord, hblank, htab⟩ := hrest
      have hnot : ∀ {q q' : List Char}, q ++ c :: q' = c₀ :: r₀ → q.countP isOrdinary = 0 → False := by
        intro q q' hq hzero
        cases q with
        | nil =>
          obtain ⟨rfl, -⟩ := List.cons.inj hq
          rcases hc with rfl | rfl | rfl
          · exact hblank rfl
          · exact htab rfl
          · cases hord
        | cons d q =>
          obtain ⟨rfl, -⟩ := List.cons.inj hq
          rw [List.countP_cons, hord] at hzero
          simp at hzero
      have hzero' : p'.countP isOrdinary = 0 := by
        rw [List.countP_cons] at hzero
        omega
      rcases hform with hform | hform
      · exact hnot (hfollow.trans hform) hzero'
      · cases p' with
        | cons d p' =>
          obtain ⟨rfl, htail'⟩ := List.cons.inj (hfollow.trans hform)
          refine hnot htail' ?_
          rw [List.countP_cons] at hzero'
          omega
        | nil =>
          -- A newline inside the word was joined by a backslash, which is lost with it.
          rw [read_append, Option.bind_eq_some_iff] at hu
          obtain ⟨u₁, hu₁, hu⟩ := hu
          rw [read_cons, Option.bind_eq_some_iff] at hu
          obtain ⟨u₂, hu₂, hu⟩ := hu
          cases hu
          have hnodone : ∀ {q : List Word}, ¬ (s.done ++ q) <+: u₁.done ∨ q = [] := by
            intro q
            cases q with
            | nil => exact .inr rfl
            | cons a q =>
              refine .inl fun hq => ?_
              have hle := (hq.trans (State.done_step hu₂)).length_le
              rw [hdu, List.length_append, List.length_cons] at hle
              omega
          rcases read_body hb hu₁ with ⟨b₁, hb₁, hd₁, hl₁, -⟩ | ⟨_, _, _, b₁, _, _, _, _, _, _, hp₁, _⟩
          · rw [howed, Nat.add_zero] at hl₁
            obtain ⟨cs₁, ws₁, m₁⟩ := u₁
            cases m₁ with
            | word b₂ f₂ =>
              rcases step_word rfl hu₂ with ⟨-, hplain, -⟩ | ⟨hm₂, -, -⟩ | ⟨-, hd₂⟩
              · cases hplain
              · rw [hmu] at hm₂
                rcases hm₂ with hm₂ | hm₂ | hm₂
                · cases hm₂
                · cases hm₂
                · cases hm₂
              · have := congrArg List.length (hd₂.symm.trans (hdu.trans hd₁.symm))
                simp at this
            | escaped b₂ f₂ =>
              cases b₂ with
              | none => cases hb₁
              | some b₂ =>
                cases hb₁
                cases hu₂
                cases hmu
                simp only [Mode.owed, List.length_append] at hl₁
                omega
            | single b₂ f₂ =>
              cases hu₂
              cases hmu
            | double b₂ f₂ =>
              cases hu₂
              cases hmu
            | doubleEscaped b₂ f₂ =>
              cases hu₂
              cases hmu
            | blank => cases hb₁
            | comment => cases hb₁
          · rcases hnodone (q := [b₁]) with hno | hno
            · exact hno hp₁
            · cases hno

end Lib.Shell
