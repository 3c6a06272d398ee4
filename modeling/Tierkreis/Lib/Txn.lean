import Mathlib.Algebra.Order.Ring.Int
import Tierkreis.Lib.Run

/-!
# Statement programs over a database

A program sends statements to a database one after the other. A statement may
be refused by the database, or fail for an outside reason: `faults n` is the
error of the `n`-th statement of the session, if it has one. A failed statement
changes nothing; what earlier statements did stays, unless a transaction around
them puts the old contents back.

`Clean` and `Breaks` say how a program ends under every pattern of faults, and
`Atomic` that it changes nothing when it fails.
-/

namespace Lib.Txn

open Lib.Run

variable {δ ε α β : Type}

/-- The contents, and how many statements were sent so far. -/
structure Session (δ : Type) where
  db : δ
  sent : Nat

abbrev Prog (δ ε α : Type) : Type := (Nat → Option ε) → Session δ → Except ε α × Session δ

namespace Prog

def ok (a : α) : Prog δ ε α := fun _ s => (.ok a, s)

def fail (e : ε) : Prog δ ε α := fun _ s => (.error e, s)

def andThen (p : Prog δ ε α) (f : α → Prog δ ε β) : Prog δ ε β := fun faults s =>
  match p faults s with
  | (.ok a, s') => f a faults s'
  | (.error e, s') => (.error e, s')

def lift : Except ε α → Prog δ ε α
  | .ok a => ok a
  | .error e => fail e

/-- One statement: what it returns and does, or why the database refuses it. -/
def stmt (f : δ → Except ε (α × δ)) : Prog δ ε α := fun faults s =>
  match faults s.sent with
  | some e => (.error e, ⟨s.db, s.sent + 1⟩)
  | none =>
    match f s.db with
    | .ok (a, db) => (.ok a, ⟨db, s.sent + 1⟩)
    | .error e => (.error e, ⟨s.db, s.sent + 1⟩)

/-- A statement that only reads. -/
def query (f : δ → Except ε α) : Prog δ ε α := stmt fun db => (f db).map fun a => (a, db)

def mapError (f : ε → ε) (p : Prog δ ε α) : Prog δ ε α := fun faults s =>
  match p faults s with
  | (.ok a, s') => (.ok a, s')
  | (.error e, s') => (.error (f e), s')

/-- `BEGIN`, the program and `COMMIT`; whatever fails, the old contents come back. -/
def transaction (p : Prog δ ε α) : Prog δ ε α := fun faults s =>
  let begin : Prog δ ε Unit := stmt fun db => .ok ((), db)
  match (begin.andThen fun _ => p.andThen fun a => begin.andThen fun _ => ok a) faults s with
  | (.ok a, s') => (.ok a, s')
  | (.error e, s') => (.error e, ⟨s.db, s'.sent⟩)

def each (l : List α) (f : α → Prog δ ε Unit) : Prog δ ε Unit :=
  match l with
  | [] => ok ()
  | a :: l => (f a).andThen fun _ => each l f

end Prog

open Prog

/-! ## Programs that succeed -/

theorem Prog.andThen_eq_ok {p : Prog δ ε α} {f : α → Prog δ ε β} {faults : Nat → Option ε}
    {s s' : Session δ} {b : β} :
    p.andThen f faults s = (.ok b, s') ↔
      ∃ a t, p faults s = (.ok a, t) ∧ f a faults t = (.ok b, s') := by
  unfold Prog.andThen
  constructor
  · intro h
    split at h
    · rename_i a t hp
      exact ⟨a, t, hp, h⟩
    · cases h
  · rintro ⟨a, t, hp, hf⟩
    rw [hp]
    exact hf

theorem Prog.stmt_ok {f : δ → Except ε (α × δ)} {faults : Nat → Option ε} {s s' : Session δ} {a : α}
    (h : Prog.stmt f faults s = (.ok a, s')) : f s.db = .ok (a, s'.db) := by
  unfold Prog.stmt at h
  split at h
  · cases h
  · split at h
    · rename_i hf
      cases h
      exact hf
    · cases h

theorem Prog.query_ok {f : δ → Except ε α} {faults : Nat → Option ε} {s s' : Session δ} {a : α}
    (h : Prog.query f faults s = (.ok a, s')) : f s.db = .ok a ∧ s'.db = s.db := by
  have h := Prog.stmt_ok h
  cases hf : f s.db with
  | error e => simp [hf, Except.map] at h
  | ok b =>
    simp only [hf, Except.map, Except.ok.injEq, Prod.mk.injEq] at h
    exact ⟨by rw [h.1], h.2.symm⟩

theorem Prog.lift_ok {x : Except ε α} {faults : Nat → Option ε} {s s' : Session δ} {a : α}
    (h : (Prog.lift x : Prog δ ε α) faults s = (.ok a, s')) : x = .ok a ∧ s' = s := by
  cases x with
  | error e => cases h
  | ok b =>
    cases h
    exact ⟨rfl, rfl⟩

theorem Prog.mapError_ok {f : ε → ε} {p : Prog δ ε α} {faults : Nat → Option ε}
    {s s' : Session δ} {a : α} (h : p.mapError f faults s = (.ok a, s')) :
    p faults s = (.ok a, s') := by
  unfold Prog.mapError at h
  split at h
  · rename_i hp
    cases h
    exact hp
  · cases h

theorem Prog.transaction_ok {p : Prog δ ε α} {faults : Nat → Option ε} {s s' : Session δ} {a : α}
    (h : p.transaction faults s = (.ok a, s')) :
    ∃ t t', t.db = s.db ∧ p faults t = (.ok a, t') ∧ s'.db = t'.db := by
  unfold Prog.transaction at h
  simp only at h
  split at h
  · rename_i b u hr
    cases h
    rw [Prog.andThen_eq_ok] at hr
    obtain ⟨⟨⟩, t, hb, hr⟩ := hr
    rw [Prog.andThen_eq_ok] at hr
    obtain ⟨b, t', hp, hr⟩ := hr
    rw [Prog.andThen_eq_ok] at hr
    obtain ⟨⟨⟩, t'', hc, hr⟩ := hr
    cases hr
    have hb := Prog.stmt_ok hb
    have hc := Prog.stmt_ok hc
    exact ⟨t, t', (Prod.mk.inj (Except.ok.inj hb)).2.symm, hp,
      (Prod.mk.inj (Except.ok.inj hc)).2.symm⟩
  · cases h

/-! ## Programs that fail without effect -/

def Atomic (p : Prog δ ε α) : Prop :=
  ∀ faults s e s', p faults s = (.error e, s') → s'.db = s.db

theorem Atomic.stmt (f : δ → Except ε (α × δ)) : Atomic (Prog.stmt f) := by
  intro faults s e s' h
  unfold Prog.stmt at h
  split at h
  · cases h; rfl
  · split at h
    · cases h
    · cases h; rfl

theorem Atomic.transaction (p : Prog δ ε α) : Atomic p.transaction := by
  intro faults s e s' h
  unfold Prog.transaction at h
  simp only at h
  split at h
  · cases h
  · cases h; rfl

theorem Atomic.mapError {p : Prog δ ε α} (hp : Atomic p) (f : ε → ε) : Atomic (p.mapError f) := by
  intro faults s e s' h
  unfold Prog.mapError at h
  split at h
  · cases h
  · rename_i hr
    cases h
    exact hp _ _ _ _ hr

/-! ## How a program ends -/

/-- Unless one of its `n` statements is hit by a fault, `p` takes `db` to `db'` and
returns `a`; otherwise it fails. -/
def Clean (p : Prog δ ε α) (db : δ) (a : α) (db' : δ) (n : Nat) : Prop :=
  ∀ faults sent,
    ((∀ k < n, faults (sent + k) = none) → p faults ⟨db, sent⟩ = (.ok a, ⟨db', sent + n⟩)) ∧
    ((∃ k < n, faults (sent + k) ≠ none) → ∃ e s', p faults ⟨db, sent⟩ = (.error e, s'))

/-- `p` fails from `db`, whatever the faults. -/
def Breaks (p : Prog δ ε α) (db : δ) : Prop :=
  ∀ faults sent, ∃ e s', p faults ⟨db, sent⟩ = (.error e, s')

theorem Clean.ok (a : α) (db : δ) : Clean (Prog.ok a : Prog δ ε α) db a db 0 :=
  fun _ _ => ⟨fun _ => rfl, fun ⟨_, h, _⟩ => absurd h (Nat.not_lt_zero _)⟩

theorem Clean.stmt {f : δ → Except ε (α × δ)} {db db' : δ} {a : α} (h : f db = .ok (a, db')) :
    Clean (Prog.stmt f) db a db' 1 := by
  intro faults sent
  constructor
  · intro hn
    have h0 : faults sent = none := by simpa using hn 0 Nat.one_pos
    simp [Prog.stmt, h0, h]
  · rintro ⟨k, hk, hf⟩
    obtain rfl : k = 0 := by omega
    obtain ⟨e, he⟩ := Option.ne_none_iff_exists'.1 hf
    rw [Nat.add_zero] at he
    exact ⟨e, ⟨db, sent + 1⟩, by simp [Prog.stmt, he]⟩

theorem Clean.query {f : δ → Except ε α} {db : δ} {a : α} (h : f db = .ok a) :
    Clean (Prog.query f) db a db 1 := Clean.stmt (by simp [h, Except.map])

theorem Clean.andThen {p : Prog δ ε α} {f : α → Prog δ ε β} {db db' db'' : δ} {a : α} {b : β}
    {m n : Nat} (hp : Clean p db a db' m) (hf : Clean (f a) db' b db'' n) :
    Clean (p.andThen f) db b db'' (m + n) := by
  intro faults sent
  have hp := hp faults sent
  have hf := hf faults (sent + m)
  constructor
  · intro h
    have h₁ := hp.1 fun k hk => h k (by omega)
    have h₂ := hf.1 fun k hk => by
      rw [Nat.add_assoc]
      exact h (m + k) (by omega)
    simp [Prog.andThen, h₁, h₂, Nat.add_assoc]
  · rintro ⟨k, hk, hne⟩
    by_cases hm : ∀ j < m, faults (sent + j) = none
    · -- the fault hits the second program
      have hkm : m ≤ k := by
        by_contra hlt
        exact hne (hm k (by omega))
      obtain ⟨e, s', he⟩ := hf.2 ⟨k - m, by omega, by
        rwa [show sent + m + (k - m) = sent + k by omega]⟩
      exact ⟨e, s', by simp [Prog.andThen, hp.1 hm, he]⟩
    · simp only [not_forall] at hm
      obtain ⟨j, hj, hj'⟩ := hm
      obtain ⟨e, s', he⟩ := hp.2 ⟨j, hj, hj'⟩
      exact ⟨e, s', by simp [Prog.andThen, he]⟩

theorem Clean.mapError {p : Prog δ ε α} {db db' : δ} {a : α} {n : Nat} (h : Clean p db a db' n)
    (f : ε → ε) : Clean (p.mapError f) db a db' n := by
  intro faults sent
  constructor
  · intro hn
    simp [Prog.mapError, (h faults sent).1 hn]
  · intro hn
    obtain ⟨e, s', he⟩ := (h faults sent).2 hn
    exact ⟨f e, s', by simp [Prog.mapError, he]⟩

theorem Clean.transaction {p : Prog δ ε α} {db db' : δ} {a : α} {n : Nat}
    (h : Clean p db a db' n) : Clean p.transaction db a db' (1 + (n + 1)) := by
  have hb : ∀ d : δ, Clean (Prog.stmt fun db : δ => (.ok ((), db) : Except ε (Unit × δ))) d () d 1 :=
    fun d => .stmt rfl
  have hc := (hb db).andThen (f := fun _ => p.andThen fun a =>
    (Prog.stmt fun db : δ => (.ok ((), db) : Except ε (Unit × δ))).andThen fun _ => Prog.ok a)
    (h.andThen ((hb db').andThen (Clean.ok a db')))
  intro faults sent
  constructor
  · intro hn
    simp only [Prog.transaction, (hc faults sent).1 hn]
  · intro hn
    obtain ⟨e, s', he⟩ := (hc faults sent).2 hn
    exact ⟨e, ⟨db, s'.sent⟩, by simp only [Prog.transaction, he]⟩

/-- One statement for each element, on contents alone. -/
def runAll (f : α → δ → Except ε (Unit × δ)) : List α → δ → Except ε δ
  | [], db => .ok db
  | a :: l, db =>
    match f a db with
    | .ok ((), db) => runAll f l db
    | .error e => .error e

theorem runAll_append {f : α → δ → Except ε (Unit × δ)} {l l' : List α} :
    ∀ {db db' : δ}, runAll f (l ++ l') db = .ok db' ↔
      ∃ db₁, runAll f l db = .ok db₁ ∧ runAll f l' db₁ = .ok db' := by
  induction l with
  | nil => simp [runAll]
  | cons a l ih =>
    intro db db'
    cases h : f a db with
    | error e => simp [runAll, h]
    | ok out => simp [runAll, h, ih]

theorem Prog.each_stmt_ok {f : α → δ → Except ε (Unit × δ)} {faults : Nat → Option ε}
    {l : List α} : ∀ {s s' : Session δ},
      Prog.each l (fun a => .stmt (f a)) faults s = (.ok (), s') → runAll f l s.db = .ok s'.db := by
  induction l with
  | nil =>
    intro s s' h
    cases h
    rfl
  | cons a l ih =>
    intro s s' h
    rw [Prog.each, Prog.andThen_eq_ok] at h
    obtain ⟨⟨⟩, t, ha, h⟩ := h
    rw [runAll, Prog.stmt_ok ha]
    exact ih h

/-- One statement for each element, up to the first that is refused. -/
def runUpTo (f : α → δ → Except ε (Unit × δ)) : List α → δ → δ
  | [], db => db
  | a :: l, db =>
    match f a db with
    | .ok ((), db) => runUpTo f l db
    | .error _ => db

/-- Without faults the statements go as far as the database takes them. -/
theorem Prog.db_each_stmt {f : α → δ → Except ε (Unit × δ)} {faults : Nat → Option ε}
    (hfaults : ∀ k, faults k = none) {l : List α} :
    ∀ s : Session δ, (Prog.each l (fun a => .stmt (f a)) faults s).2.db = runUpTo f l s.db := by
  induction l with
  | nil => exact fun _ => rfl
  | cons a l ih =>
    intro s
    rw [Prog.each, runUpTo]
    cases hf : f a s.db with
    | error e => simp [Prog.andThen, Prog.stmt, hfaults, hf]
    | ok out =>
      have := ih ⟨out.2, s.sent + 1⟩
      simpa [Prog.andThen, Prog.stmt, hfaults, hf] using this

/-- Statements that the database accepts as long as `inv` holds. -/
theorem runAll_eq {f : α → δ → Except ε (Unit × δ)} {g : δ → α → δ} (inv : δ → Prop)
    (hf : ∀ db a, inv db → f a db = .ok ((), g db a)) (hi : ∀ db a, inv db → inv (g db a))
    {l : List α} : ∀ {db : δ}, inv db → runAll f l db = .ok (l.foldl g db) := by
  induction l with
  | nil => exact fun _ => rfl
  | cons a l ih =>
    intro db h
    rw [runAll, hf db a h]
    exact ih (hi db a h)

theorem Clean.each {f : α → δ → Except ε (Unit × δ)} {l : List α} :
    ∀ {db db' : δ}, runAll f l db = .ok db' →
      Clean (Prog.each l fun a => .stmt (f a)) db () db' l.length := by
  induction l with
  | nil =>
    intro db db' h
    cases h
    exact .ok () _
  | cons a l ih =>
    intro db db' h
    rw [List.length_cons, Nat.add_comm]
    cases hf : f a db with
    | error e => simp [runAll, hf] at h
    | ok out =>
      simp only [runAll, hf] at h
      exact (Clean.stmt hf).andThen (ih h)

theorem Breaks.stmt {f : δ → Except ε (α × δ)} {db : δ} {e : ε} (h : f db = .error e) :
    Breaks (Prog.stmt f) db := by
  intro faults sent
  cases hf : faults sent with
  | none => exact ⟨e, ⟨db, sent + 1⟩, by simp [Prog.stmt, hf, h]⟩
  | some e' => exact ⟨e', ⟨db, sent + 1⟩, by simp [Prog.stmt, hf]⟩

theorem Breaks.andThen {p : Prog δ ε α} {db : δ} (h : Breaks p db) (f : α → Prog δ ε β) :
    Breaks (p.andThen f) db := by
  intro faults sent
  obtain ⟨e, s', he⟩ := h faults sent
  exact ⟨e, s', by simp [Prog.andThen, he]⟩

/-- A clean start does not save a program that breaks later. -/
theorem Clean.andThen_breaks {p : Prog δ ε α} {f : α → Prog δ ε β} {db db' : δ} {a : α} {n : Nat}
    (hp : Clean p db a db' n) (hf : Breaks (f a) db') : Breaks (p.andThen f) db := by
  intro faults sent
  by_cases hn : ∀ k < n, faults (sent + k) = none
  · obtain ⟨e, s', he⟩ := hf faults (sent + n)
    exact ⟨e, s', by simp [Prog.andThen, (hp faults sent).1 hn, he]⟩
  · simp only [not_forall] at hn
    obtain ⟨k, hk, hk'⟩ := hn
    obtain ⟨e, s', he⟩ := (hp faults sent).2 ⟨k, hk, hk'⟩
    exact ⟨e, s', by simp [Prog.andThen, he]⟩

theorem Breaks.each {f : α → δ → Except ε (Unit × δ)} {l : List α} {e : ε} :
    ∀ {db : δ}, runAll f l db = .error e → Breaks (Prog.each l fun a => .stmt (f a)) db := by
  induction l with
  | nil => exact fun h => nomatch h
  | cons a l ih =>
    intro db h
    cases hf : f a db with
    | error e' => exact (Breaks.stmt hf).andThen _
    | ok out =>
      simp only [runAll, hf] at h
      exact (Clean.stmt hf).andThen_breaks (ih h)

/-- Programs that each end well exactly when `good` holds of the contents they start from,
with `n a` statements for `a`. -/
theorem Clean.each_along {f : α → Prog δ ε Unit} {good : δ → α → Prop} {g : δ → α → δ} {n : α → Nat}
    (hc : ∀ db a, good db a → Clean (f a) db () (g db a) (n a)) {l : List α} :
    ∀ {db : δ}, Along g good db l → Clean (Prog.each l f) db () (l.foldl g db) (l.map n).sum := by
  induction l with
  | nil => exact fun _ => .ok () _
  | cons a l ih =>
    rintro db ⟨ha, hl⟩
    rw [List.map_cons, List.sum_cons]
    exact (hc db a ha).andThen (ih hl)

theorem Breaks.each_along {f : α → Prog δ ε Unit} {good : δ → α → Prop} {g : δ → α → δ} {n : α → Nat}
    (hc : ∀ db a, good db a → Clean (f a) db () (g db a) (n a))
    (hb : ∀ db a, ¬ good db a → Breaks (f a) db) {l : List α} :
    ∀ {db : δ}, ¬ Along g good db l → Breaks (Prog.each l f) db := by
  induction l with
  | nil => exact fun h => absurd trivial h
  | cons a l ih =>
    intro db h
    by_cases ha : good db a
    · exact (hc db a ha).andThen_breaks (ih fun hl => h ⟨ha, hl⟩)
    · exact (hb db a ha).andThen _

theorem Breaks.mapError {p : Prog δ ε α} {db : δ} (h : Breaks p db) (f : ε → ε) :
    Breaks (p.mapError f) db := by
  intro faults sent
  obtain ⟨e, s', he⟩ := h faults sent
  exact ⟨f e, s', by simp [Prog.mapError, he]⟩

theorem Breaks.transaction {p : Prog δ ε α} {db : δ} (h : Breaks p db) :
    Breaks p.transaction db := by
  have hb : Clean (Prog.stmt fun db : δ => (.ok ((), db) : Except ε (Unit × δ))) db () db 1 :=
    .stmt rfl
  have hr := hb.andThen_breaks (f := fun _ => p.andThen fun a =>
    (Prog.stmt fun db : δ => (.ok ((), db) : Except ε (Unit × δ))).andThen fun _ => Prog.ok a)
    (h.andThen _)
  intro faults sent
  obtain ⟨e, s', he⟩ := hr faults sent
  exact ⟨e, ⟨db, s'.sent⟩, by simp only [Prog.transaction, he]⟩

/-! ## What a program keeps -/

/-- However `p` ends, `I` still holds of the contents. -/
def Keeps (I : δ → Prop) (p : Prog δ ε α) : Prop :=
  ∀ faults s, I s.db → I (p faults s).2.db

variable {I : δ → Prop}

theorem Keeps.ok (a : α) : Keeps I (Prog.ok a : Prog δ ε α) := fun _ _ h => h

theorem Keeps.lift (x : Except ε α) : Keeps I (Prog.lift x : Prog δ ε α) := by
  cases x <;> exact fun _ _ h => h

theorem Keeps.stmt {f : δ → Except ε (α × δ)}
    (hf : ∀ db a db', I db → f db = .ok (a, db') → I db') : Keeps I (Prog.stmt f) := by
  intro faults s h
  unfold Prog.stmt
  split
  · exact h
  · split
    · rename_i hr
      exact hf _ _ _ h hr
    · exact h

theorem Keeps.query (f : δ → Except ε α) : Keeps I (Prog.query f) := by
  refine .stmt fun db a db' h hr => ?_
  cases hf : f db with
  | error e => simp [hf, Except.map] at hr
  | ok b =>
    simp only [hf, Except.map, Except.ok.injEq, Prod.mk.injEq] at hr
    exact hr.2 ▸ h

/-- What follows a query may use what the query found. -/
theorem Keeps.query_andThen {f : δ → Except ε α} {g : α → Prog δ ε β}
    (hg : ∀ db a, I db → f db = .ok a → Keeps I (g a)) : Keeps I ((Prog.query f).andThen g) := by
  intro faults s h
  unfold Prog.andThen
  split
  · rename_i a s' hq
    obtain ⟨ha, hs⟩ := Prog.query_ok hq
    exact hg s.db a h ha faults s' (hs ▸ h)
  · rename_i e s' hq
    have := Keeps.query (I := I) f faults s h
    rwa [hq] at this

theorem Keeps.andThen {p : Prog δ ε α} {f : α → Prog δ ε β} (hp : Keeps I p)
    (hf : ∀ a, Keeps I (f a)) : Keeps I (p.andThen f) := by
  intro faults s h
  have h₁ := hp faults s h
  unfold Prog.andThen
  split
  · rename_i hr
    rw [hr] at h₁
    exact hf _ _ _ h₁
  · rename_i hr
    rw [hr] at h₁
    exact h₁

theorem Keeps.mapError {p : Prog δ ε α} (hp : Keeps I p) (f : ε → ε) : Keeps I (p.mapError f) := by
  intro faults s h
  have h₁ := hp faults s h
  unfold Prog.mapError
  split <;> (rename_i hr; rw [hr] at h₁; exact h₁)

theorem Keeps.transaction {p : Prog δ ε α} (hp : Keeps I p) : Keeps I p.transaction := by
  have hb : Keeps I (Prog.stmt fun db : δ => (.ok ((), db) : Except ε (Unit × δ))) :=
    .stmt fun _ _ _ h hr => by cases hr; exact h
  have hc := hb.andThen fun _ => hp.andThen fun a => hb.andThen fun _ => Keeps.ok a
  intro faults s h
  have h₁ := hc faults s h
  unfold Prog.transaction
  simp only
  split
  · rename_i hr
    rw [hr] at h₁
    exact h₁
  · exact h

theorem Keeps.each {l : List α} {f : α → Prog δ ε Unit} (hf : ∀ a ∈ l, Keeps I (f a)) :
    Keeps I (Prog.each l f) := by
  induction l with
  | nil => exact .ok ()
  | cons a l ih =>
    exact (hf a (.head l)).andThen fun _ => ih fun b hb => hf b (.tail a hb)

/-- What one of the programs brings about, and all of them keep, holds at the end. -/
theorem Keeps.of_mem_each {l : List α} {f : α → Prog δ ε Unit} {x : α}
    (hk : ∀ a ∈ l, Keeps I (f a)) (hx : x ∈ l)
    (hf : ∀ faults s s', f x faults s = (.ok (), s') → I s'.db) {faults : Nat → Option ε} :
    ∀ {s s' : Session δ}, Prog.each l f faults s = (.ok (), s') → I s'.db := by
  induction l with
  | nil => cases hx
  | cons a l ih =>
    intro s s' h
    obtain ⟨⟨⟩, t, ha, hl⟩ := Prog.andThen_eq_ok.1 h
    rcases List.mem_cons.1 hx with rfl | hx
    · have := Keeps.each (fun b hb => hk b (.tail _ hb)) faults t (hf faults s t ha)
      rwa [hl] at this
    · exact ih (fun b hb => hk b (.tail _ hb)) hx hl

/-- A program that changes nothing may come before one that fails without effect. -/
theorem Atomic.andThen {p : Prog δ ε α} {f : α → Prog δ ε β}
    (hp : ∀ d, Keeps (fun db => db = d) p) (hf : ∀ a, Atomic (f a)) : Atomic (p.andThen f) := by
  intro faults s e s' h
  have hs := hp s.db faults s rfl
  unfold Prog.andThen at h
  split at h
  · rename_i hr
    rw [hr] at hs
    exact (hf _ _ _ _ _ h).trans hs
  · rename_i hr
    cases h
    rwa [hr] at hs

/-- What holds at the end of a program, even when the one after it fails without effect. -/
theorem Keeps.andThen_atomic {p : Prog δ ε α} {f : α → Prog δ ε β} (hp : Keeps I p)
    (hf : ∀ a, Atomic (f a)) {faults : Nat → Option ε} {s s' : Session δ} {e : ε} (hs : I s.db)
    (h : p.andThen f faults s = (.error e, s')) : I s'.db := by
  have h₁ := hp faults s hs
  unfold Prog.andThen at h
  split at h
  · rename_i hr
    rw [hr] at h₁
    rw [hf _ _ _ _ _ h]
    exact h₁
  · rename_i hr
    cases h
    rwa [hr] at h₁

end Lib.Txn
