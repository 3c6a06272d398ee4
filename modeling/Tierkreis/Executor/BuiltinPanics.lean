import Tierkreis.Executor.Builtins

/-!
# Which builtins panic

Decoding never panics, and neither does writing the output. What is left are the
operations, each at the inputs where its arithmetic is partial.
-/

namespace Tierkreis

open Lib

def NoPanic {α : Type} (r : Result α) : Prop := ∀ text, r ≠ .error (.panic text)

section Results

variable {α β : Type}

@[simp] theorem noPanic_ok (a : α) : NoPanic (.ok a : Result α) := fun _ h => by cases h

@[simp] theorem noPanic_pure (a : α) : NoPanic (pure a : Result α) := noPanic_ok a

@[simp] theorem noPanic_miette (text : String) : NoPanic (.error (.miette text) : Result α) :=
  fun _ h => by cases h

@[simp] theorem noPanic_panic (text : String) :
    NoPanic (.error (.panic text) : Result α) ↔ False :=
  iff_of_false (fun h => h text rfl) id

theorem noPanic_bind_iff {x : Result α} {f : α → Result β} :
    NoPanic (x >>= f) ↔ NoPanic x ∧ ∀ a, x = .ok a → NoPanic (f a) := by
  cases x with
  | error err =>
    constructor
    · exact fun h => ⟨fun text he => h text (by rw [he]; rfl), nofun⟩
    · rintro ⟨h, -⟩ text he
      cases he
      exact h text rfl
  | ok a =>
    constructor
    · exact fun h => ⟨noPanic_ok a, fun b hb => by cases hb; exact h⟩
    · exact fun h => h.2 a rfl

theorem noPanic_okOr (o : Option α) (text : String) : NoPanic (okOr o text) := by
  cases o with
  | none => exact noPanic_miette text
  | some a => exact noPanic_ok a

end Results

variable (S : ValueSerde) (M : Machine) (inputs : Inputs)

/-! ## Decoding -/

theorem noPanic_fromSliceAs {α : Type} (expected : String) (as : Value → Option α) (asset : Bytes) :
    NoPanic (fromSliceAs S expected as asset) := by
  unfold fromSliceAs
  split
  · exact noPanic_miette _
  · split
    · exact noPanic_ok _
    · exact noPanic_miette _

theorem noPanic_extractValue {α : Type} (expected : String) (as : Value → Option α)
    (name : String) : NoPanic (extractValue S expected as inputs name) :=
  noPanic_bind_iff.2 ⟨noPanic_okOr _ _, fun asset _ => noPanic_fromSliceAs S expected as asset⟩

theorem noPanic_int (name : String) : NoPanic (int S inputs name) :=
  noPanic_extractValue S inputs "i64" asInt name

theorem noPanic_float (name : String) : NoPanic (float S inputs name) :=
  noPanic_extractValue S inputs "f64" asFloat name

theorem noPanic_value (name : String) : NoPanic (value S inputs name) :=
  noPanic_extractValue S inputs "Value" some name

theorem noPanic_extractOptionalInt (name : String) : NoPanic (extractOptionalInt S inputs name) := by
  unfold extractOptionalInt
  split
  · exact noPanic_pure none
  · exact noPanic_fromSliceAs S _ _ _

theorem noPanic_outputValue (v : Value) : NoPanic (outputValue S v) := noPanic_pure _

variable {S M inputs}

theorem inRange_of_asInt {v : Value} {n : Int} (h : asInt v = some n) : InRange n := by
  unfold asInt at h
  split at h
  · split_ifs at h with hn
    cases h
    exact hn
  · cases h

theorem inRange_of_int {name : String} {n : Int} (h : int S inputs name = .ok n) : InRange n := by
  obtain ⟨asset, -, h⟩ := Result.bind_eq_ok.1 h
  unfold fromSliceAs at h
  split at h
  · cases h
  · split at h
    · rename_i hv
      cases h
      exact inRange_of_asInt hv
    · cases h

/-! ## Operations -/

theorem noPanic_unOp_iff {α : Type} {get : Inputs → String → Result α} {op : α → Result Value}
    (hg : ∀ name, NoPanic (get inputs name)) :
    NoPanic (unOp S get op inputs) ↔ ∀ a, get inputs "a" = .ok a → NoPanic (op a) := by
  unfold unOp
  rw [noPanic_bind_iff]
  simp only [hg, true_and, noPanic_bind_iff, noPanic_outputValue, implies_true, and_true]

theorem noPanic_binOp_iff {α : Type} {get : Inputs → String → Result α}
    {op : α → α → Result Value} (hg : ∀ name, NoPanic (get inputs name)) :
    NoPanic (binOp S get op inputs) ↔
      ∀ a b, get inputs "a" = .ok a → get inputs "b" = .ok b → NoPanic (op a b) := by
  unfold binOp
  rw [noPanic_bind_iff]
  simp only [hg, true_and, noPanic_bind_iff, noPanic_outputValue, implies_true, and_true]
  exact ⟨fun h a b ha hb => h a ha b hb, fun h a ha b hb => h a b ha hb⟩

/-- An operation that never panics. -/
theorem noPanic_binOp {α : Type} {get : Inputs → String → Result α} {op : α → α → Result Value}
    (hg : ∀ name, NoPanic (get inputs name)) (ho : ∀ a b, NoPanic (op a b)) :
    NoPanic (binOp S get op inputs) := (noPanic_binOp_iff hg).2 fun a b _ _ => ho a b

theorem noPanic_unOp {α : Type} {get : Inputs → String → Result α} {op : α → Result Value}
    (hg : ∀ name, NoPanic (get inputs name)) (ho : ∀ a, NoPanic (op a)) :
    NoPanic (unOp S get op inputs) := (noPanic_unOp_iff hg).2 fun a _ => ho a

theorem noPanic_checked_iff (text : String) (n : Int) : NoPanic (checked text n) ↔ InRange n := by
  unfold checked
  split_ifs with h
  · exact iff_of_true (noPanic_pure _) h
  · exact iff_of_false (fun hn => hn _ rfl) h

/-- The only quotient out of range is that of the least integer by `-1`. -/
theorem inRange_tdiv_iff {a b : Int} (ha : InRange a) (hb : b ≠ 0) :
    InRange (a.tdiv b) ↔ ¬ (a = -2 ^ 63 ∧ b = -1) := by
  have habs : (a.tdiv b).natAbs = a.natAbs / b.natAbs := Int.natAbs_tdiv a b
  unfold InRange at ha ⊢
  by_cases h1 : b = 1
  · subst h1
    rw [Int.tdiv_one]
    omega
  · by_cases h2 : b = -1
    · subst h2
      rw [Int.tdiv_neg, Int.tdiv_one]
      omega
    · have hle : a.natAbs / b.natAbs ≤ a.natAbs / 2 := Nat.div_le_div_left (by omega) (by decide)
      omega

theorem noPanic_divide_iff {a b : Int} (ha : InRange a) :
    NoPanic (divide a b) ↔ b ≠ 0 ∧ ¬ (a = -2 ^ 63 ∧ b = -1) := by
  unfold divide
  split_ifs with hb
  · exact iff_of_false (fun hn => hn _ rfl) fun h => h.1 hb
  · rw [noPanic_checked_iff, inRange_tdiv_iff ha hb]
    exact ⟨fun h => ⟨hb, h⟩, fun h => h.2⟩

theorem noPanic_remainder_iff {a b : Int} (ha : InRange a) :
    NoPanic (remainder a b) ↔ b ≠ 0 ∧ ¬ (a = -2 ^ 63 ∧ b = -1) := by
  unfold remainder
  split_ifs with hb hr
  · exact iff_of_false (fun hn => hn _ rfl) fun h => h.1 hb
  · exact iff_of_true (noPanic_pure _) ⟨hb, (inRange_tdiv_iff ha hb).1 hr⟩
  · exact iff_of_false (fun hn => hn _ rfl) fun h => hr ((inRange_tdiv_iff ha hb).2 h.2)

theorem noPanic_collect_iff (n : Nat) (items : List Int) :
    NoPanic (collect M n items) ↔ n < 2 ^ 60 ∧ M.allocates n = true := by
  unfold collect
  split_ifs with hn ha
  · exact iff_of_false (fun h => h _ rfl) fun h => absurd h.1 (Nat.not_lt.2 hn)
  · exact iff_of_true (noPanic_pure _) ⟨Nat.lt_of_not_le hn, ha⟩
  · exact iff_of_false (fun h => h _ rfl) fun h => ha h.2

theorem noPanic_durationFromSecs_iff (x : Float) :
    NoPanic (durationFromSecs x) ↔ ¬ x < 0 ∧ x < 18446744073709551616 := by
  unfold durationFromSecs
  split_ifs with h h'
  · exact iff_of_false (fun hn => hn _ rfl) fun hx => hx.1 h
  · exact iff_of_true (noPanic_pure _) ⟨h, h'⟩
  · exact iff_of_false (fun hn => hn _ rfl) fun hx => h' hx.2

/-! ## The condition -/

variable (S M inputs)

/-- What holds of the integers `a` and `b`, if both are given. -/
def OnInts (P : Int → Int → Prop) : Prop :=
  ∀ a b, int S inputs "a" = .ok a → int S inputs "b" = .ok b → P a b

/-- The range has a step, and so many integers that there is room for them. -/
def RangeSafe : Prop :=
  ∀ start stop step, int S inputs "start" = .ok start → int S inputs "stop" = .ok stop →
    extractOptionalInt S inputs "step" = .ok step → 0 ≤ step.getD 1 →
      step.getD 1 ≠ 0 ∧ rangeLength start stop (step.getD 1) < 2 ^ 60 ∧
        M.allocates (rangeLength start stop (step.getD 1)) = true

/-- The arithmetic of the builtin is defined at its inputs. -/
def Builtin.Safe : Builtin → Prop
  | iadd => OnInts S inputs fun a b => InRange (a + b)
  | isub => OnInts S inputs fun a b => InRange (a - b)
  | imul => OnInts S inputs fun a b => InRange (a * b)
  | idivS | imodS => OnInts S inputs fun a b => b ≠ 0 ∧ ¬ (a = -2 ^ 63 ∧ b = -1)
  | ineg | iabs => ∀ a, int S inputs "a" = .ok a → a ≠ -2 ^ 63
  | range => RangeSafe S M inputs
  | sleep => ∀ x, float S inputs "delay_seconds" = .ok x → ¬ x < 0 ∧ x < 18446744073709551616
  | randInt => OnInts S inputs fun a b => a ≤ b
  | _ => True

variable {S M inputs}

theorem noPanic_outputCollect_iff (n : Nat) (items : List Int) :
    NoPanic (collect M n items >>= outputValue S) ↔ n < 2 ^ 60 ∧ M.allocates n = true := by
  simp only [noPanic_bind_iff, noPanic_outputValue, implies_true, and_true, noPanic_collect_iff]

theorem noPanic_range_iff : NoPanic (rangeImpl S M inputs) ↔ RangeSafe S M inputs := by
  unfold rangeImpl RangeSafe
  simp only [noPanic_bind_iff, noPanic_int, noPanic_extractOptionalInt, true_and]
  have hstep : ∀ start stop step,
      NoPanic (match step with
        | some step =>
          if step < 0 then .error (.miette "out of range integral type conversion attempted")
          else if step = 0 then .error (.panic "assertion failed: step != 0")
          else collect M (rangeLength start stop step) (rangeItems start stop step) >>= outputValue S
        | none => collect M (rangeLength start stop 1) (rangeItems start stop 1) >>= outputValue S) ↔
      (0 ≤ step.getD 1 → step.getD 1 ≠ 0 ∧ rangeLength start stop (step.getD 1) < 2 ^ 60 ∧
        M.allocates (rangeLength start stop (step.getD 1)) = true) := by
    intro start stop step
    cases step with
    | none =>
      rw [noPanic_outputCollect_iff]
      exact ⟨fun h _ => ⟨by decide, h⟩, fun h => (h (by decide)).2⟩
    | some step =>
      dsimp only [Option.getD_some]
      split_ifs with hneg hzero
      · exact iff_of_true (noPanic_miette _) fun h => absurd hneg (Int.not_lt.2 h)
      · exact iff_of_false (fun h => h _ rfl) fun h => (h (Int.not_lt.1 hneg)).1 hzero
      · rw [noPanic_outputCollect_iff]
        exact ⟨fun h _ => ⟨hzero, h⟩, fun h => (h (Int.not_lt.1 hneg)).2⟩
  constructor
  · exact fun h start stop step hstart hstop hs =>
      (hstep start stop step).1 (h start hstart stop hstop step hs)
  · exact fun h start hstart stop hstop step hs =>
      (hstep start stop step).2 (h start stop step hstart hstop hs)

theorem noPanic_mean : NoPanic (meanImpl S inputs) := by
  refine noPanic_bind_iff.2 ⟨noPanic_extractValue S inputs _ _ _, fun values _ => ?_⟩
  split_ifs
  · exact noPanic_miette _
  · exact noPanic_miette _
  · exact noPanic_outputValue S _

theorem noPanic_sleep_iff : NoPanic (sleepImpl S inputs) ↔ Builtin.sleep.Safe S M inputs := by
  unfold sleepImpl Builtin.Safe
  simp only [noPanic_bind_iff, noPanic_float, true_and, noPanic_durationFromSecs_iff,
    noPanic_outputValue, implies_true, and_true]

theorem noPanic_randInt_iff : NoPanic (randIntImpl S M inputs) ↔ Builtin.randInt.Safe S M inputs := by
  unfold randIntImpl Builtin.Safe OnInts
  simp only [noPanic_bind_iff, noPanic_int, true_and]
  constructor
  · intro h a b ha hb
    by_contra hab
    have hn := h a ha b hb
    rw [if_neg hab] at hn
    exact hn _ rfl
  · intro h a ha b hb
    rw [if_pos (h a b ha hb)]
    exact noPanic_outputValue S _

theorem noPanic_ints_iff {op : Int → Int → Result Value} {P : Int → Int → Prop}
    (h : ∀ a b, InRange a → InRange b → (NoPanic (op a b) ↔ P a b)) :
    NoPanic (binOp S (int S) op inputs) ↔ OnInts S inputs P := by
  rw [noPanic_binOp_iff (noPanic_int S inputs)]
  unfold OnInts
  constructor
  · exact fun hn a b ha hb => (h a b (inRange_of_int ha) (inRange_of_int hb)).1 (hn a b ha hb)
  · exact fun hn a b ha hb => (h a b (inRange_of_int ha) (inRange_of_int hb)).2 (hn a b ha hb)

/-- The one integer without a counterpart of the other sign. -/
theorem noPanic_negate_iff {op : Int → Int} (h : ∀ a, InRange a → (InRange (op a) ↔ a ≠ -2 ^ 63)) :
    NoPanic (unOp S (int S) (fun a => checked "negate" (op a)) inputs) ↔
      ∀ a, int S inputs "a" = .ok a → a ≠ -2 ^ 63 := by
  rw [noPanic_unOp_iff (noPanic_int S inputs)]
  refine forall₂_congr fun a ha => ?_
  rw [noPanic_checked_iff, h a (inRange_of_int ha)]

theorem noPanic_run_iff (b : Builtin) : NoPanic (b.run S M inputs) ↔ b.Safe S M inputs := by
  have hint := noPanic_int S inputs
  have hfloat := noPanic_float S inputs
  have hvalue := noPanic_value S inputs
  cases b with
  | iadd => exact noPanic_ints_iff fun a b _ _ => noPanic_checked_iff _ _
  | isub => exact noPanic_ints_iff fun a b _ _ => noPanic_checked_iff _ _
  | imul => exact noPanic_ints_iff fun a b _ _ => noPanic_checked_iff _ _
  | idivS => exact noPanic_ints_iff fun a b ha _ => noPanic_divide_iff ha
  | imodS => exact noPanic_ints_iff fun a b ha _ => noPanic_remainder_iff ha
  | ineg =>
    refine noPanic_negate_iff fun a ha => ?_
    unfold InRange at ha ⊢
    omega
  | iabs =>
    refine noPanic_negate_iff fun a ha => ?_
    unfold InRange at ha ⊢
    omega
  | range => exact noPanic_range_iff
  | sleep => exact noPanic_sleep_iff
  | randInt => exact noPanic_randInt_iff
  | mean => exact iff_of_true noPanic_mean trivial
  | untuple =>
    refine iff_of_true (noPanic_bind_iff.2 ⟨noPanic_extractValue S inputs _ _ _, fun v _ => ?_⟩) trivial
    exact noPanic_pure _
  | conjugate =>
    refine iff_of_true (noPanic_bind_iff.2 ⟨noPanic_extractValue S inputs _ _ _, fun z _ => ?_⟩) trivial
    exact noPanic_outputValue S _
  | str =>
    refine iff_of_true (noPanic_bind_iff.2 ⟨hvalue "value", fun v _ => ?_⟩) trivial
    exact noPanic_outputValue S _
  | strEq =>
    refine iff_of_true ?_ trivial
    exact noPanic_binOp (noPanic_extractValue S inputs _ _) fun _ _ => noPanic_pure _
  | eq | ne | tuple => exact iff_of_true (noPanic_binOp hvalue fun _ _ => noPanic_pure _) trivial
  | itostringS => exact iff_of_true (noPanic_unOp hint fun _ => noPanic_pure _) trivial
  | fneg | fabs | ffloor | fceil | ftostring =>
    exact iff_of_true (noPanic_unOp hfloat fun _ => noPanic_pure _) trivial
  | feq | fne | flt | fgt | flte | fgte | fmax | fmin | fadd | fsub | fmul | idiv =>
    exact iff_of_true (noPanic_binOp hfloat fun _ _ => noPanic_pure _) trivial
  | ieq | ine | iltS | igtS | ilteS | igteS | imaxS | iminS | iand | ior | ixor =>
    exact iff_of_true (noPanic_binOp hint fun _ _ => noPanic_pure _) trivial

theorem joined_eq_panicked_iff (r : Result Inputs) :
    InMemoryExecutor.joined r = .panicked ↔ ¬ NoPanic r := by
  unfold InMemoryExecutor.joined
  split
  · exact iff_of_true rfl fun h => h _ rfl
  · rename_i hr
    exact iff_of_false nofun fun h => h fun text he => hr text he

/-- A builtin runs without a panic, and leaves the executor that joins it running, exactly when
its arithmetic is defined at its inputs. -/
theorem run_builtin_never_panics_iff (S : ValueSerde) (M : Machine) (taskName : String)
    (inputs : Inputs) :
    (NoPanic (runBuiltin S M taskName inputs) ↔
      ∀ b ∈ Builtin.ofName taskName, b.Safe S M inputs) ∧
    (InMemoryExecutor.joined (runBuiltin S M taskName inputs) ≠ .panicked ↔
      ∀ b ∈ Builtin.ofName taskName, b.Safe S M inputs) := by
  have h : NoPanic (runBuiltin S M taskName inputs) ↔
      ∀ b ∈ Builtin.ofName taskName, b.Safe S M inputs := by
    unfold runBuiltin
    cases Builtin.ofName taskName with
    | none => exact iff_of_true (noPanic_miette _) nofun
    | some b =>
      rw [noPanic_run_iff]
      simp
  exact ⟨h, by rw [Ne, joined_eq_panicked_iff, not_not, h]⟩

/-! ## A division by zero -/

/-- Values of one digit. -/
def digits : ValueSerde where
  fromSlice
    | [b] => if 48 ≤ b ∧ b ≤ 57 then .ok (.int (b.toNat - 48)) else .error "expected value"
    | _ => .error "expected value"
  toVec
    | .int n => [UInt8.ofNat (48 + n.toNat)]
    | _ => []
  display _ := ""
  mismatch expected _ := s!"invalid type, expected {expected}"

def smallMachine : Machine where
  allocates n := n < 2 ^ 32
  random a _ := a
  takesFirst _ _ := true
  displayFloat _ := ""

/-- `7 / 0` ends the task, and with it the loop that joins it. -/
theorem run_builtin_panics :
    let inputs : Inputs := .ofList [("a", [55]), ("b", [48])]
    runBuiltin digits smallMachine "idivide" inputs =
        .error (.panic "attempt to divide by zero") ∧
      InMemoryExecutor.joined (runBuiltin digits smallMachine "idivide" inputs) = .panicked :=
  ⟨rfl, rfl⟩

end Tierkreis
