import Mathlib.Tactic.Linarith
import Tierkreis.Executor.ResourceRequest
import Tierkreis.Lib.StateExcept

/-!
# What a context requests

A context that passes its checks is read again by the batch executors. What the
context states is requested when its quantities are of the form that the second
reader has for them, and its specifications have the fields of theirs.
-/

namespace Tierkreis

open Lib JsonValue

/-! ## The resources of a context -/

def JsonValue.present : Option (JsonValue F64) → Option (JsonValue F64)
  | some .null => none
  | v => v

theorem get?_toFields (c : ExecutionContext) {key : String} (h : key ∈ fieldNames) :
    c.toFields.get? key = c.field key := by
  unfold ExecutionContext.toFields
  rw [HashMap.get?_ofList_filterMap, if_pos h]

section

variable {isAlphabetic : Char → Bool} {name : String} {c : ExecutionContext} {p : ContextPayload}

theorem resolve_eq_ok (h : resolveExecutionContext isAlphabetic name c = .ok p) :
    c.validate isAlphabetic name = .ok () := by
  unfold resolveExecutionContext at h
  cases hv : c.validate isAlphabetic name with
  | error e =>
    rw [hv] at h
    cases h
  | ok => rfl

theorem exists_resolve (h : c.validate isAlphabetic name = .ok ()) :
    ∃ p, resolveExecutionContext isAlphabetic name c = .ok p := by
  unfold resolveExecutionContext
  rw [h]
  exact ⟨_, rfl⟩

/-- The fields that stay among the resources. -/
theorem get?_resources (h : resolveExecutionContext isAlphabetic name c = .ok p) {key : String}
    (hkey : key ∈ fieldNames.filter (· ∉ ["executor", "env", "native"])) :
    p.resources.get? key = present (c.field key) := by
  obtain ⟨hkey, hne⟩ := List.mem_filter.1 hkey
  simp only [decide_eq_true_eq, List.mem_cons, List.not_mem_nil, or_false, not_or] at hne
  obtain ⟨hexecutor, henv, hnative⟩ := hne
  unfold resolveExecutionContext at h
  rw [resolve_eq_ok h] at h
  cases h
  have hfields : ((((c.toFields.erase "executor").erase "env").erase "native").filterMap
      fun _ v => if v.isNull then none else some v).get? key = present (c.field key) := by
    rw [HashMap.get?_filterMap, HashMap.get?_erase, if_neg hnative, HashMap.get?_erase,
      if_neg henv, HashMap.get?_erase, if_neg hexecutor, get?_toFields c hkey]
    cases c.field key with
    | none => rfl
    | some v => cases v <;> rfl
  dsimp only
  split
  · exact hfields
  · rw [HashMap.get?_insert_ne _ _ hnative, hfields]

end

/-! ## Reading fields back -/

@[simp] theorem optional_toU32 (n : Option UInt32) :
    optional toU32 (present (n.map fun n => .int n.toNat)) = some (n.map UInt32.toNat) := by
  cases n with
  | none => rfl
  | some n =>
    have h : 0 ≤ (n.toNat : Int) ∧ (n.toNat : Int) < 2 ^ 32 := by
      have := n.toNat_lt
      omega
    show (toU32 (.int n.toNat)).map some = _
    rw [toU32, if_pos h]
    rfl

@[simp] theorem optional_toStr (s : Option String) :
    optional toStr (present (s.map .str)) = some s := by
  cases s <;> rfl

theorem mapM_toStr (items : List String) : (items.map JsonValue.str).mapM toStr = some items := by
  induction items with
  | nil => rfl
  | cons s items ih => simp [ih, toStr]

@[simp] theorem defaulted_toList (items : List String) :
    defaulted (toList toStr) [] (present (arrUnlessEmpty items)) = some items := by
  cases items with
  | nil => rfl
  | cons s items => exact mapM_toStr (s :: items)

/-- A map is read back entry by entry. -/
theorem defaulted_toMap {α β : Type} {f : α → JsonValue F64} {read : JsonValue F64 → Option β}
    {g : α → β}
    (h : ∀ x, read (f x) = some (g x)) (m : HashMap String α) :
    defaulted (toMap read) ∅ (present (objUnlessEmpty m f)) =
      some (HashMap.ofList (m.toList.map fun e => (e.1, g e.2))) := by
  have hall : ∀ l : List (String × α), (l.map fun e => (e.1, f e.2)).mapM
      (fun e => (read e.2).map fun v => (e.1, v)) = some (l.map fun e => (e.1, g e.2)) := by
    intro l
    induction l with
    | nil => rfl
    | cons e l ih => simp [h, ih]
  unfold objUnlessEmpty
  cases hm : m.toList with
  | nil => rfl
  | cons e l =>
    rw [if_neg (by simp)]
    show Option.map HashMap.ofList _ = _
    rw [hall]
    rfl

theorem read_ofOption (s : Option String) : toOption toStr (ofOption .str s) = some s := by
  cases s <;> rfl

/-- The flags of a context are a list of texts. -/
theorem insertFlags_ok (m : HashMap String (List String)) (args : HashMap String (Option String)) :
    ∃ args', insertFlags args ((HashMap.ofList (m.toList.map fun e =>
      (e.1, JsonValue.arr (e.2.map .str)))).get? "flags") = .ok args' := by
  cases hf : (HashMap.ofList (m.toList.map fun e =>
      (e.1, JsonValue.arr (e.2.map .str)))).get? "flags" with
  | none => exact ⟨args, rfl⟩
  | some flags =>
    obtain ⟨e, -, he⟩ := List.mem_map.1 (HashMap.mem_of_get?_ofList hf)
    have hflags : flags.toList toStr = some e.2 := by
      rw [← (Prod.mk.inj he).2]
      exact mapM_toStr e.2
    exact ⟨_, by rw [insertFlags, hflags]⟩

section

variable {isAlphabetic : Char → Bool} {name : String} {c : ExecutionContext} {p : ContextPayload}

theorem read_resources (h : resolveExecutionContext isAlphabetic name c = .ok p) :
    RawResourceRequest.read p.resources = (do
      let cpu ← optional toF64 (present (c.cpu.map Quantity.toValue))
      let memory ← optional toStr (present (c.memory.map Quantity.toValue))
      let user ← optional toUserSpec (present c.user)
      let mpi ← optional toMpiSpec (present c.mpi)
      let container ← optional toContainerSpec (present c.container)
      some {
        nodes := c.nodes.map UInt32.toNat, cpu := cpu, memory := memory,
        gpu := c.gpu.map UInt32.toNat, walltime := c.walltime, queue := c.queue,
        account := c.account, modules := c.modules, gres := c.gres, qpus := c.qpus,
        user := user, mpi := mpi, container := container,
        extraSchedulerArgs := .ofList (c.extraSchedulerArgs.toList.map fun e => (e.1, e.2)),
        extras := .ofList (c.extras.toList.map fun e => (e.1, .arr (e.2.map .str))) }) := by
  have hget : ∀ key ∈ fieldNames.filter (· ∉ ["executor", "env", "native"]),
      p.resources.get? key = present (c.field key) := fun key => get?_resources h
  unfold RawResourceRequest.read
  rw [hget "nodes" (by decide), hget "cpu" (by decide), hget "memory" (by decide),
    hget "gpu" (by decide), hget "walltime" (by decide), hget "queue" (by decide),
    hget "account" (by decide), hget "modules" (by decide), hget "gres" (by decide),
    hget "qpus" (by decide), hget "user" (by decide), hget "mpi" (by decide),
    hget "container" (by decide), hget "extra_scheduler_args" (by decide),
    hget "extras" (by decide)]
  simp only [ExecutionContext.field, optional_toU32, optional_toStr, defaulted_toList,
    defaulted_toMap read_ofOption, defaulted_toMap fun _ => rfl, Option.bind_eq_bind,
    Option.bind_some]

/-- What a request that is made from the resources depends on. -/
structure ReadsAs (c : ExecutionContext) (spec : HPCResourceSpec) : Prop where
  nodes : spec.nodes = (c.nodes.map UInt32.toNat).getD 0
  cpu : ∃ cpu, optional toF64 (present (c.cpu.map Quantity.toValue)) = some cpu ∧
    spec.coresPerNode = cpu.map F64.toU32
  memory : ∃ memory, optional toStr (present (c.memory.map Quantity.toValue)) = some memory ∧
    ∀ text ∈ memory, ∃ gib, readGib text = .ok gib ∧ spec.memoryPerNodeGb = some gib
  user : (optional toUserSpec (present c.user)).isSome
  mpi : (optional toMpiSpec (present c.mpi)).isSome
  container : (optional toContainerSpec (present c.container)).isSome

theorem readsAs_of_tryFrom (h : resolveExecutionContext isAlphabetic name c = .ok p)
    {r : ResourceRequest} (hr : ResourceRequest.tryFrom p.resources = .ok r) :
    ReadsAs c r.resources := by
  unfold ResourceRequest.tryFrom at hr
  rw [read_resources h] at hr
  split at hr
  · cases hr
  · rename_i raw hraw
    simp only [Option.bind_eq_bind, Option.bind_eq_some_iff] at hraw
    obtain ⟨cpu, hcpu, memory, hmemory, user, huser, mpi, hmpi, container, hcontainer, hraw⟩ := hraw
    cases hraw
    obtain ⟨gib, hgib, hr⟩ := StateExcept.except_bind_eq_ok.1 hr
    obtain ⟨args, -, hr⟩ := StateExcept.except_bind_eq_ok.1 hr
    cases hr
    refine ⟨rfl, ⟨cpu, hcpu, rfl⟩, ⟨memory, hmemory, ?_⟩, ?_, ?_, ?_⟩
    · intro text htext
      cases htext
      rw [readMemory] at hgib
      cases hread : readGib text with
      | error e =>
        rw [hread] at hgib
        cases hgib
      | ok n =>
        rw [hread] at hgib
        cases hgib
        exact ⟨n, rfl, rfl⟩
    · rw [huser]
      rfl
    · rw [hmpi]
      rfl
    · rw [hcontainer]
      rfl

theorem exists_tryFrom (h : resolveExecutionContext isAlphabetic name c = .ok p)
    {cpu : Option F64} {memory : Option String}
    (hcpu : optional toF64 (present (c.cpu.map Quantity.toValue)) = some cpu)
    (hmemory : optional toStr (present (c.memory.map Quantity.toValue)) = some memory)
    (hgib : ∀ text ∈ memory, ∃ gib, readGib text = .ok gib)
    (huser : (optional toUserSpec (present c.user)).isSome)
    (hmpi : (optional toMpiSpec (present c.mpi)).isSome)
    (hcontainer : (optional toContainerSpec (present c.container)).isSome) :
    ∃ r, ResourceRequest.tryFrom p.resources = .ok r := by
  obtain ⟨user, huser⟩ := Option.isSome_iff_exists.1 huser
  obtain ⟨mpi, hmpi⟩ := Option.isSome_iff_exists.1 hmpi
  obtain ⟨container, hcontainer⟩ := Option.isSome_iff_exists.1 hcontainer
  obtain ⟨args, hargs⟩ :=
    insertFlags_ok c.extras (.ofList (c.extraSchedulerArgs.toList.map fun e => (e.1, e.2)))
  unfold ResourceRequest.tryFrom
  rw [read_resources h, hcpu, hmemory, huser, hmpi, hcontainer]
  simp only [Option.bind_eq_bind, Option.bind_some, hargs]
  cases memory with
  | none => exact ⟨_, rfl⟩
  | some text =>
    obtain ⟨gib, hgib⟩ := hgib text rfl
    simp only [readMemory, hgib]
    exact ⟨_, rfl⟩

end

/-! ## Specifications -/

namespace JsonValue

def IsText : JsonValue F64 → Prop
  | .str _ => True
  | _ => False

def IsTextOrNull : JsonValue F64 → Prop
  | .str _ => True
  | .null => True
  | _ => False

/-- A table with the fields of a user specification, or the list of these. -/
def FitsUser : JsonValue F64 → Prop
  | .obj entries => ∀ v ∈ entry entries "mail", v.IsTextOrNull
  | .arr [mail] => mail.IsTextOrNull
  | _ => False

def FitsMpi : JsonValue F64 → Prop
  | .obj entries =>
    (∀ v ∈ entry entries "proc", v.IsTextOrNull) ∧
      ∀ v ∈ entry entries "max_proc_per_node", v.IsTextOrNull
  | .arr [proc, maxProcPerNode] => proc.IsTextOrNull ∧ maxProcPerNode.IsTextOrNull
  | _ => False

def FitsArgs : JsonValue F64 → Prop
  | .obj entries => ∀ e ∈ entries, e.2.IsTextOrNull
  | _ => False

def FitsContainer : JsonValue F64 → Prop
  | .obj entries =>
    (∃ v ∈ entry entries "image", v.IsText) ∧ (∃ v ∈ entry entries "engine", v.IsText) ∧
      (∀ v ∈ entry entries "name", v.IsTextOrNull) ∧
      (∃ v ∈ entry entries "extra_args", v.FitsArgs) ∧
      ∀ v ∈ entry entries "env_file", v.IsTextOrNull
  | .arr [image, engine, name, extraArgs, envFile] =>
    image.IsText ∧ engine.IsText ∧ name.IsTextOrNull ∧ extraArgs.FitsArgs ∧ envFile.IsTextOrNull
  | _ => False

theorem bind_isSome {α β : Type} {x : Option α} {f : α → Option β} {P : Prop}
    (h : ∀ a, (f a).isSome ↔ P) : (x >>= f).isSome ↔ x.isSome ∧ P := by
  cases x with
  | none => simp
  | some a => simpa using h a

theorem some_isSome {α : Type} (a : α) : (some a).isSome ↔ True := by simp

theorem toStr_isSome (v : JsonValue F64) : v.toStr.isSome ↔ v.IsText := by
  cases v <;> simp [toStr, IsText]

theorem toOption_isSome (v : JsonValue F64) : (v.toOption toStr).isSome ↔ v.IsTextOrNull := by
  cases v <;> simp [toOption, toStr, IsTextOrNull]

theorem optional_isSome (v : Option (JsonValue F64)) :
    (optional toStr v).isSome ↔ ∀ x ∈ v, x.IsTextOrNull := by
  cases v with
  | none => simp [JsonValue.optional]
  | some v => simpa [JsonValue.optional] using toOption_isSome v

theorem required_isSome (v : Option (JsonValue F64)) (f : JsonValue F64 → Option α) :
    (v.bind f).isSome ↔ ∃ x ∈ v, (f x).isSome := by
  cases v <;> simp

theorem toMap_isSome (v : JsonValue F64) : (v.toMap (toOption toStr)).isSome ↔ v.FitsArgs := by
  cases v with
  | obj entries =>
    show (Option.map _ _).isSome ↔ _
    rw [Option.isSome_map]
    show _ ↔ ∀ e ∈ entries, e.2.IsTextOrNull
    induction entries with
    | nil => simp
    | cons e entries ih =>
      rw [List.mapM_cons, List.forall_mem_cons, ← ih, ← toOption_isSome]
      simp only [Option.pure_def]
      rw [bind_isSome fun _ => bind_isSome fun _ => some_isSome _, Option.isSome_map, and_true]
  | _ => simp [toMap, FitsArgs]

theorem toUserSpec_isSome (v : JsonValue F64) : v.toUserSpec.isSome ↔ v.FitsUser := by
  fun_cases toUserSpec v with
  | case1 entries => rw [bind_isSome fun _ => some_isSome _, optional_isSome, and_true]; rfl
  | case2 mail => rw [bind_isSome fun _ => some_isSome _, toOption_isSome, and_true]; rfl
  | case3 =>
    rename_i hobj harr
    unfold FitsUser
    split
    · exact absurd rfl (hobj _)
    · exact absurd rfl (harr _)
    · simp

theorem toMpiSpec_isSome (v : JsonValue F64) : v.toMpiSpec.isSome ↔ v.FitsMpi := by
  fun_cases toMpiSpec v with
  | case1 entries =>
    rw [bind_isSome fun _ => bind_isSome fun _ => some_isSome _, optional_isSome, optional_isSome,
      and_true]
    rfl
  | case2 proc maxProcPerNode =>
    rw [bind_isSome fun _ => bind_isSome fun _ => some_isSome _, toOption_isSome, toOption_isSome,
      and_true]
    rfl
  | case3 =>
    rename_i hobj harr
    unfold FitsMpi
    split
    · exact absurd rfl (hobj _)
    · exact absurd rfl (harr _ _)
    · simp

theorem toContainerSpec_isSome (v : JsonValue F64) : v.toContainerSpec.isSome ↔ v.FitsContainer := by
  fun_cases toContainerSpec v with
  | case1 entries =>
    rw [bind_isSome fun _ => bind_isSome fun _ => bind_isSome fun _ => bind_isSome fun _ =>
      bind_isSome fun _ => some_isSome _]
    simp only [required_isSome, toStr_isSome, optional_isSome, toMap_isSome, and_true]
    rfl
  | case2 image engine name extraArgs envFile =>
    rw [bind_isSome fun _ => bind_isSome fun _ => bind_isSome fun _ => bind_isSome fun _ =>
      bind_isSome fun _ => some_isSome _]
    simp only [toStr_isSome, toOption_isSome, toMap_isSome, and_true]
    rfl
  | case3 =>
    rename_i hobj harr
    unfold FitsContainer
    split
    · exact absurd rfl (hobj _)
    · exact absurd rfl (harr _ _ _ _ _)
    · simp

theorem optional_present_isSome {α : Type} {f : JsonValue F64 → Option α} {P : JsonValue F64 → Prop}
    (h : ∀ v, (f v).isSome ↔ P v) (v : Option (JsonValue F64)) :
    (optional f (present v)).isSome ↔ ∀ x ∈ v, x = .null ∨ P x := by
  cases v with
  | none => simp [present, JsonValue.optional]
  | some v => cases v <;> simp [present, JsonValue.optional, toOption, h]

end JsonValue

/-! ## Quantities -/

namespace Quantity

/-- A number of cores that the second reader takes as it is. -/
def IsWholeCores : Quantity → Prop
  | .integer _ => True
  | .float x => ∃ n : Nat, n ≤ 2 ^ 32 - 1 ∧ x = .finite n
  | .text _ => False

/-- Digits, with an optional plus sign before them and `Gi` behind them. -/
def IsWholeGib : Quantity → Prop
  | .text s => ∃ cs ds, s.toList = cs ++ ['G', 'i'] ∧ (cs = ds ∨ cs = '+' :: ds) ∧ ds ≠ [] ∧
      (∀ c ∈ ds, c.isDigit = true) ∧ F64.natOf ds ≤ 2 ^ 32 - 1
  | _ => False

variable {q : Quantity} {x : F64}

theorem value_eq_ok (h : q.value = .ok x) :
    q.stated = .ok x ∧ x.isFinite = true ∧ x.lt 0 = false := by
  unfold value at h
  obtain ⟨y, hy, h⟩ := StateExcept.except_bind_eq_ok.1 h
  split at h
  · cases h
  · rename_i hc
    cases h
    exact ⟨hy, by simpa using hc⟩

theorem value_integer {n : UInt64} (h : (integer n).value = .ok x) : n.toNat < 2 ^ 32 := by
  have hs := (value_eq_ok h).1
  rw [stated] at hs
  split at hs
  · assumption
  · cases hs

theorem value_float {y : F64} (h : (float y).value = .ok x) : x = y :=
  (Except.ok.inj (value_eq_ok h).1).symm

/-- Whole numbers survive the clamp. -/
theorem toU32_natCast {n : Nat} (h : n ≤ 2 ^ 32 - 1) : (F64.finite n).toU32 = n := by
  have hle : (n : Rat) ≤ 2 ^ 32 - 1 := by
    have : (n : Rat) ≤ (2 ^ 32 - 1 : Nat) := by exact_mod_cast h
    norm_num at this ⊢
    exact this
  show ⌊max 0 (min (n : Rat) (2 ^ 32 - 1))⌋₊ = n
  rw [min_eq_left hle, max_eq_right (Nat.cast_nonneg n), Nat.floor_natCast]

/-- Nothing is lost only where there is nothing to lose. -/
theorem of_le_toU32 {a : Rat} (ha : 0 < a) (h : a ≤ ((F64.finite a).toU32 : Rat)) :
    ∃ n : Nat, n ≤ 2 ^ 32 - 1 ∧ a = n := by
  have hclamp : 0 ≤ max 0 (min a (2 ^ 32 - 1)) := le_max_left _ _
  have hle : ((F64.finite a).toU32 : Rat) ≤ max 0 (min a (2 ^ 32 - 1)) := Nat.floor_le hclamp
  have hpos : (0 : Rat) ≤ min a (2 ^ 32 - 1) := le_min ha.le (by norm_num)
  rw [max_eq_right hpos] at hle
  have heq : a = ((F64.finite a).toU32 : Rat) := le_antisymm h (hle.trans (min_le_left _ _))
  refine ⟨(F64.finite a).toU32, ?_, heq⟩
  have hmax : ((F64.finite a).toU32 : Rat) ≤ (2 ^ 32 - 1 : Nat) := by
    have := hle.trans (min_le_right _ _)
    norm_num at this ⊢
    exact this
  exact_mod_cast hmax

end Quantity

open Quantity

theorem cores_iff {q : Quantity} {x : F64} (hv : q.value = .ok x) (hpos : x.le 0 = false) :
    (∃ cpu, optional toF64 (present (some q.toValue)) = some cpu ∧
      ∀ a ∈ q.amount, ∃ n ∈ cpu.map F64.toU32, a ≤ (n : Rat)) ↔ q.IsWholeCores := by
  cases q with
  | integer n =>
    have hn := value_integer hv
    have hround : F64.round ((n.toNat : Int) : Rat) = .finite n.toNat := by
      rw [← F64.ofNat_eq_finite (Nat.lt_trans hn (by norm_num))]
      rfl
    refine ⟨fun _ => trivial, fun _ => ⟨some (F64.round ((n.toNat : Int) : Rat)), rfl, ?_⟩⟩
    intro a ha
    cases ha
    exact ⟨_, rfl, by rw [hround, toU32_natCast (by omega)]⟩
  | float y =>
    obtain rfl := value_float hv
    have hfin := (value_eq_ok hv).2.1
    cases x with
    | finite a =>
      have ha : 0 < a := by simpa [F64.le] using hpos
      constructor
      · rintro ⟨cpu, hcpu, hle⟩
        cases hcpu
        obtain ⟨m, hm, hle⟩ := hle a rfl
        cases hm
        obtain ⟨n, hn, hna⟩ := of_le_toU32 ha hle
        exact ⟨n, hn, by rw [hna]⟩
      · rintro ⟨n, hn, hna⟩
        cases hna
        refine ⟨some (.finite n), rfl, fun a ha => ?_⟩
        cases ha
        exact ⟨_, rfl, by rw [toU32_natCast hn]⟩
    | inf => cases hfin
    | nan => cases hfin
  | text s =>
    constructor
    · rintro ⟨cpu, hcpu, -⟩
      cases hcpu
    · exact False.elim

/-! ## Memory -/

namespace Quantity

theorem trim_eq_self {cs : List Char} (h : ∀ c ∈ cs, isWhitespace c = false) : trim cs = cs := by
  have hdrop : ∀ l : List Char, (∀ c ∈ l, isWhitespace c = false) → l.dropWhile isWhitespace = l := by
    intro l hl
    cases l with
    | nil => rfl
    | cons c l => rw [List.dropWhile_cons_of_neg (by simp [hl c (.head _)])]
  rw [trim, hdrop cs h, hdrop cs.reverse fun c hc => h c (List.mem_reverse.1 hc), List.reverse_reverse]

theorem isWhitespace_digit {c : Char} (h : c.isDigit = true) : isWhitespace c = false := by
  have hc : 48 ≤ c.toNat ∧ c.toNat ≤ 57 := by
    simpa [Char.isDigit, UInt32.le_iff_toNat_le] using h
  simp only [isWhitespace, List.mem_cons, List.not_mem_nil, or_false, Bool.or_eq_false_iff,
    Bool.and_eq_false_iff, decide_eq_false_iff_not]
  omega

theorem suffix_gib {u : Char} {cs : List Char} (h : [u, 'i'] <:+ cs ++ ['G', 'i']) : u = 'G' := by
  have hgib : ['G', 'i'] <:+ cs ++ ['G', 'i'] := List.suffix_append cs _
  have heq : [u, 'i'] = ['G', 'i'] :=
    (List.suffix_of_suffix_length_le h hgib (Nat.le_refl 2)).eq_of_length rfl
  exact (List.cons.inj heq).1

theorem splitSuffix_gib (cs : List Char) : splitSuffix (cs ++ ['G', 'i']) = (cs, 1073741824) := by
  have hk : ¬ "Ki".toList <:+ cs ++ ['G', 'i'] := fun h => absurd (suffix_gib h) (by decide)
  have hm : ¬ "Mi".toList <:+ cs ++ ['G', 'i'] := fun h => absurd (suffix_gib h) (by decide)
  have hg : "Gi".toList <:+ cs ++ ['G', 'i'] := List.suffix_append cs _
  have hlen : (cs ++ ['G', 'i']).length - "Gi".length = cs.length := by
    rw [List.length_append]
    rfl
  unfold splitSuffix suffixes
  simp only [List.findSome?_cons, if_neg hk, if_neg hm, if_pos hg, hlen, List.take_left',
    Option.getD_some]

end Quantity

theorem readGib_eq_ok_iff {text : String} {n : Nat} :
    readGib text = .ok n ↔
      ∃ cs ds, text.toList = cs ++ ['G', 'i'] ∧ (cs = ds ∨ cs = '+' :: ds) ∧ ds ≠ [] ∧
        (∀ c ∈ ds, c.isDigit = true) ∧ F64.natOf ds = n ∧ n ≤ 2 ^ 32 - 1 := by
  have htake : ∀ cs : List Char, text.toList = cs ++ ['G', 'i'] →
      text.toList.take (text.length - 2) = cs := by
    intro cs hcs
    have hlen : text.length - 2 = cs.length := by
      rw [← String.length_toList, hcs, List.length_append]
      rfl
    rw [hlen, hcs, List.take_left' rfl]
  unfold readGib
  constructor
  · intro h
    split at h
    · rename_i hsuffix
      obtain ⟨cs, hcs⟩ := hsuffix
      rw [htake cs hcs.symm] at h
      split at h
      · rename_i gib hgib
        cases h
        obtain ⟨ds, hds, hne, hd, hn, hle⟩ := Decimal.parseUnsigned_eq_ok_iff.1 hgib
        exact ⟨cs, ds, hcs.symm, hds, hne, hd, hn, hle⟩
      · cases h
    · cases h
  · rintro ⟨cs, ds, htext, hcs, hne, hd, hn, hle⟩
    have hparse : Decimal.parseUnsigned (2 ^ 32 - 1) cs = .ok n :=
      Decimal.parseUnsigned_eq_ok_iff.2 ⟨ds, hcs, hne, hd, hn, hle⟩
    rw [if_pos ⟨cs, htext.symm⟩, htake cs htext, hparse]

/-- The amount of what is read is stated exactly. -/
theorem amount_gib {text : String} {n : Nat} (h : readGib text = .ok n) :
    (Quantity.text text).amount = some ((n : Rat) * 1073741824) := by
  obtain ⟨cs, ds, htext, hcs, hne, hd, hn, -⟩ := readGib_eq_ok_iff.1 h
  have hws : ∀ c ∈ cs, isWhitespace c = false := by
    intro c hc
    rcases hcs with rfl | rfl
    · exact isWhitespace_digit (hd c hc)
    · rcases List.mem_cons.1 hc with rfl | hc
      · rfl
      · exact isWhitespace_digit (hd c hc)
  have htrim : trim text.toList = cs ++ ['G', 'i'] := by
    rw [htext, trim_eq_self]
    intro c hc
    rcases List.mem_append.1 hc with hc | hc
    · exact hws c hc
    · rcases List.mem_pair.1 hc with rfl | rfl
      · rfl
      · rfl
  show ((F64.exactValue (trim (splitSuffix (trim text.toList)).1)).map
    (· * (splitSuffix (trim text.toList)).2)) = _
  rw [htrim, splitSuffix_gib, trim_eq_self hws, F64.exactValue_digits hne hd hcs, hn]
  rfl

/-- Only texts have a unit. -/
theorem text_of_hasUnit {isAlphabetic : Char → Bool} {q : Quantity}
    (h : q.hasUnit isAlphabetic = true) : ∃ text, q = .text text := by
  cases q with
  | text s => exact ⟨s, rfl⟩
  | _ => cases h

theorem isWholeGib_iff {text : String} :
    (Quantity.text text).IsWholeGib ↔ ∃ n, readGib text = .ok n := by
  constructor
  · rintro ⟨cs, ds, htext, hcs, hne, hd, hle⟩
    exact ⟨_, readGib_eq_ok_iff.2 ⟨cs, ds, htext, hcs, hne, hd, rfl, hle⟩⟩
  · rintro ⟨n, hn⟩
    obtain ⟨cs, ds, htext, hcs, hne, hd, rfl, hle⟩ := readGib_eq_ok_iff.1 hn
    exact ⟨cs, ds, htext, hcs, hne, hd, hle⟩

/-! ## Checks -/

theorem of_checkField {α : Type} {field : Option α} {check : α → Except String Unit} {x : α}
    (h : checkField field check = .ok ()) (hx : x ∈ field) : check x = .ok () := by
  cases hx
  exact h

theorem checkCpu_eq_ok {name : String} {q : Quantity} (h : checkCpu name q = .ok ()) :
    ∃ x, q.value = .ok x ∧ x.le 0 = false := by
  unfold checkCpu at h
  obtain ⟨x, hx, h⟩ := StateExcept.except_bind_eq_ok.1 h
  split at h
  · cases h
  · rename_i hle
    exact ⟨x, hx, by simpa using hle⟩

theorem checkMemory_eq_ok {isAlphabetic : Char → Bool} {name : String} {q : Quantity}
    (h : checkMemory isAlphabetic name q = .ok ()) : q.hasUnit isAlphabetic = true := by
  unfold checkMemory at h
  dsimp only at h
  split at h
  · cases h
  · rename_i hunit
    simpa using hunit

/-- What the checks leave of the quantities. -/
structure Checked (isAlphabetic : Char → Bool) (c : ExecutionContext) : Prop where
  cpu : ∀ q ∈ c.cpu, ∃ x, q.value = .ok x ∧ x.le 0 = false
  nodes : c.nodes ≠ some 0
  memory : ∀ q ∈ c.memory, q.hasUnit isAlphabetic = true

theorem checked_of_validate {isAlphabetic : Char → Bool} {name : String} {c : ExecutionContext}
    (h : c.validate isAlphabetic name = .ok ()) : Checked isAlphabetic c := by
  unfold ExecutionContext.validate at h
  obtain ⟨_, hcpu, h⟩ := StateExcept.except_bind_eq_ok.1 h
  obtain ⟨_, -, h⟩ := StateExcept.except_bind_eq_ok.1 h
  obtain ⟨_, hnodes, h⟩ := StateExcept.except_bind_eq_ok.1 h
  obtain ⟨_, hmemory, -⟩ := StateExcept.except_bind_eq_ok.1 h
  refine ⟨fun q hq => checkCpu_eq_ok (of_checkField hcpu hq), ?_,
    fun q hq => checkMemory_eq_ok (of_checkField hmemory hq)⟩
  intro hzero
  rw [checkCount, if_pos hzero] at hnodes
  cases hnodes

/-! ## Walltimes -/

/-- Hours, minutes and seconds of a walltime that lasts. -/
structure IsHms (h m s : List Char) : Prop where
  digits : ∀ c ∈ h ++ m ++ s, c.isDigit = true
  hours : 2 ≤ h.length
  minutes : m.length = 2 ∧ F64.natOf m < 60
  seconds : s.length = 2 ∧ F64.natOf s < 60
  positive : 0 < F64.natOf h + F64.natOf m + F64.natOf s

def walltimeOf (h m s : List Char) : String := String.ofList ([':'].intercalate [h, m, s])

theorem parseUnsigned_digits {ds : List Char} (hne : ds ≠ [])
    (hd : ∀ c ∈ ds, c.isDigit = true) {n : Nat} :
    Decimal.parseUnsigned (2 ^ 32 - 1) ds = .ok n ↔ F64.natOf ds = n ∧ n ≤ 2 ^ 32 - 1 := by
  rw [Decimal.parseUnsigned_eq_ok_iff]
  constructor
  · rintro ⟨ds', hds, -, hd', hn, hle⟩
    rcases hds with rfl | rfl
    · exact ⟨hn, hle⟩
    · exact absurd (hd '+' (.head _)) (by decide)
  · rintro ⟨hn, hle⟩
    exact ⟨ds, .inl rfl, hne, hd, hn, hle⟩

/-- The check refuses walltimes below an hour, and hours that do not fit. -/
theorem checkWalltime_iff {name : String} {h m s : List Char} (hms : IsHms h m s) :
    checkWalltime name (walltimeOf h m s) = .ok () ↔
      0 < F64.natOf h ∧ F64.natOf h ≤ 2 ^ 32 - 1 := by
  obtain ⟨hd, hh, ⟨hm, hm60⟩, ⟨hs, hs60⟩, -⟩ := hms
  have hdh : ∀ c ∈ h, c.isDigit = true := fun c hc => hd c (by simp [hc])
  have hdm : ∀ c ∈ m, c.isDigit = true := fun c hc => hd c (by simp [hc])
  have hds : ∀ c ∈ s, c.isDigit = true := fun c hc => hd c (by simp [hc])
  have hsplit : ([':'].intercalate [h, m, s]).splitOn ':' = [h, m, s] := by
    refine List.splitOn_intercalate ':' ?_ (by simp)
    intro l hl hc
    rcases (by simpa using hl : l = h ∨ l = m ∨ l = s) with rfl | rfl | rfl
    · exact absurd (hdh ':' hc) (by decide)
    · exact absurd (hdm ':' hc) (by decide)
    · exact absurd (hds ':' hc) (by decide)
  have hne : ∀ {l : List Char}, 2 ≤ l.length → l ≠ [] :=
    fun hl => List.ne_nil_of_length_pos (by omega)
  have hpm : Decimal.parseUnsigned (2 ^ 32 - 1) m = .ok (F64.natOf m) :=
    (parseUnsigned_digits (hne hm.ge) hdm).2 ⟨rfl, by omega⟩
  have hps : Decimal.parseUnsigned (2 ^ 32 - 1) s = .ok (F64.natOf s) :=
    (parseUnsigned_digits (hne hs.ge) hds).2 ⟨rfl, by omega⟩
  unfold checkWalltime walltimeParts walltimeOf
  rw [String.toList_ofList, hsplit]
  cases hp : Decimal.parseUnsigned (2 ^ 32 - 1) h with
  | error e =>
    have hlarge : ¬ F64.natOf h ≤ 2 ^ 32 - 1 := fun hle => by
      rw [(parseUnsigned_digits (hne hh) hdh).2 ⟨rfl, hle⟩] at hp
      cases hp
    simp only [List.mapM_cons, hp, Except.mapError, bind, Except.bind]
    exact ⟨fun h => (by cases h), fun h => absurd h.2 hlarge⟩
  | ok n =>
    obtain ⟨rfl, hle⟩ := (parseUnsigned_digits (hne hh) hdh).1 hp
    simp only [List.mapM_cons, List.mapM_nil, hp, hpm, hps, Except.mapError, bind, Except.bind,
      pure, Except.pure]
    split
    · rename_i hzero
      exact ⟨fun h => (by cases h), fun h => (by omega)⟩
    · rename_i hzero
      exact ⟨fun _ => ⟨by omega, hle⟩, fun _ => rfl⟩

/-! ## What holds of a context -/

/-- The request for what a context states: a node, and its amounts. -/
structure ExecutionContext.Requested (c : ExecutionContext) (spec : HPCResourceSpec) : Prop where
  nodes : 1 ≤ spec.nodes
  cpu : ∀ q ∈ c.cpu, ∀ x ∈ q.amount, ∃ n ∈ spec.coresPerNode, x ≤ (n : Rat)
  memory : ∀ q ∈ c.memory, ∀ x ∈ q.amount, ∃ n ∈ spec.memoryPerNodeGb, x ≤ (n : Rat) * 1073741824

/-- An accepted context makes a request for what it states; a walltime that is well formed is
accepted. -/
structure ExecutionContext.IsUsable (isAlphabetic : Char → Bool) (name : String)
    (c : ExecutionContext) : Prop where
  requests : ∀ p, resolveExecutionContext isAlphabetic name c = .ok p →
    ∃ r, ResourceRequest.tryFrom p.resources = .ok r ∧ c.Requested r.resources
  walltime : ∀ h m s, IsHms h m s → c.walltime = some (walltimeOf h m s) →
    checkWalltime name (walltimeOf h m s) = .ok ()

/-- What the second reader has a form for. -/
structure ExecutionContext.IsConvertible (c : ExecutionContext) : Prop where
  nodes : c.nodes ≠ none
  cpu : ∀ q ∈ c.cpu, q.IsWholeCores
  memory : ∀ q ∈ c.memory, q.IsWholeGib
  user : ∀ v ∈ c.user, v = .null ∨ v.FitsUser
  mpi : ∀ v ∈ c.mpi, v = .null ∨ v.FitsMpi
  container : ∀ v ∈ c.container, v = .null ∨ v.FitsContainer

section

variable {isAlphabetic : Char → Bool} {name : String} {c : ExecutionContext} {p : ContextPayload}

theorem isConvertible_of_requested (h : resolveExecutionContext isAlphabetic name c = .ok p)
    {spec : HPCResourceSpec} (hs : ReadsAs c spec) (hr : c.Requested spec) : c.IsConvertible := by
  have hc := checked_of_validate (resolve_eq_ok h)
  refine ⟨?_, ?_, ?_, (optional_present_isSome toUserSpec_isSome _).1 hs.user,
    (optional_present_isSome toMpiSpec_isSome _).1 hs.mpi,
    (optional_present_isSome toContainerSpec_isSome _).1 hs.container⟩
  · intro hnone
    have hnodes := hr.nodes
    rw [hs.nodes, hnone] at hnodes
    exact absurd hnodes (by decide)
  · intro q hq
    obtain ⟨x, hx, hpos⟩ := hc.cpu q hq
    obtain ⟨cpu, hcpu, hcores⟩ := hs.cpu
    rw [show c.cpu = some q from hq] at hcpu
    refine (cores_iff hx hpos).1 ⟨cpu, hcpu, fun a ha => ?_⟩
    rw [← hcores]
    exact hr.cpu q hq a ha
  · intro q hq
    obtain ⟨text, rfl⟩ := text_of_hasUnit (hc.memory q hq)
    obtain ⟨memory, hmemory, hgib⟩ := hs.memory
    rw [show c.memory = some _ from hq] at hmemory
    cases hmemory
    obtain ⟨n, hn, -⟩ := hgib text rfl
    exact isWholeGib_iff.2 ⟨n, hn⟩

theorem requested_of_isConvertible (h : resolveExecutionContext isAlphabetic name c = .ok p)
    (hc : c.IsConvertible) :
    ∃ r, ResourceRequest.tryFrom p.resources = .ok r ∧ c.Requested r.resources := by
  have hchecked := checked_of_validate (resolve_eq_ok h)
  obtain ⟨cpu, hcpu⟩ : ∃ cpu, optional toF64 (present (c.cpu.map Quantity.toValue)) = some cpu := by
    cases hq : c.cpu with
    | none => exact ⟨none, rfl⟩
    | some q =>
      obtain ⟨x, hx, hpos⟩ := hchecked.cpu q hq
      obtain ⟨cpu, hcpu, -⟩ := (cores_iff hx hpos).2 (hc.cpu q hq)
      exact ⟨cpu, hcpu⟩
  obtain ⟨memory, hmemory, hgib⟩ : ∃ memory,
      optional toStr (present (c.memory.map Quantity.toValue)) = some memory ∧
        ∀ text ∈ memory, ∃ gib, readGib text = .ok gib := by
    cases hq : c.memory with
    | none => exact ⟨none, rfl, fun _ h => (by cases h)⟩
    | some q =>
      obtain ⟨text, rfl⟩ := text_of_hasUnit (hchecked.memory q hq)
      refine ⟨some text, rfl, fun _ h => ?_⟩
      cases h
      exact isWholeGib_iff.1 (hc.memory _ hq)
  obtain ⟨r, hr⟩ := exists_tryFrom h hcpu hmemory hgib
    ((optional_present_isSome toUserSpec_isSome _).2 hc.user)
    ((optional_present_isSome toMpiSpec_isSome _).2 hc.mpi)
    ((optional_present_isSome toContainerSpec_isSome _).2 hc.container)
  have hs := readsAs_of_tryFrom h hr
  refine ⟨r, hr, ?_, ?_, ?_⟩
  · rw [hs.nodes]
    cases hn : c.nodes with
    | none => exact absurd hn hc.nodes
    | some n =>
      have hzero : n.toNat ≠ 0 := fun h0 =>
        hchecked.nodes (hn.trans (congrArg some (UInt32.toNat_inj.1 h0)))
      show 1 ≤ n.toNat
      omega
  · intro q hq a ha
    obtain ⟨x, hx, hpos⟩ := hchecked.cpu q hq
    obtain ⟨cpu', hcpu', hle⟩ := (cores_iff hx hpos).2 (hc.cpu q hq)
    obtain ⟨cpu, hcpu, hcores⟩ := hs.cpu
    rw [show c.cpu = some q from hq, Option.map_some, hcpu'] at hcpu
    cases hcpu
    rw [hcores]
    exact hle a ha
  · intro q hq a ha
    obtain ⟨text, rfl⟩ := text_of_hasUnit (hchecked.memory q hq)
    obtain ⟨memory, hmemory, hgib⟩ := hs.memory
    rw [show c.memory = some _ from hq] at hmemory
    cases hmemory
    obtain ⟨n, hn, hmem⟩ := hgib text rfl
    refine ⟨n, hmem, ?_⟩
    rw [amount_gib hn] at ha
    cases ha
    exact le_refl _

/-- A context is usable exactly when it has the form that the second reader has for it, and an
hour of walltime. -/
theorem ExecutionContext.isUsable_iff (isAlphabetic : Char → Bool) (name : String)
    (c : ExecutionContext) :
    c.IsUsable isAlphabetic name ↔
      (c.validate isAlphabetic name = .ok () → c.IsConvertible) ∧
        ∀ h m s, IsHms h m s → c.walltime = some (walltimeOf h m s) →
          0 < F64.natOf h ∧ F64.natOf h ≤ 2 ^ 32 - 1 := by
  constructor
  · intro hc
    refine ⟨fun hv => ?_, fun h m s hhms hw => (checkWalltime_iff hhms).1 (hc.walltime h m s hhms hw)⟩
    obtain ⟨p, hp⟩ := exists_resolve hv
    obtain ⟨r, hr, hreq⟩ := hc.requests p hp
    exact isConvertible_of_requested hp (readsAs_of_tryFrom hp hr) hreq
  · rintro ⟨hconv, hw⟩
    refine ⟨fun p hp => requested_of_isConvertible hp (hconv (resolve_eq_ok hp)), ?_⟩
    exact fun h m s hhms hwall => (checkWalltime_iff hhms).2 (hw h m s hhms hwall)

/-- Half a core is accepted, and none is requested. -/
theorem ExecutionContext.not_isUsable :
    let c : ExecutionContext := { nodes := some 1, cpu := some (.float (.finite (1 / 2))) }
    ¬ c.IsUsable (fun _ => true) "half" := by
  intro c h
  have hcpu : checkCpu "half" (.float (.finite (1 / 2))) = .ok () := by
    norm_num [checkCpu, Quantity.value, stated, F64.isFinite, F64.lt, F64.le, bind, Except.bind,
      pure, Except.pure]
  have hv : c.validate (fun _ => true) "half" = .ok () := by
    show (checkCpu "half" (.float (.finite (1 / 2))) >>= fun _ => .ok ()) = .ok ()
    rw [hcpu]
    rfl
  obtain ⟨p, hp⟩ := exists_resolve hv
  obtain ⟨r, hr, hreq⟩ := h.requests p hp
  have hconv := isConvertible_of_requested hp (readsAs_of_tryFrom hp hr) hreq
  obtain ⟨n, -, hn⟩ := hconv.cpu _ rfl
  have htwo : (1 : Rat) = ((2 * n : Nat) : Rat) := by
    have hhalf : (1 / 2 : Rat) = n := F64.finite.inj hn
    push_cast
    linarith
  have : 1 = 2 * n := by exact_mod_cast htwo
  omega

end

end Tierkreis
