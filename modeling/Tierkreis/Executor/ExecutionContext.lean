import Tierkreis.Asset
import Tierkreis.Lib.F64
import Tierkreis.Lib.Decimal
import Tierkreis.Lib.HashMap

/-!
# Execution contexts

The contexts of a profile are read from its files, checked, and taken apart
into what the executor, the environment and the resources of a task are.
-/

namespace Tierkreis

open Lib

/-- A float that is not finite becomes null. -/
def JsonValue.ofF64 (x : F64) : JsonValue F64 := if x.isFinite then .float x else .null

/-- An amount with a unit, as Kubernetes has them. -/
inductive Quantity
  | integer (n : UInt64)
  | float (x : F64)
  | text (s : String)

namespace Quantity

/-- Their multipliers, before they are rounded. -/
def suffixes : List (String × Rat) := [
  ("Ki", 1024), ("Mi", 1048576), ("Gi", 1073741824), ("Ti", 1099511627776),
  ("Pi", 1125899906842624), ("m", 1 / 1000), ("k", 1000), ("K", 1000), ("M", 1000000),
  ("G", 1000000000), ("T", 1000000000000), ("P", 1000000000000000)]

/-- `char::is_whitespace`. -/
def isWhitespace (c : Char) : Bool :=
  c.toNat ∈ [0x20, 0x85, 0xA0, 0x1680, 0x2028, 0x2029, 0x202F, 0x205F, 0x3000] ||
    (9 ≤ c.toNat && c.toNat ≤ 13) || (0x2000 ≤ c.toNat && c.toNat ≤ 0x200A)

/-- `str::trim`. -/
def trim (cs : List Char) : List Char :=
  ((cs.dropWhile isWhitespace).reverse.dropWhile isWhitespace).reverse

/-- The number in front of the first suffix that fits, and what it is multiplied by. -/
def splitSuffix (cs : List Char) : List Char × Rat :=
  (suffixes.findSome? fun e =>
    if e.1.toList <:+ cs then some (cs.take (cs.length - e.1.length), e.2) else none).getD (cs, 1)

/-- The value of a text, as far as it can be read. -/
def textValue (s : String) : Option F64 :=
  let (number, multiplier) := splitSuffix (trim s.toList)
  (F64.parse (trim number)).map fun x => x.mul (F64.round multiplier)

/-- The number that is stated, before its check. -/
def stated : Quantity → Except String F64
  | .integer n =>
    if n.toNat < 2 ^ 32 then .ok (F64.ofNat n.toNat)
    else .error "out of range integral type conversion attempted"
  | .float x => .ok x
  | .text s =>
    match textValue s with
    | some x => .ok x
    | none => .error s!"Invalid resource quantity `{String.ofList (trim s.toList)}`"

def value (q : Quantity) : Except String F64 := do
  let value ← q.stated
  if !value.isFinite || value.lt 0 then .error "Resource quantity must be finite and nonnegative"
  else pure value

/-- In whole gibibytes. -/
def gib (q : Quantity) : Except String Nat := do
  let value ← q.value
  match value.divPos 1073741824 with
  | .finite x =>
    if 2 ^ 32 - 1 < ⌈x⌉ then .error "Memory quantity exceeds u32 range" else pure ⌈x⌉.toNat
  | _ => .error "Memory quantity exceeds u32 range"

/-- `isAlphabetic` is that of `char`. -/
def hasUnit (isAlphabetic : Char → Bool) : Quantity → Bool
  | .text s => s.toList.getLast?.any isAlphabetic
  | _ => false

def toValue : Quantity → JsonValue F64
  | .integer n => .int n.toNat
  | .float x => .ofF64 x
  | .text s => .str s

/-- The exact amount that is stated, before any rounding. -/
def amount : Quantity → Option Rat
  | .integer n => some n.toNat
  | .float (.finite x) => some x
  | .float _ => none
  | .text s =>
    let (number, multiplier) := splitSuffix (trim s.toList)
    (F64.exactValue (trim number)).map (· * multiplier)

end Quantity

/-- A context. What a TOML value is written as stands for it in `user`, `mpi`, `container` and
`native`. -/
structure ExecutionContext where
  executor : Option String := none
  nodes : Option UInt32 := none
  cpu : Option Quantity := none
  memory : Option Quantity := none
  gpu : Option UInt32 := none
  maxConcurrency : Option UInt32 := none
  walltime : Option String := none
  queue : Option String := none
  account : Option String := none
  user : Option (JsonValue F64) := none
  mpi : Option (JsonValue F64) := none
  container : Option (JsonValue F64) := none
  extraSchedulerArgs : HashMap String (Option String) := ∅
  gres : List String := []
  qpus : List String := []
  modules : List String := []
  env : HashMap String String := ∅
  extras : HashMap String (List String) := ∅
  native : HashMap String (JsonValue F64) := ∅

/-! ## Checks -/

/-- The numbers of a walltime. -/
def walltimeParts (walltime : String) : Except String (List Nat) :=
  (walltime.toList.splitOn ':').mapM fun part =>
    (Decimal.parseUnsigned (2 ^ 32 - 1) part).mapError Decimal.IntError.toText

def checkWalltime (name walltime : String) : Except String Unit := do
  let invalid := s!"Invalid walltime `{walltime}` in context `{name}`; expected HH:MM:SS"
  match ← walltimeParts walltime with
  | [hours, minutes, seconds] =>
    if hours = 0 ∨ 60 ≤ minutes ∨ 60 ≤ seconds then .error invalid else pure ()
  | _ => .error invalid

/-- A check of a field that may be left out. -/
def checkField {α : Type} (field : Option α) (check : α → Except String Unit) :
    Except String Unit :=
  match field with
  | none => pure ()
  | some x => check x

/-- A count that must not be zero. -/
def checkCount (field : Option UInt32) (msg : String) : Except String Unit :=
  if field = some 0 then .error msg else pure ()

def checkCpu (name : String) (cpu : Quantity) : Except String Unit := do
  let value ← cpu.value
  if value.le 0 then .error s!"Context `{name}` requires a positive cpu quantity" else pure ()

def checkMemory (isAlphabetic : Char → Bool) (name : String) (memory : Quantity) :
    Except String Unit :=
  let unit := s!"Context `{name}` memory requires a positive unit, e.g. `16Gi`"
  if !memory.hasUnit isAlphabetic then .error unit
  else do
    let value ← memory.value
    if value.le 0 then .error unit else memory.gib.map fun _ => ()

def checkExtras (name : String) (extras : HashMap String (List String)) : Except String Unit :=
  match extras.toList.find? fun e => e.1 ≠ "flags" with
  | some (key, _) => .error s!"Unsupported extras key `{key}` in context `{name}`"
  | none => pure ()

def ExecutionContext.validate (isAlphabetic : Char → Bool) (c : ExecutionContext) (name : String) :
    Except String Unit := do
  checkField c.cpu (checkCpu name)
  checkCount c.gpu s!"Context `{name}` requires a positive gpu quantity"
  checkCount c.nodes s!"Context `{name}` must request at least one node"
  checkField c.memory (checkMemory isAlphabetic name)
  checkCount c.maxConcurrency s!"Context `{name}` must have a positive max_concurrency"
  checkField c.walltime (checkWalltime name)
  checkExtras name c.extras

/-! ## Fields -/

/-- A map that is skipped when it is empty. -/
def objUnlessEmpty {α : Type} (m : HashMap String α) (f : α → JsonValue F64) : Option (JsonValue F64) :=
  if m.toList.isEmpty then none else some (.obj (m.toList.map fun e => (e.1, f e.2)))

def arrUnlessEmpty (items : List String) : Option (JsonValue F64) :=
  if items.isEmpty then none else some (.arr (items.map .str))

def JsonValue.ofOption {α : Type} (f : α → JsonValue F64) : Option α → JsonValue F64
  | none => .null
  | some x => f x

/-- What a field is serialised as, unless it is skipped. -/
def ExecutionContext.field (c : ExecutionContext) : String → Option (JsonValue F64)
  | "executor" => some (.ofOption .str c.executor)
  | "nodes" => c.nodes.map fun n => .int n.toNat
  | "cpu" => c.cpu.map Quantity.toValue
  | "memory" => c.memory.map Quantity.toValue
  | "gpu" => c.gpu.map fun n => .int n.toNat
  | "max_concurrency" => c.maxConcurrency.map fun n => .int n.toNat
  | "walltime" => c.walltime.map .str
  | "queue" => c.queue.map .str
  | "account" => c.account.map .str
  | "user" => c.user
  | "mpi" => c.mpi
  | "container" => c.container
  | "extra_scheduler_args" => objUnlessEmpty c.extraSchedulerArgs (.ofOption .str)
  | "gres" => arrUnlessEmpty c.gres
  | "qpus" => arrUnlessEmpty c.qpus
  | "modules" => arrUnlessEmpty c.modules
  | "env" => objUnlessEmpty c.env .str
  | "extras" => objUnlessEmpty c.extras fun items => .arr (items.map .str)
  | "native" => objUnlessEmpty c.native id
  | _ => none

def fieldNames : List String := [
  "executor", "nodes", "cpu", "memory", "gpu", "max_concurrency", "walltime", "queue", "account",
  "user", "mpi", "container", "extra_scheduler_args", "gres", "qpus", "modules", "env", "extras",
  "native"]

/-- `serde_json::to_value`. -/
def ExecutionContext.toFields (c : ExecutionContext) : HashMap String (JsonValue F64) :=
  .ofList (fieldNames.filterMap fun key => (c.field key).map fun v => (key, v))

def JsonValue.isNull : JsonValue F64 → Bool
  | .null => true
  | _ => false

/-- A context as the tasks that select it get it. -/
structure ContextPayload where
  executor : Option String
  resources : HashMap String (JsonValue F64)
  environment : List (String × JsonValue F64)

/-- `resolve_context`, for a context that has been read from its file. -/
def resolveExecutionContext (isAlphabetic : Char → Bool) (name : String) (c : ExecutionContext) :
    Except String ContextPayload := do
  c.validate isAlphabetic name
  let fields := c.toFields
  let executor :=
    match fields.get? "executor" with
    | some (.str executor) => some executor
    | _ => none
  let environment :=
    match fields.get? "env" with
    | some (.obj entries) => entries
    | _ => []
  let native := (fields.get? "native").getD .null
  let fields := ((fields.erase "executor").erase "env").erase "native"
  let fields := fields.filterMap fun _ v => if v.isNull then none else some v
  let fields := if native.isNull then fields else fields.insert "native" native
  pure { executor := executor, resources := fields, environment := environment }

end Tierkreis
