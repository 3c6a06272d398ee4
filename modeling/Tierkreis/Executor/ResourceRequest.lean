import Tierkreis.Executor.ExecutionContext
import Tierkreis.Executor.JobScript

/-!
# Resource requests

The batch executors read the resources of a task a second time, with types and
a grammar of their own.
-/

namespace Tierkreis

open Lib

/-! ## Deserialising -/

namespace JsonValue

def toU32 : JsonValue F64 → Option Nat
  | .int n => if 0 ≤ n ∧ n < 2 ^ 32 then some n.toNat else none
  | _ => none

def toF64 : JsonValue F64 → Option F64
  | .int n => some (F64.round n)
  | .float x => some x
  | _ => none

def toStr : JsonValue F64 → Option String
  | .str s => some s
  | _ => none

/-- `Option<T>`, where null stands for nothing. -/
def toOption {α : Type} (f : JsonValue F64 → Option α) : JsonValue F64 → Option (Option α)
  | .null => some none
  | v => (f v).map some

def toList {α : Type} (f : JsonValue F64 → Option α) : JsonValue F64 → Option (List α)
  | .arr items => items.mapM f
  | _ => none

def toMap {α : Type} (f : JsonValue F64 → Option α) : JsonValue F64 → Option (HashMap String α)
  | .obj entries => (entries.mapM fun e => (f e.2).map fun v => (e.1, v)).map .ofList
  | _ => none

/-- The value under a key. -/
def entry (entries : List (String × JsonValue F64)) (key : String) : Option (JsonValue F64) :=
  (entries.find? fun e => e.1 = key).map Prod.snd

/-- A field of a struct that may be left out. -/
def optional {α : Type} (f : JsonValue F64 → Option α) : Option (JsonValue F64) → Option (Option α)
  | none => some none
  | some v => v.toOption f

/-- A field that has a default. -/
def defaulted {α : Type} (f : JsonValue F64 → Option α) (default : α) : Option (JsonValue F64) → Option α
  | none => some default
  | some v => f v

/-- A struct is read from an object, or from the list of its fields. -/
def toUserSpec : JsonValue F64 → Option UserSpec
  | .obj entries => do
    let mail ← optional toStr (entry entries "mail")
    some { mail := mail }
  | .arr [mail] => do
    let mail ← mail.toOption toStr
    some { mail := mail }
  | _ => none

def toMpiSpec : JsonValue F64 → Option MpiSpec
  | .obj entries => do
    let proc ← optional toStr (entry entries "proc")
    let maxProcPerNode ← optional toStr (entry entries "max_proc_per_node")
    some { proc := proc, maxProcPerNode := maxProcPerNode }
  | .arr [proc, maxProcPerNode] => do
    let proc ← proc.toOption toStr
    let maxProcPerNode ← maxProcPerNode.toOption toStr
    some { proc := proc, maxProcPerNode := maxProcPerNode }
  | _ => none

def toContainerSpec : JsonValue F64 → Option ContainerSpec
  | .obj entries => do
    let image ← (entry entries "image").bind toStr
    let engine ← (entry entries "engine").bind toStr
    let name ← optional toStr (entry entries "name")
    let extraArgs ← (entry entries "extra_args").bind (toMap (toOption toStr))
    let envFile ← optional toStr (entry entries "env_file")
    some { image := image, engine := engine, name := name, extraArgs := extraArgs,
           envFile := envFile }
  | .arr [image, engine, name, extraArgs, envFile] => do
    let image ← image.toStr
    let engine ← engine.toStr
    let name ← name.toOption toStr
    let extraArgs ← extraArgs.toMap (toOption toStr)
    let envFile ← envFile.toOption toStr
    some { image := image, engine := engine, name := name, extraArgs := extraArgs,
           envFile := envFile }
  | _ => none

end JsonValue

structure RawResourceRequest where
  nodes : Option Nat
  cpu : Option F64
  memory : Option String
  gpu : Option Nat
  walltime : Option String
  queue : Option String
  account : Option String
  modules : List String
  gres : List String
  qpus : List String
  user : Option UserSpec
  mpi : Option MpiSpec
  container : Option ContainerSpec
  extraSchedulerArgs : HashMap String (Option String)
  extras : HashMap String (JsonValue F64)

open JsonValue in
/-- `serde_json::from_value`. Other fields are ignored. -/
def RawResourceRequest.read (resources : HashMap String (JsonValue F64)) :
    Option RawResourceRequest := do
  let nodes ← optional toU32 (resources.get? "nodes")
  let cpu ← optional toF64 (resources.get? "cpu")
  let memory ← optional toStr (resources.get? "memory")
  let gpu ← optional toU32 (resources.get? "gpu")
  let walltime ← optional toStr (resources.get? "walltime")
  let queue ← optional toStr (resources.get? "queue")
  let account ← optional toStr (resources.get? "account")
  let modules ← defaulted (toList toStr) [] (resources.get? "modules")
  let gres ← defaulted (toList toStr) [] (resources.get? "gres")
  let qpus ← defaulted (toList toStr) [] (resources.get? "qpus")
  let user ← optional toUserSpec (resources.get? "user")
  let mpi ← optional toMpiSpec (resources.get? "mpi")
  let container ← optional toContainerSpec (resources.get? "container")
  let extraSchedulerArgs ←
    defaulted (toMap (toOption toStr)) ∅ (resources.get? "extra_scheduler_args")
  let extras ← defaulted (toMap some) ∅ (resources.get? "extras")
  some {
    nodes, cpu, memory, gpu, walltime, queue, account, modules, gres, qpus, user, mpi, container,
    extraSchedulerArgs, extras }

structure ResourceRequest where
  resources : HPCResourceSpec
  walltime : Option String
  queue : Option String
  account : Option String
  modules : List String
  user : Option UserSpec
  mpi : Option MpiSpec
  container : Option ContainerSpec
  extraSchedulerArgs : HashMap String (Option String)

/-- Whole gibibytes, with the suffix `Gi` and nothing else. -/
def readGib (memory : String) : Except String Nat :=
  if "Gi".toList <:+ memory.toList then
    match Decimal.parseUnsigned (2 ^ 32 - 1) (memory.toList.take (memory.length - 2)) with
    | .ok gib => .ok gib
    | .error _ => .error "Invalid HPC memory quantity"
  else .error "HPC memory must use Gi units"

def readMemory : Option String → Except String (Option Nat)
  | none => .ok none
  | some memory => (readGib memory).map some

/-- A list that is left out when it is empty. -/
def nonEmpty (items : List String) : Option (List String) :=
  if items.isEmpty then none else some items

/-- The flags are arguments without a value. -/
def insertFlags (args : HashMap String (Option String)) : Option (JsonValue F64) →
    Except String (HashMap String (Option String))
  | none => .ok args
  | some flags =>
    match flags.toList JsonValue.toStr with
    | none => .error "HPC extras.flags must be a list of strings"
    | some flags => .ok (flags.foldl (fun args flag => args.insert flag none) args)

def ResourceRequest.tryFrom (resources : HashMap String (JsonValue F64)) :
    Except String ResourceRequest :=
  match RawResourceRequest.read resources with
  | none => .error "Invalid HPC resource specification"
  | some raw => do
    let memoryPerNodeGb ← readMemory raw.memory
    let extraSchedulerArgs ← insertFlags raw.extraSchedulerArgs (raw.extras.get? "flags")
    pure {
      resources := {
        nodes := raw.nodes.getD 0
        coresPerNode := raw.cpu.map F64.toU32
        memoryPerNodeGb := memoryPerNodeGb
        gpusPerNode := raw.gpu
        qpus := nonEmpty raw.qpus
        gres := nonEmpty raw.gres }
      walltime := raw.walltime
      queue := raw.queue
      account := raw.account
      modules := raw.modules
      user := raw.user
      mpi := raw.mpi
      container := raw.container
      extraSchedulerArgs := extraSchedulerArgs }

end Tierkreis
