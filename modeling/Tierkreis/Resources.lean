import Tierkreis.Asset

/-!
# Resource profiles

What a task asks of the executor that runs it, as the selected profile resolves it.
-/

namespace Tierkreis

open Lib

structure ResolvedContext where
  name : Option String := none
  executor : Option String := none
  resources : HashMap String Json := ∅
  environment : HashMap String Json := ∅

/-- A member of a json object, if it is one. -/
def Json.get? (v : Json) (key : String) : Option Json :=
  match v with
  | .obj entries => (entries.find? fun e => e.1 == key).map Prod.snd
  | _ => none

def Json.isEmptyObject : Json → Bool
  | .obj [] => true
  | _ => false

structure ResourceProfiles where
  profiles : HashMap String ResolvedContext

namespace ResourceProfiles

/-- The native fields of a context, for the executor that it names. -/
def nativeFor (context : ResolvedContext) : Option Json :=
  let nativeByExecutor := (context.resources.get? "native").getD .null
  (context.executor.bind nativeByExecutor.get?).filter fun native => !native.isEmptyObject

def resolve (p : ResourceProfiles) (requested executor : Option String) :
    Result ResolvedContext := do
  let context ←
    match requested with
    | some name => do
      let context ← okOr (p.profiles.get? name) s!"Unknown execution context `{name}`"
      pure { context with name := some name }
    | none => pure {}
  let context := { context with executor := executor.or context.executor }
  let resources := context.resources.erase "native"
  pure { context with
    resources :=
      match nativeFor context with
      | some native => resources.insert "native" native
      | none => resources }

end ResourceProfiles

end Tierkreis
