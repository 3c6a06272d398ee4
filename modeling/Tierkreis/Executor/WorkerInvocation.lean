import Tierkreis.Asset
import Tierkreis.Lib.Shell

/-!
# Worker invocations

The command line that an HPC job runs: the command of the worker and the path of
its arguments, each quoted for the shell.
-/

namespace Tierkreis

open Lib Lib.Shell

/-- A quote inside the argument ends the quoted text, stands in double quotes, and begins it
again. -/
def shellQuoteChar (c : Char) : List Char :=
  if c = '\x27' then ['\x27', '"', '\x27', '"', '\x27'] else [c]

def shellQuote (argument : String) : String :=
  String.ofList ('\x27' :: argument.toList.flatMap shellQuoteChar ++ ['\x27'])

/-- The arguments before the path: the worker's command, or its binary. -/
def workerCommand (commands : HashMap String (List String)) (workerName : String) : List String :=
  (commands.get? workerName).getD
    ["tkr-" ++ workerName.map fun c => if c = '_' then '-' else c]

def workerInvocation (commands : HashMap String (List String))
    (workerName workerArgsPath : String) : String :=
  " ".intercalate
    ((workerCommand commands workerName).map shellQuote ++ [shellQuote workerArgsPath])

/-! ## What the shell reads -/

variable {cs : List (List Word)} {ws : List Word}

theorem read_shellQuoteChars (text : List Char) (w : Word) :
    read ⟨cs, ws, .single w .other⟩ (text.flatMap shellQuoteChar) =
      some ⟨cs, ws, .single (w ++ text) .other⟩ := by
  induction text generalizing w with
  | nil => rw [List.flatMap_nil, read_nil, List.append_nil]
  | cons c text ih =>
    have hchar : read ⟨cs, ws, .single w .other⟩ (shellQuoteChar c) =
        some ⟨cs, ws, .single (w ++ [c]) .other⟩ := by
      by_cases hc : c = '\x27'
      · subst hc
        rfl
      · have hplain : shellQuoteChar c = [c] := if_neg hc
        rw [hplain]
        exact read_single (by simpa using Ne.symm hc)
    rw [List.flatMap_cons, read_append, hchar, Option.bind_some, ih, List.append_assoc]
    rfl

/-- A quoted argument is one word, whatever it is. -/
theorem read_shellQuote (argument : String) :
    read ⟨cs, ws, .blank⟩ (shellQuote argument).toList =
      some ⟨cs, ws, .word argument.toList .other⟩ := by
  have hopen : State.step ⟨cs, ws, .blank⟩ '\x27' = some ⟨cs, ws, .single [] .other⟩ := by
    simp [State.step, State.unquoted, Form.quoted]
  have hclose : State.step ⟨cs, ws, .single argument.toList .other⟩ '\x27' =
      some ⟨cs, ws, .word argument.toList .other⟩ := by
    simp [State.step]
  unfold shellQuote
  rw [String.toList_ofList, List.cons_append, read_cons, hopen, Option.bind_some, read_append,
    read_shellQuoteChars, Option.bind_some, List.nil_append, read_cons, hclose]
  rfl

/-- Quoted arguments with a space between them are the words they were made from. -/
theorem read_intercalate_shellQuote (a : String) (arguments : List String) (ws : List Word) :
    read ⟨cs, ws, .blank⟩ (" ".intercalate ((a :: arguments).map shellQuote)).toList =
      some ⟨cs, ws ++ ((a :: arguments).map String.toList).dropLast,
        .word ((a :: arguments).getLast (List.cons_ne_nil a arguments)).toList .other⟩ := by
  rw [String.toList_intercalate]
  induction arguments generalizing a ws with
  | nil => simp [read_shellQuote]
  | cons b arguments ih =>
    have hspace : State.step ⟨cs, ws, .word a.toList .other⟩ ' ' =
        some ⟨cs, ws ++ [a.toList], .blank⟩ := by
      simp [State.step, State.unquoted]
    rw [List.map_cons, List.map_cons, List.map_cons, List.map_cons, List.intercalate_cons_cons,
      List.append_assoc, read_append, read_shellQuote, Option.bind_some]
    have hsep : " ".toList = [' '] := rfl
    rw [hsep, List.singleton_append, read_cons, hspace, Option.bind_some]
    have hrest := ih b (ws ++ [a.toList])
    rw [hsep, List.map_cons, List.map_cons] at hrest
    rw [hrest]
    simp

/-- The shell splits the invocation into the command's arguments and the path. -/
theorem splitWords_workerInvocation (commands : HashMap String (List String))
    (workerName workerArgsPath : String) :
    splitWords (workerInvocation commands workerName workerArgsPath).toList =
      some ((workerCommand commands workerName ++ [workerArgsPath]).map String.toList) := by
  have hline : workerInvocation commands workerName workerArgsPath =
      " ".intercalate ((workerCommand commands workerName ++ [workerArgsPath]).map shellQuote) := by
    rw [List.map_append]
    rfl
  obtain ⟨a, arguments, h⟩ : ∃ a arguments,
      workerCommand commands workerName ++ [workerArgsPath] = a :: arguments :=
    List.exists_cons_of_ne_nil (by simp)
  rw [hline, h]
  unfold splitWords Shell.commands
  rw [read_intercalate_shellQuote, Option.bind_some]
  have hwords : ((a :: arguments).map String.toList).dropLast ++
      [((a :: arguments).getLast (List.cons_ne_nil a arguments)).toList] =
        (a :: arguments).map String.toList := by
    rw [← List.map_dropLast, ← List.map_singleton, ← List.map_append,
      List.dropLast_append_getLast]
  simp only [State.finish, State.endCommand, List.nil_append, hwords]
  rfl

end Tierkreis
