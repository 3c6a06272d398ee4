import Tierkreis.Executor.BuiltinPanics
import Tierkreis.Python.BuiltinRules

/-!
# Builtins on integers

A run of a builtin in Rust on the arguments of a call: the inputs it decodes, the
operation, and the output it writes. Integers agree up to rounding.
-/

namespace Tierkreis

open Lib Lib.Float64

variable {R : Rounding} {P : PyRepr} {C : PyCodec} {S : ValueSerde} {M : Machine}
  {call : Call}

/-! ## Runs of the builtins -/

end Tierkreis
