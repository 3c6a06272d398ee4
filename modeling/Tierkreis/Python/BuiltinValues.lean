import Tierkreis.Python.BuiltinComparisons

/-!
# Builtins on other values

Tuples, complex numbers and ranges are passed on as they were read.
-/

namespace Tierkreis

open Lib Lib.Float64

variable {R : Rounding} {P : PyRepr} {C : PyCodec} {S : ValueSerde} {M : Machine}
  {call : Call}

/-! ## Tuples -/

end Tierkreis
