import Tierkreis.Python.BuiltinValues

/-!
# Means

Rust adds floats up from the front and rounds at each step, Python rounds the exact
mean once.
-/

namespace Tierkreis

open Lib Lib.Float64

variable {R : Rounding} {P : PyRepr} {C : PyCodec} {S : ValueSerde} {M : Machine} {call : Call}

/-! ## Reading floats -/

end Tierkreis
