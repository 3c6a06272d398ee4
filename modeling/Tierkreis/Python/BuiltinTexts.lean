import Tierkreis.Python.BuiltinComparisons

/-!
# Texts that agree

`tkr_str` writes a value as Python shows it and as json. The two texts are read
side by side until they differ; what follows a value inside of another may be part
of the comparison.
-/

namespace Tierkreis

open Lib Lib.Float64

variable {R : Rounding} {P : PyRepr} {C : PyCodec} {S : ValueSerde} {M : Machine} {call : Call}

/-! ## Side by side -/

section

variable {floatText : Float → String}

end

/-! ## The builtin -/

end Tierkreis
