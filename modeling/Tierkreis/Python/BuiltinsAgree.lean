import Tierkreis.Python.BuiltinMeans
import Tierkreis.Python.BuiltinTexts

/-!
# Where the builtins of both languages agree

The Rust builtin decodes at fixed widths, truncates where Python rounds down,
tells kinds of numbers apart, writes other texts and rounds every sum. Each call
agrees exactly where none of this shows.
-/

namespace Tierkreis

open Lib Lib.Float64

section

variable {R : Rounding} {P : PyRepr} {C : PyCodec} {S : ValueSerde} {M : Machine}
  {call : Call}

/-! ## Values of another type -/

end

/-! ## A quotient and two lists -/

/-- Some small integers and their texts. -/
def smallTexts : List (Int × Bytes) := [(7, [55]), (-7, [45, 55]), (2, [50]), (3, [51]), (-3, [45, 51])]

def textOf (n : Int) : Bytes := ((smallTexts.find? fun e => e.1 = n).map Prod.snd).getD []

end Tierkreis
