import Tierkreis.Python.BuiltinInts

/-!
# Builtins that compare

Rust tells kinds of numbers apart where Python compares their values. Two equal
values are held alike if this shows nowhere in them.
-/

namespace Tierkreis

open Lib Lib.Float64

variable {R : Rounding} {P : PyRepr} {C : PyCodec} {S : ValueSerde} {M : Machine} {call : Call}

/-! ## Lists of equal values -/

theorem JsonValue.eqItems_eq : ∀ vs ws : List Value, JsonValue.eqItems vs ws = vs.isEqv ws JsonValue.eq
  | [], [] | [], _ :: _ | _ :: _, [] => by rw [JsonValue.eqItems, List.isEqv] <;> exact nofun
  | v :: vs, w :: ws => by rw [JsonValue.eqItems, JsonValue.eqItems_eq vs ws, List.isEqv]

theorem JsonValue.eqEntries_eq : ∀ vs ws : List (String × Value),
    JsonValue.eqEntries vs ws = vs.isEqv ws fun e f => e.1 == f.1 && JsonValue.eq e.2 f.2
  | [], [] | [], _ :: _ | _ :: _, [] => by rw [JsonValue.eqEntries, List.isEqv] <;> exact nofun
  | v :: vs, w :: ws => by rw [JsonValue.eqEntries, JsonValue.eqEntries_eq vs ws, List.isEqv]

theorem PyBuiltins.eqItems_eq {R : Rounding} : ∀ ps qs : List PType,
    PyBuiltins.eqItems R ps qs = ps.isEqv qs fun p q => isNan p q || PyBuiltins.eq R p q
  | [], [] | [], _ :: _ | _ :: _, [] => by rw [PyBuiltins.eqItems, List.isEqv] <;> exact nofun
  | p :: ps, q :: qs => by rw [PyBuiltins.eqItems, PyBuiltins.eqItems_eq ps qs, List.isEqv]

theorem PyBuiltins.eqEntries_eq {R : Rounding} : ∀ ps qs : List (PyStr × PType),
    PyBuiltins.eqEntries R ps qs = ps.isEqv qs fun e f =>
      decide (e.1 = f.1) && (isNan e.2 f.2 || PyBuiltins.eq R e.2 f.2)
  | [], [] | [], _ :: _ | _ :: _, [] => by rw [PyBuiltins.eqEntries, List.isEqv] <;> exact nofun
  | p :: ps, q :: qs => by rw [PyBuiltins.eqEntries, PyBuiltins.eqEntries_eq ps qs, List.isEqv]

end Tierkreis
