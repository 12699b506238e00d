import Mathlib.Algebra.Ring.Int.Defs
import Mathlib.Algebra.Ring.Nat
import Mathlib.Data.List.Basic

/-!
# Machine words

The fixed-width unsigned types of `exec/types.h`, on which the sources under `src/` are written.
The machine is a 68k: big endian, with a 32-bit `ULONG`.
-/

namespace AmiNetXDuo

/-- The 8-bit `UBYTE`. -/
abbrev UByte : Type := BitVec 8

/-- The 16-bit `UWORD`. -/
abbrev UWord : Type := BitVec 16

/-- The 32-bit `ULONG`. -/
abbrev ULong : Type := BitVec 32

end AmiNetXDuo
