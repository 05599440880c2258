import Mathlib.Algebra.Group.Nat.Defs
import Mathlib.Data.Nat.Basic

/-!
# Physical buffers

The tests of `core/kernel/tee_misc.c` for where one range of physical memory lies with respect to
another, with addresses of a number of bits, and `core_mmu_check_end_pa`.
-/

namespace Optee.Buffer

/-- The last address of a range, `b - 1 + bl`. -/
def lastAddr (bits b bl : ℕ) : ℕ := (b + bl + (2 ^ bits - 1)) % 2 ^ bits

def isValidConfAndNotnullSize (bits b bl a al : ℕ) : Bool :=
  if lastAddr bits b bl < b ∨ lastAddr bits a al < a then false
  else if bl = 0 ∨ al = 0 then false
  else true

def coreIsBufferInside (bits b bl a al : ℕ) : Bool :=
  isValidConfAndNotnullSize bits b bl a al
    && decide (a ≤ b ∧ lastAddr bits b bl ≤ lastAddr bits a al)

def coreIsBufferOutside (bits b bl a al : ℕ) : Bool :=
  isValidConfAndNotnullSize bits b bl a al
    && decide (lastAddr bits b bl < a ∨ lastAddr bits a al < b)

def coreIsBufferIntersect (bits b bl a al : ℕ) : Bool :=
  isValidConfAndNotnullSize bits b bl a al
    && !decide (lastAddr bits b bl < a ∨ lastAddr bits a al < b)

def coreMmuCheckEndPa (bits sizeBits maxPa pa len : ℕ) : Bool :=
  let last := pa + (len + (2 ^ sizeBits - 1)) % 2 ^ sizeBits
  decide (last < 2 ^ bits ∧ last ≤ maxPa)

end Optee.Buffer
