import Mathlib.Algebra.Group.Nat.Defs
import Mathlib.Data.Nat.Basic

/-!
# Macros

`ROUNDUP` and the macros that find overflows of `lib/libutils/ext/include/util.h`, for unsigned
numbers of `w` bits, and the size of a page.
-/

namespace Optee

/-- `SMALL_PAGE_SIZE` -/
def smallPageSize : ℕ := 4096

/-- `ADD_OVERFLOW`, with the sum where it fits. -/
def addOverflow (w a b : ℕ) : Option ℕ := if a + b < 2 ^ w then some (a + b) else none

/-- `SUB_OVERFLOW` -/
def subOverflow (a b : ℕ) : Option ℕ := if b ≤ a then some (a - b) else none

/-- The multiple of `g` at or above `v`. -/
def roundup (g v : ℕ) : ℕ := (v + (g - 1)) / g * g

/-- `ROUNDUP`, which wraps around. -/
def wrapRoundup (w g v : ℕ) : ℕ := (v + (g - 1)) % 2 ^ w / g * g

/-- `ROUNDUP_OVERFLOW` -/
def roundupOverflow (w v g : ℕ) : Option ℕ :=
  if v + (g - 1) < 2 ^ w then some (roundup g v) else none

/-- `IS_POWER_OF_TWO` -/
def isPowerOfTwo (x : ℕ) : Bool := x == 2 ^ Nat.log2 x

variable {w g v x y : ℕ}

theorem le_roundup (hg : 0 < g) : v ≤ roundup g v := by
  have h := Nat.div_add_mod (v + (g - 1)) g
  have hlt := Nat.mod_lt (v + (g - 1)) hg
  have hc := Nat.mul_comm g ((v + (g - 1)) / g)
  simp only [roundup]
  omega

theorem dvd_roundup : g ∣ roundup g v := Nat.dvd_mul_left ..

theorem roundup_mono (h : x ≤ y) : roundup g x ≤ roundup g y :=
  Nat.mul_le_mul_right g (Nat.div_le_div_right (by omega))

theorem roundup_of_dvd (hg : 0 < g) (h : g ∣ v) : roundup g v = v := by
  obtain ⟨k, rfl⟩ := h
  rw [roundup, Nat.mul_add_div hg, Nat.div_eq_of_lt (by omega), Nat.add_zero, Nat.mul_comm]

theorem wrapRoundup_eq (h : v + (g - 1) < 2 ^ w) : wrapRoundup w g v = roundup g v := by
  rw [wrapRoundup, Nat.mod_eq_of_lt h, roundup]

end Optee
