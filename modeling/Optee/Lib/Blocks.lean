import Optee.Lib.Bytes
import Mathlib.Data.List.GetD

/-!
# Bytes in blocks

The bytes of a sequence of blocks of one size, addressed one after the other, and the runs of bytes
that parts of blocks make up.
-/

namespace Optee

/-- The byte at an address. -/
def byteAt {n : ℕ} (f : ℕ → ByteVec n) (addr : ℕ) : UInt8 := (f (addr / n)).toList.getD (addr % n) 0

/-- Some bytes from an address on. -/
def slice (g : ℕ → UInt8) (addr len : ℕ) : List UInt8 := (List.range len).map fun k => g (addr + k)

variable {n : ℕ} {f : ℕ → ByteVec n} {g : ℕ → UInt8}

@[simp] theorem length_slice (addr len : ℕ) : (slice g addr len).length = len := by simp [slice]

theorem getElem?_slice {addr len k : ℕ} (h : k < len) :
    (slice g addr len)[k]? = some (g (addr + k)) := by
  simp [slice, h]

theorem slice_append (addr len len' : ℕ) :
    slice g addr len ++ slice g (addr + len) len' = slice g addr (len + len') := by
  rw [slice, slice, slice, List.range_add, List.map_append, List.map_map]
  simp [Function.comp_def, Nat.add_assoc]

theorem take_slice {addr len k : ℕ} (h : k ≤ len) : (slice g addr len).take k = slice g addr k := by
  rw [slice, slice, ← List.map_take, List.take_range, Nat.min_eq_left h]

theorem drop_slice {addr len k : ℕ} (h : k ≤ len) :
    (slice g addr len).drop k = slice g (addr + k) (len - k) := by
  obtain ⟨m, rfl⟩ := Nat.exists_eq_add_of_le h
  rw [← slice_append, Nat.add_sub_cancel_left]
  exact List.drop_left' (length_slice _ _)

theorem slice_block {i off size : ℕ} (h : off + size ≤ n) :
    ((f i).toList.drop off).take size = slice (byteAt f)
    (n * i + off) size := by
  refine List.ext_getElem? fun k => ?_
  rcases Nat.lt_or_ge k size with hk | hk
  · have hlt : off + k < n := by omega
    have hdiv : (n * i + off + k) / n = i := by
      rw [Nat.add_assoc, Nat.mul_add_div (by omega), Nat.div_eq_of_lt hlt, Nat.add_zero]
    have hmod : (n * i + off + k) % n = off + k := by
      rw [Nat.add_assoc, Nat.mul_add_mod, Nat.mod_eq_of_lt hlt]
    rw [getElem?_slice hk, List.getElem?_take_of_lt hk, List.getElem?_drop, byteAt, hdiv, hmod,
      List.getD_eq_getElem?_getD, List.getElem?_eq_getElem (by simpa using hlt), Option.getD_some]
  · rw [List.getElem?_eq_none (by simp; omega), List.getElem?_eq_none (by simpa using hk)]

end Optee
