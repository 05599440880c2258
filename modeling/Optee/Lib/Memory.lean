import Optee.Lib.Bytes
import Mathlib.Data.List.GetD
import Mathlib.Tactic.Common

/-!
# Memory

Memory that is read and written in pieces, from an address on. Memory that begins with a list of
bytes is read and written like the list, as long as one stays within it (`read_ofList`,
`write_ofList`).
-/

namespace Optee

abbrev ByteMem := ℕ → UInt8

namespace ByteMem

variable (m : ByteMem)

def read (p n : ℕ) : List UInt8 := (List.range n).map fun i => m (p + i)

def u32 (p : ℕ) : ℕ := ofLeBytes (m.read p 4)

def write (p : ℕ) (bytes : List UInt8) : ByteMem :=
  fun q => if p ≤ q ∧ q < p + bytes.length then bytes.getD (q - p) 0 else m q

/-- Memory that begins with some bytes. -/
def ofList (bytes : List UInt8) (beyond : ByteMem) : ByteMem :=
  fun q => if q < bytes.length then bytes.getD q 0 else beyond (q - bytes.length)

@[simp] theorem length_read (p n : ℕ) : (m.read p n).length = n := by simp [read]

theorem read_ofList (a b c : List UInt8) (beyond : ByteMem) {p n : ℕ} (hp : a.length = p)
    (hn : b.length = n) : (ofList (a ++ b ++ c) beyond).read p n = b := by
  subst hp hn
  refine List.ext_getElem (by simp) fun i h₁ h₂ => ?_
  have hlt : a.length + i < (a ++ b ++ c).length := by simp; omega
  simp only [read, ofList, List.getElem_map, List.getElem_range, if_pos hlt]
  rw [List.getD_eq_getElem _ _ hlt]
  simp [List.getElem_append_left h₂]

theorem write_ofList (a b b' c : List UInt8) (beyond : ByteMem) {p : ℕ} (hp : a.length = p)
    (hb : b'.length = b.length) :
    (ofList (a ++ b ++ c) beyond).write p b' = ofList (a ++ b' ++ c) beyond := by
  subst hp
  funext q
  have hl : (a ++ b' ++ c).length = (a ++ b ++ c).length := by simp [hb]
  simp only [write, ofList, hl]
  split_ifs with h h' h'
  · rw [List.append_assoc, List.getD_append_right _ _ _ _ h.1, List.getD_append _ _ _ _ (by omega)]
  · simp only [List.length_append] at h'
    omega
  · rcases Nat.lt_or_ge q a.length with hq | hq
    · rw [List.append_assoc, List.append_assoc, List.getD_append _ _ _ _ hq,
        List.getD_append _ _ _ _ hq]
    · have hq' : a.length + b'.length ≤ q := by omega
      rw [List.getD_append_right (a ++ b) _ _ _ (by simp; omega),
        List.getD_append_right (a ++ b') _ _ _ (by simp; omega)]
      simp [hb]
  · rfl

theorem u32_ofList (a b c : List UInt8) (beyond : ByteMem) {p : ℕ} (hp : a.length = p)
    (hb : b.length = 4) : (ofList (a ++ b ++ c) beyond).u32 p = ofLeBytes b := by
  rw [u32, read_ofList a b c beyond hp hb]

end ByteMem

end Optee
