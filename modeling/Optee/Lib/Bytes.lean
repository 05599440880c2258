import Mathlib.Algebra.Group.Nat.Defs
import Mathlib.Data.Vector.Basic

/-!
# Byte strings

Fixed-width byte arrays and the little-endian image of a number. Two numbers with the same image
agree up to the width (`leBytes_inj`), and reading an image back gives the number
(`ofLeBytes_leBytes`).
-/

namespace Optee

/-- A byte array of a fixed size. -/
abbrev ByteVec (n : ℕ) := List.Vector UInt8 n

namespace ByteVec

/-- The array filled with zeros. -/
def zero (n : ℕ) : ByteVec n := List.Vector.replicate n 0

/-- The array with the given bytes. -/
def ofList {n : ℕ} (bs : List UInt8) (h : bs.length = n) : ByteVec n := ⟨bs, h⟩

@[simp] theorem toList_ofList {n : ℕ} (bs : List UInt8) (h : bs.length = n) :
    (ofList bs h).toList = bs := rfl

@[simp] theorem length_toList {n : ℕ} (v : ByteVec n) : v.toList.length = n := v.2

theorem toList_inj {n : ℕ} {v w : ByteVec n} : v.toList = w.toList ↔ v = w :=
  ⟨fun h => List.Vector.eq v w h, fun h => by rw [h]⟩

/-- The array with the bytes from `off` on replaced; bytes that do not fit are dropped. -/
def patch {n : ℕ} (v : ByteVec n) (off : ℕ) (bs : List UInt8) : ByteVec n :=
  ofList ((v.toList.take off ++ bs ++ v.toList.drop (off + bs.length)).take n) (by
    simp only [List.length_take, List.length_append, List.length_drop, length_toList]
    omega)

end ByteVec

/-- The `n` low bytes of a number, least significant first. -/
def leBytes : ℕ → ℕ → List UInt8
  | 0, _ => []
  | n + 1, v => UInt8.ofNat v :: leBytes n (v / 256)

/-- The number with the given bytes, least significant first. -/
def ofLeBytes : List UInt8 → ℕ
  | [] => 0
  | b :: bs => b.toNat + 256 * ofLeBytes bs

@[simp] theorem leBytes_length : ∀ n v : ℕ, (leBytes n v).length = n
  | 0, _ => rfl
  | n + 1, v => by simp [leBytes, leBytes_length n]

theorem ofLeBytes_leBytes_mod : ∀ n v : ℕ, ofLeBytes (leBytes n v) = v % 256 ^ n
  | 0, v => by simp [leBytes, ofLeBytes, Nat.mod_one]
  | n + 1, v => by
    have hb : (UInt8.ofNat v).toNat = v % 256 := by simp
    rw [leBytes, ofLeBytes, ofLeBytes_leBytes_mod n (v / 256), hb, pow_succ' 256 n, Nat.mod_mul]

theorem ofLeBytes_leBytes {n v : ℕ} (h : v < 256 ^ n) : ofLeBytes (leBytes n v) = v := by
  rw [ofLeBytes_leBytes_mod, Nat.mod_eq_of_lt h]

theorem leBytes_inj {n v w : ℕ} (hv : v < 256 ^ n) (hw : w < 256 ^ n) :
    leBytes n v = leBytes n w ↔ v = w := by
  refine ⟨fun h => ?_, fun h => by rw [h]⟩
  rw [← ofLeBytes_leBytes hv, ← ofLeBytes_leBytes hw, h]

theorem leBytes_ofLeBytes : ∀ bs : List UInt8, leBytes bs.length (ofLeBytes bs) = bs
  | [] => rfl
  | b :: bs => by
    have hb := b.toNat_lt
    have hmod : UInt8.ofNat (b.toNat + 256 * ofLeBytes bs) = b := by
      rw [← UInt8.toNat_inj, UInt8.toNat_ofNat']
      omega
    have hdiv : (b.toNat + 256 * ofLeBytes bs) / 256 = ofLeBytes bs := by omega
    rw [List.length_cons, ofLeBytes, leBytes, hmod, hdiv, leBytes_ofLeBytes bs]

theorem ofLeBytes_lt : ∀ bs : List UInt8, ofLeBytes bs < 256 ^ bs.length
  | [] => by simp [ofLeBytes]
  | b :: bs => by
    have hb := b.toNat_lt
    have ih := ofLeBytes_lt bs
    simp only [ofLeBytes, List.length_cons, pow_succ']
    omega

theorem getElem?_leBytes :
    ∀ (n v k : ℕ), k < n → (leBytes n v)[k]? = some (UInt8.ofNat (v / 256 ^ k))
  | n + 1, v, 0, _ => by simp [leBytes]
  | n + 1, v, k + 1, h => by
    rw [leBytes, List.getElem?_cons_succ, getElem?_leBytes n _ k (by omega), Nat.div_div_eq_div_mul,
      pow_succ']

end Optee
