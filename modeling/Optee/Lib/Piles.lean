import Mathlib.Data.List.Perm.Basic
import Mathlib.Logic.Function.Basic
import Mathlib.Tactic.Common

/-!
# Elements spread over lists

A family of lists over which elements are spread, each of them in one list and there once
(`Spread`). An element is moved from one list into another (`move`).
-/

namespace Optee.Piles

variable {κ α : Type*} [DecidableEq κ] [DecidableEq α] {piles : κ → List α} {x y : α}
  {k m k' j : κ} {i : ℕ} {S : α → Prop}

/-- An element is taken out of a list and put into another, at a position. -/
def move (piles : κ → List α) (x : α) (k k' : κ) (i : ℕ) : κ → List α :=
  let rest := Function.update piles k ((piles k).erase x)
  Function.update rest k' ((rest k').insertIdx i x)

/-- Each of the elements is in one of the lists, once. -/
structure Spread (piles : κ → List α) (S : α → Prop) : Prop where
  nodup : ∀ k, (piles k).Nodup
  unique : ∀ {x k k'}, x ∈ piles k → x ∈ piles k' → k = k'
  all : ∀ x, (∃ k, x ∈ piles k) ↔ S x

theorem move_to (hne : k ≠ k') : move piles x k k' i k' = (piles k').insertIdx i x := by
  rw [move, Function.update_self, Function.update_of_ne hne.symm]

theorem move_from (hne : k ≠ k') : move piles x k k' i k = (piles k).erase x := by
  rw [move, Function.update_of_ne hne, Function.update_self]

theorem move_other (hk : j ≠ k) (hk' : j ≠ k') : move piles x k k' i j = piles j := by
  rw [move, Function.update_of_ne hk', Function.update_of_ne hk]

theorem move_move (hkm : k ≠ m) (hmk : m ≠ k') (hkk : k ≠ k') :
    move (move piles x k m 0) x m k' i = move piles x k k' i := by
  funext j
  by_cases hj : j = k'
  · subst hj
    rw [move_to hmk, move_other hkk.symm hmk.symm, move_to hkk]
  by_cases hm : j = m
  · subst hm
    rw [move_from hj, move_to hkm, move_other hkm.symm hj, List.insertIdx_zero,
      List.erase_cons_head]
  rw [move_other hm hj]
  by_cases hk : j = k
  · subst hk
    rw [move_from hkm, move_from hkk]
  · rw [move_other hk hm, move_other hk hj]

namespace Spread

variable (h : Spread piles S) (hx : x ∈ piles k) (hne : k ≠ k') (hi : i ≤ (piles k').length)

include h hx hne hi

theorem mem_move : y ∈ move piles x k k' i j ↔ y = x ∧ j = k' ∨ y ≠ x ∧ y ∈ piles j := by
  by_cases hj : j = k'
  · subst hj
    rw [move_to hne, List.mem_insertIdx hi]
    constructor
    · rintro (rfl | hy)
      · exact .inl ⟨rfl, rfl⟩
      · refine .inr ⟨?_, hy⟩
        rintro rfl
        exact hne (h.unique hx hy)
    · rintro (⟨rfl, -⟩ | ⟨-, hy⟩)
      · exact .inl rfl
      · exact .inr hy
  · have hnot : ¬ (y = x ∧ j = k') := fun h => hj h.2
    rw [or_iff_right hnot]
    by_cases hk : j = k
    · subst hk
      rw [move_from hne, (h.nodup j).mem_erase_iff]
    · rw [move_other hk hj]
      refine ⟨fun hy => ⟨?_, hy⟩, And.right⟩
      rintro rfl
      exact hk (h.unique hy hx)

theorem move : Spread (move piles x k k' i) S where
  nodup j := by
    by_cases hj : j = k'
    · subst hj
      have hnot : x ∉ piles j := fun hmem => hne (h.unique hx hmem)
      rw [move_to hne]
      exact (List.perm_insertIdx x _ hi).nodup_iff.2 (List.nodup_cons.2 ⟨hnot, h.nodup j⟩)
    by_cases hk : j = k
    · subst hk
      rw [move_from hne]
      exact (h.nodup j).erase x
    · rw [move_other hk hj]
      exact h.nodup j
  unique {y a b} ha hb := by
    rw [h.mem_move hx hne hi] at ha hb
    rcases ha with ⟨rfl, rfl⟩ | ⟨hya, ha⟩
    · rcases hb with ⟨-, rfl⟩ | ⟨hyb, -⟩
      · rfl
      · exact absurd rfl hyb
    · rcases hb with ⟨hy, -⟩ | ⟨-, hb⟩
      · exact absurd hy hya
      · exact h.unique ha hb
  all y := by
    rw [← h.all y]
    simp only [h.mem_move hx hne hi]
    constructor
    · rintro ⟨j, ⟨rfl, -⟩ | ⟨-, hy⟩⟩
      · exact ⟨k, hx⟩
      · exact ⟨j, hy⟩
    · rintro ⟨j, hy⟩
      by_cases hyx : y = x
      · exact ⟨k', .inl ⟨hyx, rfl⟩⟩
      · exact ⟨j, .inr ⟨hyx, hy⟩⟩

end Spread

end Optee.Piles
