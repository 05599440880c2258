import Mathlib.Data.List.TakeWhile
import Optee.Proofs.VmSpace

/-!
# Splitting and merging of ranges

`split_vm_range` cuts regions at the ends of a range, which leaves the pages as they are (`Recut`).
After it the range consists of whole regions, one after the other (`Ranged`, `Chain`).
-/

namespace Optee.Vm

open Segments

variable {cfg : Config} {env : Env} {s s' : VmInfo} {reg r r' r0 q : VmRegion}
  {l l' l₁ l₂ before after : List VmRegion} {a b n pos va endVa len x y : ℕ} {cmpRegs : CmpRegs}

/-! ### Finding the range -/

theorem findVmRegion_some : ∀ {l before}, findVmRegion l x = some (before, r, after) →
    l = before ++ r :: after ∧ r.va ≤ x ∧ x < r.endVa
  | [], _, h => nomatch h
  | q :: l, before, h => by
    rw [findVmRegion] at h
    split_ifs at h with hq
    · cases h
      exact ⟨rfl, hq⟩
    · obtain ⟨⟨before', r', after'⟩, hrec, heq⟩ := Option.map_eq_some_iff.1 h
      cases heq
      obtain ⟨rfl, hr⟩ := findVmRegion_some hrec
      exact ⟨rfl, hr⟩

theorem findVmRegion_middle (h : RegionsApart (before ++ r :: after)) (h₁ : r.va ≤ x)
    (h₂ : x < r.endVa) :
    findVmRegion (before ++ r :: after) x = some (before, r, after) := by
  induction before with
  | nil => exact if_pos ⟨h₁, h₂⟩
  | cons q before ih =>
    obtain ⟨hq, h⟩ := List.pairwise_cons.1 h
    have := hq r (by simp)
    rw [List.cons_append, findVmRegion, if_neg (by omega), ih h]
    rfl

theorem vaRangeIsContiguous_iff : vaRangeIsContiguous cfg cmpRegs r0 after va len = true ↔
    va + len < 2 ^ cfg.bits ∧ contiguousLoop cmpRegs r0 (va + len) r0 after = true := by
  unfold vaRangeIsContiguous addOverflow
  split_ifs with h
  · exact ⟨fun hc => ⟨h, hc⟩, And.right⟩
  · exact ⟨nofun, fun hc => absurd hc.1 h⟩

end Optee.Vm
