import Mathlib.Data.List.Basic
import Mathlib.Algebra.Group.Nat.Defs
import Mathlib.Data.Nat.Basic
import Mathlib.Tactic.Common

/-!
# Segments

Lists of things that each cover an interval of addresses, from `lo` to below `hi`. What such a list
says about an address is what the first thing that covers it says.
-/

namespace Optee.Segments

variable {ρ β : Type} (lo hi : ρ → ℕ) (v : ρ → ℕ → β)

/-- What is said about an address. -/
def look (l : List ρ) (x : ℕ) : Option β :=
  (l.find? fun r => decide (lo r ≤ x ∧ x < hi r)).map fun r => v r x

/-- Every interval ends before the later ones begin. -/
def Apart (l : List ρ) : Prop := l.Pairwise fun a b => hi a ≤ lo b

variable {lo hi v} {l l' l₁ l₂ m m' : List ρ} {r r₁ r₂ : ρ} {x y : ℕ} {b : β}

theorem look_append : look lo hi v (l₁ ++ l₂) x = (look lo hi v l₁ x).or (look lo hi v l₂ x) := by
  simp only [look, List.find?_append]
  cases l₁.find? _ <;> rfl

theorem look_cons : look lo hi v (r :: l) x
    = if lo r ≤ x ∧ x < hi r then some (v r x) else look lo hi v l x := by
  simp only [look, List.find?_cons]
  split_ifs with h <;> simp [h]

theorem look_eq_none (h : ∀ r ∈ l, ¬ (lo r ≤ x ∧ x < hi r)) : look lo hi v l x = none := by
  simp only [look, Option.map_eq_none_iff, List.find?_eq_none, decide_eq_true_eq]
  exact h

theorem exists_of_look (h : look lo hi v l x = some b) :
    ∃ r ∈ l, lo r ≤ x ∧ x < hi r ∧ v r x = b := by
  simp only [look, Option.map_eq_some_iff] at h
  obtain ⟨r, hr, rfl⟩ := h
  have hc := List.find?_some hr
  simp only [decide_eq_true_eq] at hc
  exact ⟨r, List.mem_of_find?_eq_some hr, hc.1, hc.2, rfl⟩

theorem look_of_mem (ha : Apart lo hi l) (hr : r ∈ l) (h₁ : lo r ≤ x) (h₂ : x < hi r) :
    look lo hi v l x = some (v r x) := by
  obtain ⟨l₁, l₂, rfl⟩ := List.append_of_mem hr
  rw [Apart, List.pairwise_append] at ha
  have hno : look lo hi v l₁ x = none := look_eq_none fun q hq hc => by
    have := ha.2.2 q hq r List.mem_cons_self
    omega
  rw [look_append, hno, look_cons, if_pos ⟨h₁, h₂⟩]
  rfl

theorem Apart.insert (h : Apart lo hi (l₁ ++ l₂)) (h₁ : ∀ q ∈ l₁, hi q ≤ lo r)
    (h₂ : ∀ q ∈ l₂, hi r ≤ lo q) : Apart lo hi (l₁ ++ r :: l₂) := by
  rw [Apart, List.pairwise_append] at h ⊢
  refine ⟨h.1, List.pairwise_cons.2 ⟨h₂, h.2.1⟩, fun a ha q hq => ?_⟩
  rcases List.mem_cons.1 hq with rfl | hq
  · exact h₁ a ha
  · exact h.2.2 a ha q hq

theorem Apart.sublist (h : Apart lo hi l) (hs : l'.Sublist l) : Apart lo hi l' :=
  List.Pairwise.sublist hs h

end Optee.Segments
