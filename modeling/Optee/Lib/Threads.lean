import Mathlib.Algebra.BigOperators.Fin
import Mathlib.Algebra.Order.BigOperators.Group.Finset
import Mathlib.Algebra.Order.BigOperators.Group.List
import Mathlib.Logic.Relation

/-!
# Threads and what they hold

Threads have stacks of frames. The total of what they hold of something changes with a step of one
thread by what its frames hold more or less (`total_update`).
-/

namespace Optee

variable {n : ℕ} {φ : Type}

/-- What the frames of all threads hold together. -/
def total (f : φ → ℕ) (th : Fin n → List φ) : ℕ := ∑ t, ((th t).map f).sum

variable {f g : φ → ℕ} {th : Fin n → List φ} {t u : Fin n} {l : List φ} {x y : φ}

theorem sum_update {ψ : Type} (f : ψ → ℕ) (th : Fin n → ψ) (t : Fin n) (x : ψ) :
    ∑ u, f (Function.update th t x u) + f (th t) = ∑ u, f (th u) + f x := by
  have hsplit : ∀ th' : Fin n → ψ, ∑ u, f (th' u)
      = f (th' t) + ∑ u ∈ Finset.univ.erase t, f (th' u) := fun th' =>
    (Finset.add_sum_erase _ _ (Finset.mem_univ t)).symm
  have hrest : ∑ u ∈ Finset.univ.erase t, f (Function.update th t x u)
      = ∑ u ∈ Finset.univ.erase t, f (th u) :=
    Finset.sum_congr rfl fun u hu => by rw [Function.update_of_ne (Finset.ne_of_mem_erase hu)]
  rw [hsplit, hsplit th, hrest, Function.update_self]
  omega

theorem le_sum {ψ : Type} (f : ψ → ℕ) (th : Fin n → ψ) (t : Fin n) : f (th t) ≤ ∑ u, f (th u) :=
  Finset.single_le_sum (f := fun u => f (th u)) (fun _ _ => Nat.zero_le _) (Finset.mem_univ t)

theorem total_update (f : φ → ℕ) (th : Fin n → List φ) (t : Fin n) (l : List φ) :
    total f (Function.update th t l) + ((th t).map f).sum = total f th + (l.map f).sum :=
  sum_update (fun l => (l.map f).sum) th t l

theorem total_update_append (l₁ : List φ) : total f (Function.update th t (l₁ ++ l))
      = total f (Function.update th t l) + (l₁.map f).sum := by
  have hall := total_update f th t (l₁ ++ l)
  have hrest := total_update f th t l
  rw [List.map_append, List.sum_append] at hall
  omega

theorem sum_le_total : ((th t).map f).sum ≤ total f th := le_sum (fun l => (l.map f).sum) th t

theorem le_total (h : x ∈ th t) : f x ≤ total f th :=
  (List.single_le_sum (fun _ _ => Nat.zero_le _) _ (List.mem_map_of_mem h)).trans sum_le_total

theorem total_eq_zero : total f th = 0 ↔ ∀ t, ∀ x ∈ th t, f x = 0 := by
  simp [total, List.sum_eq_zero_iff]

theorem total_nil : total f (fun _ : Fin n => ([] : List φ)) = 0 :=
  total_eq_zero.2 fun _ _ h => absurd h List.not_mem_nil

theorem total_mono (h : ∀ x, f x ≤ g x) : total f th ≤ total g th :=
  Finset.sum_le_sum fun _ _ => List.sum_le_sum fun x _ => h x

theorem total_add : total (fun x => f x + g x) th = total f th + total g th := by
  rw [total, total, total, ← Finset.sum_add_distrib]
  exact Finset.sum_congr rfl fun t _ => List.sum_map_add

theorem thread_eq_of_total_le_one (h : total f th ≤ 1) (hx : x ∈ th t) (hy : y ∈ th u)
    (hfx : 0 < f x) (hfy : 0 < f y) : t = u := by
  by_contra hne
  have hxt : f x ≤ ((th t).map f).sum :=
    List.single_le_sum (fun _ _ => Nat.zero_le _) _ (List.mem_map_of_mem hx)
  have hyu : f y ≤ ((th u).map f).sum :=
    List.single_le_sum (fun _ _ => Nat.zero_le _) _ (List.mem_map_of_mem hy)
  have hpair : ((th t).map f).sum + ((th u).map f).sum ≤ total f th := by
    have hsum := Finset.sum_pair (f := fun v => ((th v).map f).sum) hne
    exact hsum ▸ Finset.sum_le_sum_of_subset (Finset.subset_univ _)
  omega

/-! ## Waiting -/

theorem acyclic_of_rank {α β : Type} [Preorder β] {R : α → α → Prop} (rank : α → β)
    (h : ∀ a b, R a b → rank a < rank b) (a : α) : ¬ Relation.TransGen R a a := by
  intro hcycle
  have hlt : ∀ b, Relation.TransGen R a b → rank a < rank b := by
    intro b hb
    induction hb with
    | single hab => exact h _ _ hab
    | tail _ hbc ih => exact ih.trans (h _ _ hbc)
  exact lt_irrefl _ (hlt a hcycle)

end Optee
