import Mathlib.Data.List.Nodup
import Mathlib.Data.Nat.Notation

/-!
# Objects by address

Objects in memory as a list of addresses with what is there, in the order of a list the objects are
linked in.
-/

namespace Optee.Heap

variable {α : Type} {l : List (ℕ × α)} {a b : ℕ} {x : α} {f : α → α}

def modify (l : List (ℕ × α)) (a : ℕ) (f : α → α) : List (ℕ × α) :=
  l.map fun x => if x.1 = a then (x.1, f x.2) else x

def remove (l : List (ℕ × α)) (a : ℕ) : List (ℕ × α) := l.filter fun x => x.1 ≠ a

theorem lookup_cons : ((a, x) :: l).lookup b = if b = a then some x else l.lookup b := by
  by_cases hb : b = a
  · simp [hb]
  · have hne : (b == a) = false := by simpa using hb
    simp only [List.lookup_cons, hne, hb, ↓reduceIte]

theorem lookup_modify :
    (modify l a f).lookup b = if b = a then (l.lookup b).map f else l.lookup b := by
  induction l with
  | nil => simp [modify]
  | cons y l ih =>
    obtain ⟨c, y⟩ := y
    simp only [modify, List.map_cons] at ih ⊢
    by_cases hb : b = c
    · subst hb
      by_cases ha : b = a <;> simp [ha]
    · have hne : (b == c) = false := by simpa using hb
      by_cases hc : c = a
      · simp only [if_pos hc, List.lookup_cons, hne]
        exact ih
      · simp only [if_neg hc, List.lookup_cons, hne]
        exact ih

theorem lookup_remove : (remove l a).lookup b = if b = a then none else l.lookup b := by
  induction l with
  | nil => simp [remove]
  | cons y l ih =>
    obtain ⟨c, y⟩ := y
    simp only [remove, List.filter_cons] at ih ⊢
    by_cases hb : b = c
    · subst hb
      by_cases ha : b = a
      · subst ha
        simpa using ih
      · simp [ha]
    · have hne : (b == c) = false := by simpa using hb
      by_cases hc : c = a
      · simp only [hc, ne_eq, not_true_eq_false, decide_false, Bool.false_eq_true, ↓reduceIte, ih,
          List.lookup_cons, hc ▸ hne]
      · simp only [ne_eq, hc, not_false_eq_true, decide_true, ↓reduceIte, List.lookup_cons, hne]
        exact ih

theorem mem_of_lookup (h : l.lookup a = some x) : (a, x) ∈ l := by
  induction l with
  | nil => cases h
  | cons y l ih =>
    obtain ⟨c, y⟩ := y
    by_cases ha : a = c
    · subst ha
      simp only [List.lookup_cons, beq_self_eq_true, Option.some.injEq] at h
      exact h ▸ List.mem_cons_self
    · have hne : (a == c) = false := by simpa using ha
      simp only [List.lookup_cons, hne] at h
      exact List.mem_cons_of_mem _ (ih h)

end Optee.Heap
