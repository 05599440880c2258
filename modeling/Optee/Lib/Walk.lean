import Mathlib.Data.List.Chain

/-!
# Walks along a linked list

A search that goes from an element to the next while a condition on the two holds, and the insertion
of an element where it stops. A relation between neighbours is kept if the new element has it to the
two that it comes between (`isChain_insert`).
-/

namespace Optee

variable {α : Type}

/-- What a walk from `a` passes of the elements after it, and what it does not. -/
def walk (go : α → α → Bool) : α → List α → List α × List α
  | _, [] => ([], [])
  | a, b :: l => if go a b then (b :: (walk go b l).1, (walk go b l).2) else ([], b :: l)

variable {g : α → α → Bool} {R : α → α → Prop}

theorem walk_append (go : α → α → Bool) :
    ∀ (a : α) (l : List α), (walk go a l).1 ++ (walk go a l).2 = l
  | _, [] => rfl
  | a, b :: l => by
    rw [walk]
    split_ifs
    · exact congrArg (b :: ·) (walk_append go b l)
    · rfl

theorem go_of_walk {c : α} {r : List α} : ∀ {a : α} {l : List α}, (walk g a l).2 = c :: r →
    g ((walk g a l).1.getLastD a) c = false
  | _, [], h => by cases h
  | a, b :: l, h => by
    rw [walk] at h ⊢
    split_ifs at h ⊢ with hgo
    · rw [List.getLastD_cons]
      exact go_of_walk h
    · obtain ⟨rfl, -⟩ := List.cons.inj h
      exact Bool.eq_false_iff.2 hgo

theorem isChain_walk (go : α → α → Bool) : ∀ (a : α) (l : List α),
    (a :: (walk go a l).1).IsChain fun x y => go x y = true
  | _, [] => .singleton _
  | a, b :: l => by
    rw [walk]
    split_ifs with hgo
    · exact .cons_cons hgo (isChain_walk go b l)
    · exact .singleton _

theorem walk_spec {a : α} {l p r : List α} (h : walk g a l = (p, r)) :
    p ++ r = l ∧ ((a :: p).IsChain fun x y => g x y = true)
      ∧ ∀ b ∈ r.head?, g (p.getLastD a) b = false := by
  have happ := walk_append g a l
  have hpass := isChain_walk g a l
  rw [h] at happ hpass
  refine ⟨happ, hpass, fun b hb => ?_⟩
  obtain ⟨r', hr⟩ := List.head?_eq_some_iff.1 hb
  have hstop := go_of_walk (g := g) (a := a) (l := l) (by rw [h]; exact hr)
  rwa [h] at hstop

theorem walk_eq {p : α → Bool} : ∀ (a : α) {l r : List α}, (∀ b ∈ l, p b = true) →
    (∀ b ∈ r.head?, p b = false) → walk (fun _ b => p b) a (l ++ r) = (l, r)
  | _, [], [], _, _ => rfl
  | _, [], b :: r, _, hr => by
    rw [List.nil_append, walk, if_neg (by simp [hr b rfl])]
  | _, b :: l, r, hl, hr => by
    rw [List.cons_append, walk, if_pos (hl b List.mem_cons_self),
      walk_eq b (fun c hc => hl c (List.mem_cons_of_mem b hc)) hr]

theorem rel_of_isChain {a b : α} {p r : List α} (h : (a :: (p ++ r)).IsChain R) (hb : b ∈ r.head?) :
    R (p.getLastD a) b := by
  rw [← List.cons_append, List.isChain_append] at h
  refine h.2.2 _ ?_ b hb
  rw [List.getLast?_cons, ← List.getLastD_eq_getLast?]
  rfl

theorem isChain_insert {x : α} : ∀ {a : α} {p r : List α}, (a :: (p ++ r)).IsChain R →
    R (p.getLastD a) x → (∀ b ∈ r.head?, R x b) → (a :: (p ++ x :: r)).IsChain R
  | a, [], r, h, hl, hr => .cons_cons hl (List.isChain_cons.2 ⟨hr, (List.isChain_cons.1 h).2⟩)
  | a, b :: p, r, h, hl, hr => by
    obtain ⟨hab, h⟩ := List.isChain_cons_cons.1 h
    rw [List.getLastD_cons] at hl
    exact .cons_cons hab (isChain_insert h hl hr)

end Optee
