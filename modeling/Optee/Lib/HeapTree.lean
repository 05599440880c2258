import Mathlib.Data.Nat.Bits
import Mathlib.Data.List.Basic
import Mathlib.Tactic.Ring

/-!
# Binary trees with heap numbering

The root has number 1 and the children of number `k` have numbers `2 * k` and `2 * k + 1`, so the
path to a number is its binary expansion without the leading one (`pathOf`). `Shape m k t` says that
the tree `t`, hung at number `k`, holds exactly the numbers up to `m`.
-/

namespace Optee

inductive BinTree (α : Type*) where
  | nil
  | node (a : α) (l r : BinTree α)
  deriving DecidableEq, Repr

namespace BinTree

variable {α : Type*}

/-- The child on the side of a turn. -/
def child (b : Bool) : BinTree α → BinTree α
  | nil => nil
  | node _ l r => if b then r else l

def root? : BinTree α → Option α
  | nil => none
  | node a _ _ => some a

/-- The node at the end of a path. -/
def get : List Bool → BinTree α → Option α
  | _, nil => none
  | [], node a _ _ => some a
  | b :: p, node _ l r => get p (if b then r else l)

/-- The last node met on the way along a path. -/
def closest : List Bool → BinTree α → Option α
  | _, nil => none
  | [], node a _ _ => some a
  | b :: p, node a l r => (closest p (if b then r else l)).or (some a)

/-- The tree with the node at the end of a path changed. -/
def modify (f : α → α) : List Bool → BinTree α → BinTree α
  | _, nil => nil
  | [], node a l r => node (f a) l r
  | true :: p, node a l r => node a l (modify f p r)
  | false :: p, node a l r => node a (modify f p l) r

/-- The tree with a leaf hung at the end of a path, where the path ends just outside the tree. -/
def insert (a : α) : List Bool → BinTree α → BinTree α
  | [], nil => node a nil nil
  | _ :: _, nil => nil
  | [], node b l r => node b l r
  | true :: p, node b l r => node b l (insert a p r)
  | false :: p, node b l r => node b (insert a p l) r

/-- The tree without the subtree at the end of a path. -/
def remove : List Bool → BinTree α → BinTree α
  | _, nil => nil
  | [], node _ _ _ => nil
  | true :: p, node a l r => node a l (remove p r)
  | false :: p, node a l r => node a (remove p l) r

def any (f : α → Bool) : BinTree α → Bool
  | nil => false
  | node a l r => f a || l.any f || r.any f

def map {β : Type*} (f : α → β) : BinTree α → BinTree β
  | nil => nil
  | node a l r => node (f a) (l.map f) (r.map f)

@[simp] theorem get_nil (p : List Bool) : (nil : BinTree α).get p = none := by cases p <;> rfl

@[simp] theorem get_root (a : α) (l r : BinTree α) : (node a l r).get [] = some a := rfl

@[simp] theorem get_cons (a : α) (l r : BinTree α) (b : Bool) (p : List Bool) :
    (node a l r).get (b :: p) = get p (if b then r else l) := rfl

@[simp] theorem modify_nil (f : α → α) (p : List Bool) : (nil : BinTree α).modify f p = nil := by
  cases p <;> rfl

@[simp] theorem remove_nil (p : List Bool) : (nil : BinTree α).remove p = nil := by
  cases p <;> rfl

theorem get_modify (f : α → α) : ∀ (p q : List Bool) (t : BinTree α),
    (t.modify f p).get q = if q = p then (t.get q).map f else t.get q
  | p, q, nil => by simp
  | [], [], node a l r => by simp [modify]
  | [], b :: q, node a l r => by simp [modify]
  | b :: p, [], node a l r => by cases b <;> simp [modify]
  | b :: p, c :: q, node a l r => by
    cases b <;> cases c <;> simp [modify, get_modify f p q]

theorem get_insert (a : α) : ∀ (p q : List Bool) (t : BinTree α), t.get p = none →
    (∀ p' b, p = p' ++ [b] → (t.get p').isSome) →
    (t.insert a p).get q = if q = p then some a else t.get q
  | [], [], nil, _, _ => by simp [insert]
  | [], b :: q, nil, _, _ => by cases b <;> simp [insert]
  | b :: p, q, nil, _, h => by
    have hp : b :: p = (b :: p).dropLast ++ [(b :: p).getLast (List.cons_ne_nil b p)] :=
      (List.dropLast_append_getLast _).symm
    simpa using h _ _ hp
  | [], q, node c l r, h, _ => by simp at h
  | b :: p, [], node c l r, h, _ => by cases b <;> simp [insert]
  | b :: p, c :: q, node d l r, h, hp => by
    have hp' : ∀ p' e, p = p' ++ [e] → ((if b then r else l).get p').isSome := by
      intro p' e he
      have := hp (b :: p') e (by simp [he])
      simpa using this
    have ih := get_insert a p q (if b then r else l) (by simpa using h) hp'
    cases b <;> cases c <;> simp_all [insert]

theorem get_remove : ∀ (p q : List Bool) (t : BinTree α), (∀ b, t.get (p ++ [b]) = none) →
    (t.remove p).get q = if q = p then none else t.get q
  | p, q, nil, _ => by simp
  | [], [], node a l r, _ => by simp [remove]
  | [], b :: q, node a l r, h => by
    have hb : (if b then r else l).root? = none := by
      have := h b
      cases hc : (if b then r else l) <;> simp_all [root?]
    have hnil : (if b then r else l) = nil := by
      cases hc : (if b then r else l) <;> simp_all [root?]
    simp [remove, hnil]
  | b :: p, [], node a l r, _ => by cases b <;> simp [remove]
  | b :: p, c :: q, node a l r, h => by
    have hp : ∀ e, (if b then r else l).get (p ++ [e]) = none := fun e => by simpa using h e
    have ih := get_remove p q (if b then r else l) hp
    cases b <;> cases c <;> simp_all [remove]

variable {β : Type*} {t : BinTree α} {a : α} {k m : ℕ} {p : List Bool} {idOf : α → ℕ}

theorem get_map (f : α → β) : ∀ (p : List Bool) (t : BinTree α),
    (t.map f).get p = (t.get p).map f
  | p, nil => by simp [map]
  | [], node a l r => rfl
  | b :: p, node a l r => by cases b <;> simp [map, get_map f p]

theorem modify_insert (f : α → α) (a : α) : ∀ (p : List Bool) (t : BinTree α), t.get p = none →
    (t.insert a p).modify f p = t.insert (f a) p
  | [], nil, _ => rfl
  | _ :: _, nil, _ => by simp [insert]
  | [], node b l r, h => by simp at h
  | true :: p, node b l r, h => by
    simp only [insert, modify, modify_insert f a p r (by simpa using h)]
  | false :: p, node b l r, h => by
    simp only [insert, modify, modify_insert f a p l (by simpa using h)]

theorem any_eq_true {q : α → Bool} : ∀ {t : BinTree α},
    t.any q = true ↔ ∃ p a, t.get p = some a ∧ q a = true
  | nil => by simp [any]
  | node b l r => by
    simp only [any, Bool.or_eq_true, any_eq_true (t := l), any_eq_true (t := r)]
    constructor
    · rintro ((h | ⟨p, a, hp, ha⟩) | ⟨p, a, hp, ha⟩)
      · exact ⟨[], b, rfl, h⟩
      · exact ⟨false :: p, a, by simpa using hp, ha⟩
      · exact ⟨true :: p, a, by simpa using hp, ha⟩
    · rintro ⟨p, a, hp, ha⟩
      cases p with
      | nil =>
        simp only [get_root, Option.some.injEq] at hp
        exact .inl (.inl (hp ▸ ha))
      | cons c p =>
        cases c
        · exact .inl (.inr ⟨p, a, by simpa using hp, ha⟩)
        · exact .inr ⟨p, a, by simpa using hp, ha⟩

theorem any_eq_false {q : α → Bool} : t.any q = false ↔ ∀ p a, t.get p = some a → q a = false := by
  rw [← Bool.not_eq_true, any_eq_true]
  simp

theorem closest_of_get : ∀ (p : List Bool) (t : BinTree α), t.get p = some a →
    t.closest p = some a
  | _, nil, h => by simp at h
  | [], node _ _ _, h => by simpa [closest] using h
  | b :: p, node _ l r, h => by
    simp only [closest, closest_of_get p _ (by simpa using h), Option.some_or]

theorem get_of_closest :
    ∀ (p : List Bool) (t : BinTree α), t.closest p = some a → ∃ q, t.get q = some a
  | _, nil, h => by simp [closest] at h
  | [], node _ _ _, h => ⟨[], h⟩
  | b :: p, node c l r, h => by
    rcases Option.or_eq_some_iff.1 h with h | ⟨-, h⟩
    · obtain ⟨q, hq⟩ := get_of_closest p _ h
      exact ⟨b :: q, hq⟩
    · exact ⟨[], h⟩

theorem closest_node (p : List Bool) (a : α) (l r : BinTree α) :
    ∃ b, (node a l r).closest p = some b := by
  cases p with
  | nil => exact ⟨a, rfl⟩
  | cons b p => cases h : closest p (if b then r else l) <;> simp [closest, h]

theorem closest_append : ∀ (p : List Bool) (b : Bool) (t : BinTree α),
    t.get p = some a → t.get (p ++ [b]) = none → t.closest (p ++ [b]) = some a
  | p, b, nil, h, _ => by simp at h
  | [], b, node c l r, h, hn => by
    simp only [get_root, Option.some.injEq] at h
    simp only [List.nil_append, get_cons] at hn
    have hcl : (if b then r else l).closest [] = none := by
      cases hc : (if b then r else l) with
      | nil => rfl
      | node d l' r' => simp [hc] at hn
    simp [closest, hcl, h]
  | c :: p, b, node d l r, h, hn => by
    simp only [List.cons_append, get_cons] at h hn
    simp [closest, closest_append p b _ h hn]

/-! ## Numbers and paths -/

/-- The turns that lead from the root to a number: its bits after the leading one. -/
def pathOf (id : ℕ) : List Bool := (List.range (Nat.log2 id)).reverse.map id.testBit

/-- The number at the end of a path from number `k`. -/
def idFrom (k : ℕ) (p : List Bool) : ℕ := p.foldl (fun a b => 2 * a + b.toNat) k

@[simp] theorem idFrom_nil (k : ℕ) : idFrom k [] = k := rfl

@[simp] theorem idFrom_cons (k : ℕ) (b : Bool) (p : List Bool) :
    idFrom k (b :: p) = idFrom (2 * k + b.toNat) p := rfl

theorem idFrom_append (k : ℕ) (p q : List Bool) : idFrom k (p ++ q) = idFrom (idFrom k p) q := by
  simp [idFrom]

theorem le_idFrom : ∀ (p : List Bool) (k : ℕ), k ≤ idFrom k p
  | [], k => le_rfl
  | b :: p, k => by
    have := le_idFrom p (2 * k + b.toNat)
    simp only [idFrom_cons]
    omega

@[simp] theorem pathOf_one : pathOf 1 = [] := by decide

theorem pathOf_double (hk : 1 ≤ k) (b : Bool) : pathOf (2 * k + b.toNat) = pathOf k ++ [b] := by
  have hlog : Nat.log2 (2 * k + b.toNat) = Nat.log2 k + 1 := by
    rw [Nat.log2_def, if_pos (by omega)]
    congr 2
    cases b <;> simp only [Bool.toNat_true, Bool.toNat_false] <;> omega
  have hdiv : (2 * k + b.toNat) / 2 = k := by
    cases b <;> simp only [Bool.toNat_true, Bool.toNat_false] <;> omega
  have hzero : (2 * k + b.toNat).testBit 0 = b := by
    cases b <;> simp [Nat.testBit_zero]
  have hsucc : ∀ i, (2 * k + b.toNat).testBit (i + 1) = k.testBit i := by
    intro i
    rw [Nat.testBit_succ, hdiv]
  unfold pathOf
  rw [hlog, List.range_succ_eq_map]
  simp only [List.reverse_cons, List.map_append, List.map_cons, List.map_nil, hzero,
    ← List.map_reverse, List.map_map]
  congr 1
  refine List.map_congr_left fun i _ => ?_
  simp [hsucc]

theorem pathOf_idFrom_aux : ∀ (p : List Bool) (k : ℕ), 1 ≤ k → pathOf (idFrom k p) = pathOf k ++ p
  | [], k, _ => by simp
  | b :: p, k, hk => by
    rw [idFrom_cons, pathOf_idFrom_aux p _ (by omega), pathOf_double hk]
    simp

theorem pathOf_idFrom (p : List Bool) : pathOf (idFrom 1 p) = p := by
  rw [pathOf_idFrom_aux p 1 le_rfl, pathOf_one, List.nil_append]

theorem idFrom_pathOf {id : ℕ} (h : 1 ≤ id) : idFrom 1 (pathOf id) = id := by
  induction id using Nat.strong_induction_on with
  | _ id ih =>
    rcases Nat.eq_or_lt_of_le h with h1 | h1
    · subst h1
      simp
    · have hid : id = 2 * (id / 2) + (id.testBit 0).toNat := by
        rw [Nat.testBit_zero]
        rcases Nat.mod_two_eq_zero_or_one id with h2 | h2 <;> simp [h2] <;> omega
      have hp := pathOf_double (k := id / 2) (by omega) (id.testBit 0)
      rw [← hid] at hp
      rw [hp, idFrom_append, ih (id / 2) (by omega) (by omega)]
      simp only [idFrom_cons, idFrom_nil]
      exact hid.symm

theorem pathOf_inj {i j : ℕ} (hi : 1 ≤ i) (hj : 1 ≤ j) : pathOf i = pathOf j ↔ i = j := by
  refine ⟨fun h => ?_, fun h => by rw [h]⟩
  rw [← idFrom_pathOf hi, ← idFrom_pathOf hj, h]

theorem idFrom_inj (hk : 1 ≤ k) {q : List Bool} : idFrom k p = idFrom k q ↔ p = q := by
  refine ⟨fun h => ?_, fun h => by rw [h]⟩
  have := congrArg pathOf h
  rw [pathOf_idFrom_aux p k hk, pathOf_idFrom_aux q k hk] at this
  exact List.append_cancel_left this

theorem idFrom_children_ne (hk : 1 ≤ k) (p q : List Bool) :
    idFrom (2 * k) p ≠ idFrom (2 * k + 1) q := by
  intro h
  have h' : idFrom k (false :: p) = idFrom k (true :: q) := by simpa using h
  simpa using (idFrom_inj hk).1 h'

/-! ## Trees that hold the numbers up to `m` -/

/-- The tree, hung at number `k`, holds exactly the numbers up to `m`. -/
def Shape (m : ℕ) : ℕ → BinTree α → Prop
  | k, nil => m < k
  | k, node _ l r => k ≤ m ∧ Shape m (2 * k) l ∧ Shape m (2 * k + 1) r

theorem shape_iff : ∀ {k : ℕ} {t : BinTree α}, Shape m k t ↔ ∀ p, (t.get p).isSome ↔ idFrom k p ≤ m
  | k, nil => by
    simp only [Shape, get_nil, Option.isSome_none, Bool.false_eq_true, false_iff, not_le]
    exact ⟨fun h p => h.trans_le (le_idFrom p k), fun h => h []⟩
  | k, node a l r => by
    rw [Shape, shape_iff, shape_iff]
    constructor
    · rintro ⟨hk, hl, hr⟩ (_ | ⟨_ | _, p⟩)
      · simpa using hk
      · simpa using hl p
      · simpa using hr p
    · intro h
      exact ⟨by simpa using h [], fun p => by simpa using h (false :: p),
        fun p => by simpa using h (true :: p)⟩

theorem Shape.get_isSome (h : Shape m k t) (p : List Bool) : (t.get p).isSome ↔ idFrom k p ≤ m :=
  shape_iff.1 h p

theorem Shape.get_eq_none (h : Shape m k t) (hp : m < idFrom k p) : t.get p = none := by
  have := h.get_isSome p
  rw [← Option.not_isSome_iff_eq_none, this]
  omega

theorem Shape.exists_get (h : Shape m k t) (hp : idFrom k p ≤ m) : ∃ a, t.get p = some a :=
  Option.isSome_iff_exists.1 ((h.get_isSome p).2 hp)

theorem Shape.modify (h : Shape m k t) (f : α → α) (p : List Bool) : Shape m k (t.modify f p) := by
  refine shape_iff.2 fun q => ?_
  rw [get_modify, ← h.get_isSome q]
  split_ifs <;> simp

theorem shape_map (f : α → β) : Shape m k (t.map f) ↔ Shape m k t := by
  simp only [shape_iff, get_map, Option.isSome_map]

theorem Shape.insert (h : Shape m k t) (a : α) (hk : 1 ≤ k) (hp : idFrom k p = m + 1)
    : Shape (m + 1) k (t.insert a p) := by
  have hparent : ∀ p' b, p = p' ++ [b] → (t.get p').isSome := by
    rintro p' b rfl
    have hle := le_idFrom p' k
    simp only [idFrom_append, idFrom_cons, idFrom_nil] at hp
    rw [h.get_isSome]
    omega
  refine shape_iff.2 fun q => ?_
  rw [get_insert a p q t (h.get_eq_none (by omega)) hparent]
  split_ifs with hq
  · simp [hq, hp]
  · have hne : idFrom k q ≠ m + 1 := fun he => hq ((idFrom_inj hk).1 (he.trans hp.symm))
    rw [h.get_isSome]
    omega

theorem Shape.remove (h : Shape (m + 1) k t) (hk : 1 ≤ k)
    (hp : idFrom k p = m + 1) : Shape m k (t.remove p) := by
  have hleaf : ∀ b, t.get (p ++ [b]) = none := fun b => h.get_eq_none (by
    simp only [idFrom_append, idFrom_cons, idFrom_nil]
    omega)
  refine shape_iff.2 fun q => ?_
  rw [get_remove p q t hleaf]
  split_ifs with hq
  · simp [hq, hp]
  · have hne : idFrom k q ≠ m + 1 := fun he => hq ((idFrom_inj hk).1 (he.trans hp.symm))
    rw [h.get_isSome]
    omega

/-- A tree, hung at number `k`, whose nodes carry their own number. -/
def Numbered (idOf : α → ℕ) : ℕ → BinTree α → Prop
  | _, nil => True
  | k, node a l r => idOf a = k ∧ Numbered idOf (2 * k) l ∧ Numbered idOf (2 * k + 1) r

theorem numbered_map {idOf : β → ℕ} (f : α → β) : ∀ {k : ℕ} {t : BinTree α},
    Numbered idOf k (t.map f) ↔ Numbered (fun a => idOf (f a)) k t
  | _, nil => Iff.rfl
  | _, node _ _ _ => and_congr Iff.rfl (and_congr (numbered_map f) (numbered_map f))

theorem Numbered.get : ∀ (p : List Bool) {k : ℕ} {t : BinTree α},
    Numbered idOf k t → t.get p = some a → idOf a = idFrom k p
  | p, k, nil, _, h => by simp at h
  | [], k, node b l r, hn, h => by
    simp only [get_root, Option.some.injEq] at h
    rw [← h]
    exact hn.1
  | true :: p, k, node b l r, hn, h => Numbered.get p hn.2.2 (by simpa using h)
  | false :: p, k, node b l r, hn, h => Numbered.get p hn.2.1 (by simpa using h)

theorem Numbered.modify {f : α → α} : ∀ (p : List Bool) {k : ℕ} {t : BinTree α},
    Numbered idOf k t → (∀ a, t.get p = some a → idOf (f a) = idOf a) →
      Numbered idOf k (t.modify f p)
  | p, k, nil, h, _ => by simpa using h
  | [], k, node a l r, h, hf => ⟨(hf a rfl).trans h.1, h.2⟩
  | true :: p, k, node a l r, h, hf =>
    ⟨h.1, h.2.1, Numbered.modify p h.2.2 fun b hb => hf b (by simpa using hb)⟩
  | false :: p, k, node a l r, h, hf =>
    ⟨h.1, Numbered.modify p h.2.1 fun b hb => hf b (by simpa using hb), h.2.2⟩

theorem Numbered.insert : ∀ (p : List Bool) {k : ℕ} {t : BinTree α},
    Numbered idOf k t → idOf a = idFrom k p → Numbered idOf k (t.insert a p)
  | [], _, nil, _, ha => ⟨ha, trivial, trivial⟩
  | _ :: _, _, nil, _, _ => trivial
  | [], _, node _ _ _, h, _ => h
  | true :: p, k, node b l r, h, ha => ⟨h.1, h.2.1, Numbered.insert p h.2.2 ha⟩
  | false :: p, k, node b l r, h, ha => ⟨h.1, Numbered.insert p h.2.1 ha, h.2.2⟩

theorem Numbered.remove : ∀ (p : List Bool) {k : ℕ} {t : BinTree α},
    Numbered idOf k t → Numbered idOf k (t.remove p)
  | p, k, nil, h => by simpa using h
  | [], k, node b l r, h => trivial
  | true :: p, k, node b l r, h => ⟨h.1, h.2.1, Numbered.remove p h.2.2⟩
  | false :: p, k, node b l r, h => ⟨h.1, Numbered.remove p h.2.1, h.2.2⟩

theorem ext_get : ∀ {t t' : BinTree α}, (∀ p, t.get p = t'.get p) → t = t'
  | nil, nil, _ => rfl
  | nil, node a l r, hg => by simpa using hg []
  | node a l r, nil, hg => by simpa using hg []
  | node a l r, node a' l' r', hg => by
    have ha : a = a' := by simpa using hg []
    have hl : l = l' := ext_get fun p => by simpa using hg (false :: p)
    have hr : r = r' := ext_get fun p => by simpa using hg (true :: p)
    rw [ha, hl, hr]

/-! ## Cutting a tree back -/

/-- The tree, hung at number `i`, without the numbers above `k`. -/
def cut (k : ℕ) : ℕ → BinTree α → BinTree α
  | _, nil => nil
  | i, node a l r => if i ≤ k then node a (cut k (2 * i) l) (cut k (2 * i + 1) r) else nil

theorem get_cut : ∀ (p : List Bool) {i : ℕ} {t : BinTree α},
    (t.cut k i).get p = if idFrom i p ≤ k then t.get p else none
  | p, i, nil => by simp [cut]
  | [], i, node a l r => by
    by_cases hi : i ≤ k <;> simp [cut, hi]
  | b :: p, i, node a l r => by
    have hle := le_idFrom p (2 * i + b.toNat)
    by_cases hi : i ≤ k
    · cases b <;> simp [cut, hi, get_cut p]
    · have hp : ¬ idFrom (2 * i + b.toNat) p ≤ k := by omega
      simp [cut, hi, hp]

theorem Shape.cut {i : ℕ} (h : Shape m i t) : Shape (min k m) i (t.cut k i) := by
  refine shape_iff.2 fun p => ?_
  rw [get_cut, le_min_iff, ← h.get_isSome p]
  split_ifs with hk <;> simp [hk]

theorem Numbered.cut : ∀ {i : ℕ} {t : BinTree α}, Numbered idOf i t →
    Numbered idOf i (t.cut k i)
  | _, nil, _ => trivial
  | i, node a l r, h => by
    simp only [BinTree.cut]
    split_ifs with hi
    · exact ⟨h.1, h.2.1.cut, h.2.2.cut⟩
    · trivial

end BinTree

end Optee
