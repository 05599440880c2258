import Mathlib
import Optee.Lib.Run
import Optee.PgtCache

/-!
# Page tables that contexts share

Whatever the calls do to the lists they do table by table (`Shift`), which keeps every table in one
place and the entries of a table that is not free those of its owner (`Inv`, `pool_isolated`).
-/

namespace Optee.PgtCache

open Vm (VmRegion)

variable {ι : Type} [DecidableEq ι] {cfg : Config} {s s₁ s' : State ι} {p q n i va idx val : ℕ}
  {c : ι} {k k' : Place ι} {t : Pgt ι} {l vas : List ℕ} {hits : Pgt ι → Bool}

namespace State

omit [DecidableEq ι]

@[simp] theorem setTable_self : (s.setTable p t).table p = t := by
  simp only [setTable, Function.update_self]

theorem setTable_of_ne (h : q ≠ p) : (s.setTable p t).table q = s.table q := by
  simp only [setTable, Function.update_of_ne h]

end State

namespace State

@[simp] theorem move_table : (s.move p k k' i).table = s.table := rfl

@[simp] theorem move_lists : (s.move p k k' i).lists = Piles.move s.lists p k k' i := rfl

end State

/-! ### What happens to one table -/

/-- A table that nobody uses. -/
def Place.isFree : Place ι → Bool
  | .free _ => true
  | _ => false

omit [DecidableEq ι] in
theorem Place.ne_free (h : k.isFree = false) : k ≠ .free n := by
  rintro rfl
  cases h

/-- What a call does to one table. -/
inductive Shift (s s' : State ι) : Prop
  /-- To another list, as it is. -/
  | carry (p : ℕ) (k k' : Place ι) (i : ℕ) (hp : p ∈ s.lists k) (hne : k ≠ k')
  (hi : i ≤ (s.lists k').length)
    (hk : k.isFree = false) (hk' : k'.isFree = false) (howner : ∀ c, k' = .ctx c →
    (s.table p).ctx = some c) (hlists : s'.lists = Piles.move s.lists p k k' i)
    (htable : s'.table = s.table)
  /-- To a free list. -/
  | release (p : ℕ) (k : Place ι) (n : ℕ) (hp : p ∈ s.lists k) (hk : k.isFree = false)
    (hlists : s'.lists = Piles.move s.lists p k (.free n) 0) (htable : ∀ q, q ≠ p →
    s'.table q = s.table q)
  /-- To the list of a context, with no entries. -/
  | fresh (p : ℕ) (k : Place ι) (c : ι) (i : ℕ) (hp : p ∈ s.lists k) (hne : k ≠ .ctx c)
    (hi : i ≤ (s.lists (.ctx c)).length) (hlists : s'.lists = Piles.move s.lists p k (.ctx c) i)
    (htable : ∀ q, q ≠ p → s'.table q = s.table q) (howner : (s'.table p).ctx = some c)
    (hzero : (s'.table p).tbl = fun _ => 0)

/-- Tables go from list to list. -/
abbrev Shifts : State ι → State ι → Prop := Relation.ReflTransGen Shift

omit [DecidableEq ι] in
theorem firstFree_mem (h : firstFree cfg s = some (n, p)) : p ∈ s.lists (.free n) := by
  obtain ⟨m, -, hm⟩ := List.exists_of_findSome?_eq_some h
  obtain ⟨q, hq, heq⟩ := Option.map_eq_some_iff.1 hm
  cases heq
  exact List.mem_of_mem_head? hq

theorem popFromFreeList_spec (h : popFromFreeList cfg s = some (s', p)) :
    ∃ n, p ∈ s.lists (.free n) ∧ s'.lists = Piles.move s.lists p (.free n) .held 0 ∧
      s'.table = Function.update s.table p (s.table p).cleared := by
  rw [popFromFreeList] at h
  split at h
  · cases h
  next n q hfree =>
    obtain ⟨rfl, rfl⟩ := Prod.mk.inj (Option.some.inj h)
    refine ⟨n, firstFree_mem hfree, ?_, ?_⟩
    · split <;> rfl
    · split <;> rfl

theorem popFromCacheList_some (h : popFromCacheList va c s = (s', some p)) :
    p ∈ s.lists .cache ∧ matchPgt (s.table p) va c = true ∧ s' = s.move p .cache .held 0 := by
  rw [popFromCacheList] at h
  split at h
  · cases h
  next pgt rest hcache =>
    split at h
    next hmatch =>
      cases h
      exact ⟨hcache ▸ List.mem_cons_self, hmatch, rfl⟩
    next =>
      split at h
      · cases h
      next q hfind =>
        cases h
        have hmatch := List.find?_some (p := fun p => matchPgt (s.table p) va c) hfind
        exact ⟨hcache ▸ List.mem_cons_of_mem pgt (List.mem_of_find?_eq_some hfind), hmatch, rfl⟩

theorem popFromCacheList_none (h : popFromCacheList va c s = (s', none)) : s' = s := by
  rw [popFromCacheList] at h
  split at h
  · cases h
    rfl
  · split at h
    · cases h
    · split at h
      · cases h
        rfl
      · cases h

omit [DecidableEq ι] in
theorem leastUsed_mem (s : State ι) : ∀ (l : List ℕ) (p : ℕ), leastUsed cfg s p l ∈ p :: l
  | [], p => List.mem_cons_self
  | q :: l, p => by
    rw [leastUsed]
    split
    · exact List.mem_cons_of_mem p (leastUsed_mem s l q)
    · rcases List.mem_cons.1 (leastUsed_mem s l p) with h | h
      · rw [h]
        exact List.mem_cons_self
      · exact List.mem_cons_of_mem p (List.mem_cons_of_mem q h)

theorem popLeastUsedFromCacheList_spec (h : popLeastUsedFromCacheList cfg s = some (s', p)) :
    p ∈ s.lists .cache ∧ s' = s.move p .cache .held 0 := by
  rw [popLeastUsedFromCacheList] at h
  split at h
  · cases h
  next pgt rest hcache =>
    obtain ⟨rfl, rfl⟩ := Prod.mk.inj (Option.some.inj h)
    exact ⟨hcache ▸ leastUsed_mem s rest pgt, rfl⟩

theorem popFromSomeList_spec (h : popFromSomeList cfg va c s = some (s', p)) :
    ∃ k, p ∈ s.lists k ∧ k ≠ .held ∧ k ≠ .ctx c ∧ s'.lists = Piles.move s.lists p k .held 0 ∧
      (∀ q, q ≠ p → s'.table q = s.table q) ∧ (s'.table p).ctx = some c ∧
      (k = .cache ∧ s'.table = s.table ∨ (s'.table p).tbl = fun _ => 0) := by
  rw [popFromSomeList] at h
  split at h
  next s₁ q hcache =>
    cases h
    obtain ⟨hp, hmatch, rfl⟩ := popFromCacheList_some hcache
    have hctx : (s.table p).ctx = some c := of_decide_eq_true (Bool.and_eq_true_iff.1 hmatch).1
    exact ⟨.cache, hp, by simp, by simp, rfl, fun _ _ => rfl, hctx, .inl ⟨rfl, rfl⟩⟩
  next s₁ hcache =>
    obtain rfl := popFromCacheList_none hcache
    split at h
    next s₂ q hfree =>
      cases h
      obtain ⟨n, hp, hlists, htable⟩ := popFromFreeList_spec hfree
      refine ⟨.free n, hp, by simp, by simp, hlists, fun r hr => ?_, ?_, .inr ?_⟩
      · rw [State.setTable_of_ne hr, htable, Function.update_of_ne hr]
      · rw [State.setTable_self]
      · rw [State.setTable_self, htable, Function.update_self]
        rfl
    next hfree =>
      split at h
      · cases h
      next s₂ q hleast =>
        cases h
        obtain ⟨hp, rfl⟩ := popLeastUsedFromCacheList_spec hleast
        refine ⟨.cache, hp, by simp, by simp, rfl, fun r hr => ?_, ?_, .inr ?_⟩
        · rw [State.setTable_of_ne hr, State.move_table]
        · rw [State.setTable_self]
        · rw [State.setTable_self]
          rfl

theorem shift_alloc (h : popFromSomeList cfg va c s = some (s', p))
    (hn : n ≤ (s.lists (.ctx c)).length) :
    Shift s (s'.move p .held (.ctx c) n) := by
  obtain ⟨k, hp, hheld, hctx, hlists, htable, howner, hcases⟩ := popFromSomeList_spec h
  have hmove : (s'.move p .held (.ctx c) n).lists = Piles.move s.lists p k (.ctx c) n := by
    rw [State.move_lists, hlists]
    exact Piles.move_move hheld nofun hctx
  rcases hcases with ⟨rfl, hsame⟩ | hzero
  · refine .carry p .cache (.ctx c) n hp hctx hn rfl rfl ?_ hmove hsame
    rintro _ ⟨⟩
    rw [← hsame]
    exact howner
  · exact .fresh p k c n hp hctx hn hmove htable howner hzero

theorem pushToFreeList_spec (h : pushToFreeList cfg p s = .ok s') :
    ∃ n, s'.lists = Piles.move s.lists p .held (.free n) 0 ∧ s'.table = s.table := by
  rw [pushToFreeList] at h
  split at h
  · split at h
    · cases h
      exact ⟨_, rfl, rfl⟩
    · cases h
  · cases h
    exact ⟨_, rfl, rfl⟩

theorem flushTable_spec (hp : p ∈ s.lists k) (hk : k.isFree = false) (hheld : k ≠ .held)
    (h : flushTable cfg k p s = .ok s') :
    Shift s s' ∧ s'.lists k = (s.lists k).erase p ∧ ∀ q, q ≠ p → s'.table q = s.table q := by
  obtain ⟨n, hlists, htable⟩ := pushToFreeList_spec h
  have hne : k ≠ .free n := Place.ne_free hk
  have hmove : s'.lists = Piles.move s.lists p k (.free n) 0 := by
    rw [hlists]
    exact Piles.move_move hheld nofun hne
  have hothers : ∀ q, q ≠ p → s'.table q = s.table q := by
    intro q hq
    rw [htable, State.setTable_of_ne hq, State.move_table]
  exact ⟨.release p k n hp hk hmove hothers, by rw [hmove, Piles.move_from hne], hothers⟩

/-! ### Loops -/

theorem shifts_freeTables :
    ∀ {l : List ℕ} {s : State ι}, s.lists (.ctx c) = l → freeTables cfg c l s = .ok s' →
    Shifts s s'
  | [], s, _, h => by
    cases h
    exact .refl
  | p :: l, s, hl, h => by
    have hp : p ∈ s.lists (.ctx c) := hl ▸ List.mem_cons_self
    have herase : (s.lists (.ctx c)).erase p = l := by rw [hl, List.erase_cons_head]
    rw [freeTables] at h
    split at h
    · obtain ⟨s₁, hflush, h⟩ := bind_eq_ok.1 h
      obtain ⟨hshift, hlists, -⟩ := flushTable_spec hp rfl nofun hflush
      exact .head hshift (shifts_freeTables (hlists.trans herase) h)
    · have hmove : (pushToCacheList p (s.move p (.ctx c) .held 0)).lists
          = Piles.move s.lists p (.ctx c) .cache 0 :=
        Piles.move_move nofun nofun nofun
      refine .head (.carry p (.ctx c) .cache 0 hp nofun (Nat.zero_le _) rfl rfl nofun hmove rfl)
        (shifts_freeTables ?_ h)
      have hne : Place.ctx c ≠ .cache := nofun
      rw [hmove, Piles.move_from hne, herase]

theorem shifts_pgtFreeUnlocked (h : pgtFreeUnlocked cfg c s = .ok s') : Shifts s s' :=
  shifts_freeTables rfl h

theorem shifts_allocTables :
    ∀ {vas : List ℕ} {n : ℕ} {pgt : Option ℕ} {s : State ι} {out : State ι × Bool},
    n ≤ (s.lists (.ctx c)).length → allocTables cfg c vas n pgt s = .ok out → Shifts s out.1
  | [], n, pgt, s, out, _, h => by
    cases h
    exact .refl
  | va :: vas, n, pgt, s, out, hn, h => by
    rw [allocTables] at h
    split at h
    · exact shifts_allocTables hn h
    · split at h
      · obtain ⟨s₁, hfree, h⟩ := bind_eq_ok.1 h
        cases h
        exact shifts_pgtFreeUnlocked hfree
      next s₁ p hpop =>
        refine .head (shift_alloc hpop hn) (shifts_allocTables ?_ h)
        obtain ⟨k, -, hheld, hctx, hlists, -⟩ := popFromSomeList_spec hpop
        have hne : .held ≠ Place.ctx c := nofun
        rw [State.move_lists, Piles.move_to hne, hlists, Piles.move_other hctx.symm hne.symm,
          List.length_insertIdx_of_le_length hn]
        exact Nat.succ_le_succ hn

theorem shifts_tryAlloc {regions : List VmRegion} (h : tryAlloc cfg c regions s = .ok s') :
    ∃ s₁, Shifts s s₁ ∧
    s'.lists = s₁.lists ∧ s'.table = s₁.table := by
  obtain ⟨⟨s₁, ok⟩, halloc, h⟩ := bind_eq_ok.1 h
  have hshifts := shifts_allocTables (Nat.zero_le _) halloc
  dsimp only at h
  split at h
  · cases h
    exact ⟨s₁, hshifts, rfl, rfl⟩
  · split at h
    · cases h
      exact ⟨s₁, hshifts, rfl, rfl⟩
    · cases h

/-! ### Every table in one place -/

/-- Every table is on one list. -/
abbrev Placed (cfg : Config) (s : State ι) : Prop := Piles.Spread s.lists (· < cfg.cacheSize)

theorem Placed.shift (h : Placed cfg s) (hs : Shift s s') : Placed cfg s' := by
  unfold Placed
  cases hs with
  | carry p k k' i hp hne hi _ _ _ hlists _ =>
    rw [hlists]
    exact h.move hp hne hi
  | release p k n hp hk hlists _ =>
    rw [hlists]
    exact h.move hp (Place.ne_free hk) (Nat.zero_le _)
  | fresh p k c i hp hne hi hlists _ _ _ =>
    rw [hlists]
    exact h.move hp hne hi

/-- Tables that are hit were taken off a list. -/
structure Flushed (hits : Pgt ι → Bool) (k : Place ι) (l : List ℕ) (s s' : State ι) : Prop where
  shifts : Shifts s s'
  left : ∀ p ∈ s'.lists k, p ∈ s.lists k ∧ s'.table p = s.table p
  hit : ∀ p ∈ s'.lists k, p ∈ l → hits (s'.table p) = false

theorem Flushed.cons (hplaced : Placed cfg s) (hp : p ∈ s.lists k) (hk : k.isFree = false)
    (hheld : k ≠ .held) (hflush : flushTable cfg k p s = .ok s₁)
    (h : Flushed hits k l s₁ s') : Flushed hits k (p :: l) s s' := by
  obtain ⟨hshift, hlists, htable⟩ := flushTable_spec hp hk hheld hflush
  have hne : ∀ q ∈ s'.lists k, q ≠ p := by
    rintro q hq rfl
    have hmem := (h.left q hq).1
    rw [hlists, (hplaced.nodup k).mem_erase_iff] at hmem
    exact hmem.1 rfl
  refine ⟨.head hshift h.shifts, fun q hq => ⟨?_, ?_⟩, fun q hq hl => h.hit q hq ?_⟩
  · exact List.mem_of_mem_erase (hlists ▸ (h.left q hq).1)
  · rw [(h.left q hq).2, htable q (hne q hq)]
  · exact (List.mem_cons.1 hl).resolve_left (hne q hq)

section Flush

variable (hk : k.isFree = false) (hheld : k ≠ .held)

include hk hheld

theorem flushed_flushNext :
    ∀ {l : List ℕ} {s : State ι}, Placed cfg s → (∀ p ∈ l, p ∈ s.lists k) → l.Nodup →
    flushNext cfg hits k l s = .ok s' → Flushed hits k l s s'
  | [], s, _, _, _, h => by
    cases h
    exact ⟨.refl, fun p hp => ⟨hp, rfl⟩, nofun⟩
  | p :: l, s, hplaced, hl, hnodup, h => by
    have hp : p ∈ s.lists k := hl p List.mem_cons_self
    obtain ⟨hnot, hnodup⟩ := List.nodup_cons.1 hnodup
    rw [flushNext] at h
    split at h
    · obtain ⟨s₁, hflush, h⟩ := bind_eq_ok.1 h
      obtain ⟨hshift, hlists, -⟩ := flushTable_spec hp hk hheld hflush
      refine .cons hplaced hp hk hheld hflush
        (flushed_flushNext (hplaced.shift hshift) (fun q hq => ?_) hnodup h)
      rw [hlists, (hplaced.nodup k).mem_erase_iff]
      exact ⟨fun heq => hnot (heq ▸ hq), hl q (List.mem_cons_of_mem p hq)⟩
    next hmiss =>
      obtain ⟨hshifts, hleft, hhit⟩ :=
        flushed_flushNext hplaced (fun q hq => hl q (List.mem_cons_of_mem p hq)) hnodup h
      refine ⟨hshifts, hleft, fun q hq hmem => ?_⟩
      rcases List.mem_cons.1 hmem with rfl | hmem
      · rw [(hleft q hq).2]
        exact Bool.eq_false_iff.2 hmiss
      · exact hhit q hq hmem

theorem flushed_flushHead : ∀ {l : List ℕ} {s : State ι}, Placed cfg s → s.lists k = l →
    (do
      let (s, rest) ← flushHead cfg hits k l s
      match rest with
      | [] => return s
      | _ :: rest => flushNext cfg hits k rest s) = .ok s' → Flushed hits k l s s'
  | [], s, _, _, h => by
    cases h
    exact ⟨.refl, fun p hp => ⟨hp, rfl⟩, nofun⟩
  | p :: l, s, hplaced, hl, h => by
    have hp : p ∈ s.lists k := hl ▸ List.mem_cons_self
    obtain ⟨hnot, hnodup⟩ := List.nodup_cons.1 (hl ▸ hplaced.nodup k)
    obtain ⟨⟨s₁, rest⟩, hhead, h⟩ := bind_eq_ok.1 h
    rw [flushHead] at hhead
    split at hhead
    · obtain ⟨s₂, hflush, hhead⟩ := bind_eq_ok.1 hhead
      obtain ⟨hshift, hlists, -⟩ := flushTable_spec hp hk hheld hflush
      rw [hl, List.erase_cons_head] at hlists
      exact .cons hplaced hp hk hheld hflush
        (flushed_flushHead (hplaced.shift hshift) hlists (bind_eq_ok.2 ⟨_, hhead, h⟩))
    next hmiss =>
      cases hhead
      obtain ⟨hshifts, hleft, hhit⟩ :=
        flushed_flushNext hk hheld hplaced (fun q hq => hl ▸ List.mem_cons_of_mem p hq) hnodup h
      refine ⟨hshifts, hleft, fun q hq hmem => ?_⟩
      rcases List.mem_cons.1 hmem with rfl | hmem
      · rw [(hleft q hq).2]
        exact Bool.eq_false_iff.2 hmiss
      · exact hhit q hq hmem

theorem flushed_flushList (hplaced : Placed cfg s) (h : flushList cfg hits k s = .ok s') :
    Shifts s s' ∧ ∀ p ∈ s'.lists k, hits (s'.table p) = false := by
  obtain ⟨hshifts, hleft, hhit⟩ := flushed_flushHead hk hheld hplaced rfl h
  exact ⟨hshifts, fun p hp => hhit p hp (hleft p hp).1⟩

end Flush

/-! ### Entries of a table -/

/-- Which entries were installed in a table, for a context and an address. -/
abbrev History (ι : Type) := ℕ → ι → ℕ → ℕ → ℕ → Prop

/-- Every table is on one list, and its entries are zero or were installed for its context. -/
structure Inv (cfg : Config) (history : History ι) (s : State ι) : Prop where
  placed : Placed cfg s
  owner : ∀ c, ∀ p ∈ s.lists (.ctx c), (s.table p).ctx = some c
  entries : ∀ k, k.isFree = false → ∀ p ∈ s.lists k, ∀ idx, (s.table p).tbl idx = 0 ∨
    ∃ c, (s.table p).ctx = some c ∧ history p c (s.table p).vabase idx ((s.table p).tbl idx)

theorem Shift.of_mem {j : Place ι} (hs : Shift s s') (h : Placed cfg s) (hq : q ∈ s'.lists j) :
    (∃ k, q ∈ s.lists k ∧ k.isFree = false ∧ s'.table q = s.table q ∧ ∀ c, j = .ctx c →
      (s.table q).ctx = some c) ∨
      q ∈ s.lists j ∧ s'.table q = s.table q ∨ j.isFree = true ∨
      ∃ c, j = .ctx c ∧ (s'.table q).ctx = some c ∧ (s'.table q).tbl = fun _ => 0 := by
  cases hs with
  | carry p k k' i hp hne hi hk _ howner hlists htable =>
    rw [hlists, h.mem_move hp hne hi] at hq
    rw [htable]
    rcases hq with ⟨rfl, rfl⟩ | ⟨-, hq⟩
    · exact .inl ⟨k, hp, hk, rfl, howner⟩
    · exact .inr (.inl ⟨hq, rfl⟩)
  | release p k n hp hk hlists htable =>
    rw [hlists, h.mem_move hp (Place.ne_free hk) (Nat.zero_le _)] at hq
    rcases hq with ⟨-, rfl⟩ | ⟨hqp, hq⟩
    · exact .inr (.inr (.inl rfl))
    · exact .inr (.inl ⟨hq, htable q hqp⟩)
  | fresh p k c i hp hne hi hlists htable howner hzero =>
    rw [hlists, h.mem_move hp hne hi] at hq
    rcases hq with ⟨rfl, rfl⟩ | ⟨hqp, hq⟩
    · exact .inr (.inr (.inr ⟨c, rfl, howner, hzero⟩))
    · exact .inr (.inl ⟨hq, htable q hqp⟩)

namespace Inv

variable {history history' : History ι}

theorem shift (h : Inv cfg history s) (hs : Shift s s') : Inv cfg history s' := by
  refine ⟨h.placed.shift hs, fun c q hq => ?_, fun j hj q hq idx => ?_⟩
  · rcases hs.of_mem h.placed hq with ⟨k, -, -, heq, howner⟩ | ⟨hmem, heq⟩ | hfree
      | ⟨c', hc, howner, -⟩
    · rw [heq]
      exact howner c rfl
    · rw [heq]
      exact h.owner c q hmem
    · cases hfree
    · cases hc
      exact howner
  · rcases hs.of_mem h.placed hq with ⟨k, hmem, hk, heq, -⟩ | ⟨hmem, heq⟩ | hfree
      | ⟨c', -, -, hzero⟩
    · rw [heq]
      exact h.entries k hk q hmem idx
    · rw [heq]
      exact h.entries j hj q hmem idx
    · rw [hfree] at hj
      cases hj
    · exact .inl (congrFun hzero idx)

theorem shifts (h : Inv cfg history s) (hs : Shifts s s') : Inv cfg history s' := by
  induction hs with
  | refl => exact h
  | tail _ hs ih => exact ih.shift hs

omit [DecidableEq ι] in
theorem congr (h : Inv cfg history s) (hlists : s'.lists = s.lists) (htable : s'.table = s.table) :
    Inv cfg history s' := by
  obtain ⟨hplaced, howner, hentries⟩ := h
  rw [Placed, ← hlists] at hplaced
  rw [← hlists, ← htable] at howner hentries
  exact ⟨hplaced, howner, hentries⟩

omit [DecidableEq ι] in
theorem imp (h : Inv cfg history s)
    (himp : ∀ p c va idx val, history p c va idx val → history' p c va idx val) :
    Inv cfg history' s where
  placed := h.placed
  owner := h.owner
  entries k hk p hp idx := (h.entries k hk p hp idx).imp_right fun ⟨c, hc, hist⟩ =>
    ⟨c, hc, himp _ _ _ _ _ hist⟩

end Inv

/-- The entries of a range were set to zero, and nothing else changed. -/
structure Cleared (cfg : Config) (c : ι) (first last : ℕ) (l : List ℕ) (s s' : State ι) : Prop where
  lists : s'.lists = s.lists
  ctx : ∀ p, (s'.table p).ctx = (s.table p).ctx
  vabase : ∀ p, (s'.table p).vabase = (s.table p).vabase
  tbl : ∀ p idx, (s'.table p).tbl idx =
    if p ∈ l ∧ (s.table p).ctx = some c ∧ clearedIn cfg (s.table p).vabase first last idx
    = true then 0
    else (s.table p).tbl idx

variable {first last : ℕ}

theorem cleared_clearTable : Cleared cfg c first last [p] s (clearTable cfg c first last s p) := by
  rw [clearTable]
  split
  next hctx =>
    have hother : ∀ {t : Pgt ι} {q : ℕ}, q ≠ p → (s.setTable p t).table q = s.table q :=
      State.setTable_of_ne
    refine ⟨rfl, fun q => ?_, fun q => ?_, fun q idx => ?_⟩ <;> by_cases hq : q = p
    · rw [hq, State.setTable_self]
    · rw [hother hq]
    · rw [hq, State.setTable_self]
    · rw [hother hq]
    · simp [hq, hctx]
    · simp [hother hq, hq]
  next hctx =>
    refine ⟨rfl, fun _ => rfl, fun _ => rfl, fun q idx => (if_neg ?_).symm⟩
    rintro ⟨hq, hc, -⟩
    exact hctx (List.mem_singleton.1 hq ▸ hc)

theorem Cleared.trans {l' : List ℕ} (h : Cleared cfg c first last l s s₁)
    (h' : Cleared cfg c first last l' s₁ s') :
    Cleared cfg c first last (l ++ l') s s' where
  lists := h'.lists.trans h.lists
  ctx p := (h'.ctx p).trans (h.ctx p)
  vabase p := (h'.vabase p).trans (h.vabase p)
  tbl p idx := by
    rw [h'.tbl, h.tbl, h.ctx, h.vabase]
    by_cases hin : (s.table p).ctx = some c ∧ clearedIn cfg (s.table p).vabase first last idx = true
    · by_cases hl : p ∈ l <;> by_cases hl' : p ∈ l' <;> simp [hin, hl, hl']
    · simp only [hin, and_false, if_false]

theorem cleared_foldl : ∀ (l : List ℕ) (s : State ι),
    Cleared cfg c first last l s (l.foldl (clearTable cfg c first last) s)
  | [], _ => ⟨rfl, fun _ => rfl, fun _ => rfl, fun _ _ => (if_neg fun h => nomatch h.1).symm⟩
  | _ :: l, _ => cleared_clearTable.trans (cleared_foldl l _)

theorem cleared_pgtClearRange :
    Cleared cfg c first last (s.lists (.ctx c) ++ s.lists .cache) s
      (pgtClearRange cfg c first last s) := by
  have h :
      Cleared cfg c first last (s.lists (.ctx c)) s
      (clearCtxRangeFromList cfg (.ctx c) c first last s) :=
    cleared_foldl _ s
  rw [pgtClearRange, clearCtxRangeFromList, h.lists]
  exact h.trans (cleared_foldl _ _)

/-! ### Runs -/

/-- An entry was installed for a context and an address, and not cleared by the context while the
table was in a list. -/
def Installed (cfg : Config) (s₀ : State ι) (as : List (Call ι)) : History ι :=
  fun p c va idx val =>
  ∃ as₁ used as₂ s₁, as = as₁ ++ .install c p idx val used :: as₂ ∧
    exec (step cfg) s₀ as₁ = .ok s₁ ∧
    (s₁.table p).vabase = va ∧
    ∀ bs₁ first last bs₂ s₂, as₂ = bs₁ ++ .clearRange c first last :: bs₂ →
      exec (step cfg) s₀ (as₁ ++ .install c p idx val used :: bs₁) = .ok s₂ →
      clearedIn cfg va first last idx = true → p ∈ s₂.lists .held

variable {s₀ : State ι} {as : List (Call ι)} {a : Call ι}

theorem installed_install {used : ℕ} (h : exec (step cfg) s₀ as = .ok s) :
    Installed cfg s₀ (as ++ [.install c p idx val used]) p c (s.table p).vabase idx val :=
  ⟨as, used, [], s, rfl, h, rfl, fun bs₁ _ _ _ _ hbs => by simp at hbs⟩

theorem Installed.snoc (h : Installed cfg s₀ as p c va idx val)
    (hrun : exec (step cfg) s₀ as = .ok s)
    (ha : ∀ first last, a = .clearRange c first last → clearedIn cfg va first last idx = true →
      p ∈ s.lists .held) :
    Installed cfg s₀ (as ++ [a]) p c va idx val := by
  obtain ⟨as₁, used, as₂, s₁, rfl, hrun₁, hva, hclear⟩ := h
  refine ⟨as₁, used, as₂ ++ [a], s₁, by simp, hrun₁, hva,
    fun bs₁ first last bs₂ s₂ hbs hrun₂ hin => ?_⟩
  -- the call that clears is the last one, or it is one of those before
  rcases List.eq_nil_or_concat bs₂ with rfl | ⟨bs₂, b, rfl⟩
  · obtain ⟨rfl, ha'⟩ := List.append_inj' hbs rfl
    obtain rfl := Except.ok.inj (hrun.symm.trans hrun₂)
    exact ha first last (List.singleton_inj.1 ha') hin
  · rw [List.concat_eq_append, ← List.cons_append, ← List.append_assoc] at hbs
    exact hclear bs₁ first last bs₂ s₂ (List.append_inj' hbs rfl).1 hrun₂ hin

theorem Inv.snoc (h : Inv cfg (Installed cfg s₀ as) s') (hrun : exec (step cfg) s₀ as = .ok s)
    (ha : ∀ c first last, a ≠ .clearRange c first last) :
    Inv cfg (Installed cfg s₀ (as ++ [a])) s' :=
  h.imp fun _ c _ _ _ hist => hist.snoc hrun fun first last heq => absurd heq (ha c first last)

section

variable (h : Inv cfg (Installed cfg s₀ as) s)
include h

theorem Inv.clear (hrun : exec (step cfg) s₀ as = .ok s) :
    Inv cfg (Installed cfg s₀ (as ++ [.clearRange c first last]))
      (pgtClearRange cfg c first last s) := by
  have hcleared : Cleared cfg c first last _ s (pgtClearRange cfg c first last s) :=
    cleared_pgtClearRange
  generalize pgtClearRange cfg c first last s = s' at hcleared
  refine ⟨?_, fun d p hp => ?_, fun k hk p hp idx => ?_⟩
  · rw [Placed, hcleared.lists]
    exact h.placed
  · rw [hcleared.lists] at hp
    rw [hcleared.ctx]
    exact h.owner d p hp
  · rw [hcleared.lists] at hp
    rw [hcleared.tbl, hcleared.ctx, hcleared.vabase]
    split
    · exact .inl rfl
    next hnot =>
      refine (h.entries k hk p hp idx).imp_right fun ⟨d, hd, hist⟩ =>
        ⟨d, hd, hist.snoc hrun fun first' last' heq hin => ?_⟩
      cases heq
      -- a table of the context that is in a list was cleared
      cases k with
      | free n => cases hk
      | cache => exact absurd ⟨List.mem_append_right _ hp, hd, hin⟩ hnot
      | ctx e =>
        obtain rfl := Option.some.inj ((h.owner e p hp).symm.trans hd)
        exact absurd ⟨List.mem_append_left _ hp, hd, hin⟩ hnot
      | held => exact hp

theorem Inv.install {used : ℕ} (hrun : exec (step cfg) s₀ as = .ok s)
    (howner : (s.table p).ctx = some c) :
    Inv cfg (Installed cfg s₀ (as ++ [.install c p idx val used]))
      (PgtCache.install p idx val used s) := by
  have hold : Inv cfg (Installed cfg s₀ (as ++ [.install c p idx val used])) s := h.snoc hrun nofun
  refine ⟨hold.placed, fun d q hq => ?_, fun k hk q hq j => ?_⟩ <;> by_cases hqp : q = p
  · subst hqp
    rw [PgtCache.install, State.setTable_self]
    exact hold.owner d q hq
  · rw [PgtCache.install, State.setTable_of_ne hqp]
    exact hold.owner d q hq
  · subst hqp
    rw [PgtCache.install, State.setTable_self]
    dsimp only
    by_cases hj : j = idx
    · subst hj
      refine .inr ⟨c, howner, ?_⟩
      rw [Function.update_self]
      exact installed_install hrun
    · rw [Function.update_of_ne hj]
      exact hold.entries k hk q hq j
  · rw [PgtCache.install, State.setTable_of_ne hqp]
    exact hold.entries k hk q hq j

theorem Inv.step (hrun : exec (step cfg) s₀ as = .ok s) (hsound : Sound s a)
    (hstep : PgtCache.step cfg s a = .ok s') : Inv cfg (Installed cfg s₀ (as ++ [a])) s' := by
  cases a with
  | getAll c regions =>
    refine Inv.snoc ?_ hrun nofun
    rw [PgtCache.step, pgtGetAll] at hstep
    split at hstep
    · cases hstep
      exact h
    · obtain ⟨s₁, hfree, htry⟩ := bind_eq_ok.1 hstep
      obtain ⟨s₂, hshifts, hlists, htable⟩ := shifts_tryAlloc htry
      exact ((h.shifts (shifts_pgtFreeUnlocked hfree)).shifts hshifts).congr hlists htable
  | retry c regions =>
    obtain ⟨s₁, hshifts, hlists, htable⟩ := shifts_tryAlloc hstep
    exact ((h.shifts hshifts).congr hlists htable).snoc hrun nofun
  | putAll c =>
    refine Inv.snoc ?_ hrun nofun
    rw [PgtCache.step, pgtPutAll] at hstep
    split at hstep
    · cases hstep
      exact h
    · exact h.shifts (shifts_pgtFreeUnlocked hstep)
  | flush c =>
    exact (h.shifts (flushed_flushList (k := .cache) rfl nofun h.placed hstep).1).snoc hrun nofun
  | flushRange c first last =>
    obtain ⟨s₁, hctx, hcache⟩ := bind_eq_ok.1 hstep
    have h₁ := h.shifts (flushed_flushList (k := .ctx c) rfl nofun h.placed hctx).1
    exact (h₁.shifts (flushed_flushList (k := .cache) rfl nofun h₁.placed hcache).1).snoc hrun nofun
  | clearRange c first last =>
    cases hstep
    exact h.clear hrun
  | pop vabase c =>
    refine Inv.snoc ?_ hrun nofun
    cases hstep
    rcases hpop : popFromCacheList vabase c s with ⟨s₁, o⟩
    cases o with
    | none => exact popFromCacheList_none hpop ▸ h
    | some p =>
      obtain ⟨hp, -, rfl⟩ := popFromCacheList_some hpop
      exact h.shift (.carry p .cache .held 0 hp nofun (Nat.zero_le _) rfl rfl nofun rfl rfl)
  | push p =>
    refine Inv.snoc ?_ hrun nofun
    cases hstep
    exact h.shift (.carry p .held .cache 0 hsound nofun (Nat.zero_le _) rfl rfl nofun rfl rfl)
  | install c p idx val used =>
    cases hstep
    refine h.install hrun ?_
    rcases hsound with hp | ⟨-, hctx⟩
    · exact h.owner c p hp
    · exact hctx

end

variable {contents : ℕ → ℕ → ℕ}

omit [DecidableEq ι] in
theorem mem_pgtInit :
    p ∈ (pgtInit cfg contents : State ι).lists k
      ↔ k = .free (cfg.parentOf p) ∧ p < cfg.cacheSize := by
  cases k with
  | free n =>
    have hdvd := cfg.dvd_cacheSize
    simp only [pgtInit, Config.numFree, Config.parentOf, Place.free.injEq]
    by_cases hshared : cfg.shared = true
    · simp only [Config.shared, Bool.and_eq_true, Bool.not_eq_true'] at hshared
      have := hdvd hshared.1 hshared.2
      have hsh : cfg.shared = true := by simp [Config.shared, hshared]
      simp only [hsh, if_true]
      split
      · simp only [List.mem_reverse, List.mem_map, List.mem_range]
        constructor
        · rintro ⟨m, hm, rfl⟩
          omega
        · rintro ⟨rfl, hp⟩
          exact ⟨p % 4, by omega, by omega⟩
      · simp only [List.not_mem_nil, false_iff]
        omega
    · simp only [Bool.not_eq_true] at hshared
      simp only [hshared, Bool.false_eq_true, if_false]
      by_cases hn : n = 0
      · simp [hn]
      · simp [hn]
  | cache => simp [pgtInit]
  | ctx c => simp [pgtInit]
  | held => simp [pgtInit]

omit [DecidableEq ι] in
theorem inv_pgtInit {history : History ι} : Inv cfg history (pgtInit cfg contents) where
  placed :=
    { nodup := fun k => by
        cases k with
        | free n =>
          simp only [pgtInit]
          split
          · rw [List.nodup_reverse]
            split
            · exact List.nodup_range.map fun _ _ h => Nat.add_left_cancel h
            · exact List.nodup_range
          · exact List.nodup_nil
        | cache | ctx c | held => exact List.nodup_nil
      unique := fun h h' => (mem_pgtInit.1 h).1.trans (mem_pgtInit.1 h').1.symm
      all := fun p => ⟨fun ⟨_, h⟩ => (mem_pgtInit.1 h).2, fun h => ⟨_, mem_pgtInit.2 ⟨rfl, h⟩⟩⟩ }
  owner c p hp := by cases (mem_pgtInit.1 hp).1
  entries k hk p hp := by
    rw [(mem_pgtInit.1 hp).1] at hk
    cases hk

theorem inv_run (hsound : Guarded Sound (step cfg) (pgtInit cfg contents) as)
    (hrun : exec (step cfg) (pgtInit cfg contents : State ι) as = .ok s) :
    Inv cfg (Installed cfg (pgtInit cfg contents) as) s :=
  exec_history (P := fun as s => Inv cfg (Installed cfg (pgtInit cfg contents) as) s)
    (fun _ _ _ _ h hrun hsound hstep => h.step hrun hsound hstep) [] inv_pgtInit rfl hsound hrun

/-- Every table is on one list, and a context has only what was installed for it. -/
structure Isolated (cfg : Config) (s₀ : State ι) (as : List (Call ι)) (s : State ι) : Prop where
  placed : ∀ p, p < cfg.cacheSize → ∃! k, p ∈ s.lists k
  once : ∀ k, (s.lists k).Nodup
  handed : ∀ c p, p ∈ s.lists (.ctx c) ∨ p ∈ s.lists .held ∧ (s.table p).ctx = some c → ∀ idx,
    (s.table p).tbl idx = 0 ∨ Installed cfg s₀ as p c (s.table p).vabase idx ((s.table p).tbl idx)

theorem Inv.isolated (h : Inv cfg (Installed cfg s₀ as) s) : Isolated cfg s₀ as s where
  placed p hp := by
    obtain ⟨k, hk⟩ := (h.placed.all p).2 hp
    exact ⟨k, hk, fun k' hk' => h.placed.unique hk' hk⟩
  once := h.placed.nodup
  handed c p hp idx := by
    obtain ⟨k, hk, hmem, hctx⟩ :
      ∃ k, k.isFree = false ∧ p ∈ s.lists k ∧ (s.table p).ctx = some c := by
      rcases hp with hp | ⟨hp, hctx⟩
      · exact ⟨_, rfl, hp, h.owner c p hp⟩
      · exact ⟨_, rfl, hp, hctx⟩
    refine (h.entries k hk p hmem idx).imp_right fun ⟨d, hd, hist⟩ => ?_
    obtain rfl := Option.some.inj (hctx.symm.trans hd)
    exact hist

/-- Whatever the tables contain at the start, they are isolated in every state that is reached, and
after `pgt_flush` no table of the context is in the cache list. -/
theorem pool_isolated (cfg : Config) (contents : ℕ → ℕ → ℕ) (as : List (Call ι)) (s : State ι)
    (hsound : Guarded Sound (step cfg) (pgtInit cfg contents) as)
    (hrun : exec (step cfg) (pgtInit cfg contents) as = .ok s) :
    Isolated cfg (pgtInit cfg contents) as s ∧
      ∀ c, as.getLast? = some (.flush c) → ∀ p ∈ s.lists .cache, (s.table p).ctx ≠ some c := by
  refine ⟨(inv_run hsound hrun).isolated, fun c hlast p hp => ?_⟩
  obtain ⟨bs, rfl⟩ := List.getLast?_eq_some_iff.1 hlast
  obtain ⟨s₁, hrun₁, hrun₂⟩ := exec_append hrun
  obtain ⟨s₂, hflush, hend⟩ := exec_cons hrun₂
  cases hend
  have hinv := inv_run (hsound.append hrun₁).1 hrun₁
  exact of_decide_eq_false ((flushed_flushList (k := .cache) rfl nofun hinv.placed hflush).2 p hp)

/-- A core with `CFG_WITH_LPAE`. -/
def lpaeCore : Vm.Config where
  bits := 64
  paddrBits := 64
  lpae := true
  pgdirSize := 0x200000
  base := 0x200000
  size := 0x3FE00000
  page_dvd_pgdirSize := by decide
  pgdirSize_pos := by decide
  page_dvd_base := by decide
  range_lt := by decide
  page_lt := by decide
  bits_le := Nat.le.refl

/-- A core with `CFG_WITH_LPAE` and four tables. -/
def smallCore : Config where
  toConfig := lpaeCore
  cacheSize := 4
  withPager := false
  pagedUserTa := false
  dvd_cacheSize := nofun

def onePage : List VmRegion := [{ Vm.Config.dummy 0x200000 with size := 0x1000 }]

def takeTurns : List (Call Bool) :=
  [.getAll false onePage, .install false 3 0 7 0, .putAll false, .getAll true onePage,
    .pop 0x200000 false, .push 3, .putAll true, .flush false]

theorem pool_isolated_turns :
    Guarded Sound (step smallCore) (pgtInit smallCore fun _ _ => 1) takeTurns ∧
      (∀ s, exec (step smallCore) (pgtInit smallCore fun _ _ => 1) takeTurns = .ok s →
        Isolated smallCore (pgtInit smallCore fun _ _ => 1) takeTurns s ∧
          ∀ p ∈ s.lists .cache, (s.table p).ctx ≠ some false) ∧
      ∃ s, exec (step smallCore) (pgtInit smallCore fun _ _ => 1) takeTurns = .ok s
        ∧ s.lists .cache = [2] := by
  have hsound : Guarded Sound (step smallCore) (pgtInit smallCore fun _ _ => 1) takeTurns := by
    decide +kernel
  refine ⟨hsound, fun s hrun => ?_, exists_ok_of_decide (by decide +kernel)⟩
  obtain ⟨hisolated, hflush⟩ := pool_isolated smallCore _ takeTurns s hsound hrun
  exact ⟨hisolated, hflush false rfl⟩

/-- A table is taken out of the cache. -/
def popOne : List (Call Bool) :=
  [.getAll false onePage, .install false 3 0 7 0, .putAll false, .pop 0x200000 false]

/-- A range is cleared while its table is out of the cache. -/
def clearPopped : List (Call Bool) :=
  [.clearRange false 0x200000 0x201000, .push 3, .getAll false onePage]

/-- A table that is popped is in none of the lists, and is not cleared with its range. -/
theorem popped_in_no_list :
    Guarded Sound (step smallCore) (pgtInit smallCore fun _ _ => 0) (popOne ++ clearPopped) ∧
      (∃ s, exec (step smallCore) (pgtInit smallCore fun _ _ => 0) popOne = .ok s ∧
        ∀ k, k ≠ .held → 3 ∉ s.lists k) ∧
      clearedIn smallCore 0x200000 0x200000 0x201000 0 = true ∧
      ∃ s, exec (step smallCore) (pgtInit smallCore fun _ _ => 0) (popOne ++ clearPopped) = .ok s ∧
        3 ∈ s.lists (.ctx false) ∧ (s.table 3).vabase = 0x200000 ∧ (s.table 3).tbl 0 = 7 := by
  have hsound :
      Guarded Sound (step smallCore) (pgtInit smallCore fun _ _ => 0) (popOne ++ clearPopped) := by
    decide +kernel
  refine ⟨hsound, ?_, by decide +kernel, exists_ok_of_decide (by decide +kernel)⟩
  obtain ⟨s, hrun, hheld⟩ : ∃ s,
    exec (step smallCore) (pgtInit smallCore fun _ _ => 0) popOne = .ok s ∧
      3 ∈ s.lists .held := exists_ok_of_decide (by decide +kernel)
  have hplaced := (inv_run (hsound.append hrun).1 hrun).placed
  exact ⟨s, hrun, fun k hk hmem => hk (hplaced.unique hmem hheld)⟩

end Optee.PgtCache
