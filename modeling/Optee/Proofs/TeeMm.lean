import Mathlib
import Optee.TeeMm

/-!
# Soundness of the pool allocator

The entries of a pool are kept in order (`Before`). `tee_mm_alloc` fails only in a `Full` pool, and
where no entry without granules splits a gap, a full pool has no free range (`Full.not_free`).
-/

namespace Optee.TeeMm

/-- The bytes of an entry, from the start of the pool on. -/
def TeeMmEntry.bytes (e : TeeMmEntry) (shift : ℕ) : Set ℕ :=
  Set.Ico (e.offset * 2 ^ shift) ((e.offset + e.size) * 2 ^ shift)

/-- An entry comes before another in the direction of the pool. -/
def Before (hiAlloc : Bool) (a b : TeeMmEntry) : Prop :=
  if hiAlloc then b.offset + b.size ≤ a.offset else a.offset + a.size ≤ b.offset

def TeeMmPool.units (pool : TeeMmPool) : ℕ := pool.size / 2 ^ pool.shift

/-- The list is in order and inside of the pool. -/
structure Inv (pool : TeeMmPool) : Prop where
  shift_lt : pool.shift < 31
  size_eq : pool.size = pool.units * 2 ^ pool.shift
  units_lt : pool.units < uint32Max
  entry_eq : pool.entry = ⟨0, if pool.hiAlloc then pool.units else 0, 0⟩
  order : (pool.entry :: pool.entries).IsChain (Before pool.hiAlloc)
  inside : ∀ e ∈ pool.entries, e.offset + e.size ≤ pool.units
  ids : (pool.entries.map (·.id)).Nodup
  fresh : ∀ e ∈ pool.entries, e.id < pool.fresh

instance (hiAlloc : Bool) : IsTrans TeeMmEntry (Before hiAlloc) where
  trans a b c hab hbc := by
    cases hiAlloc <;> simp only [Before, if_true, if_false, Bool.false_eq_true] at * <;> omega

variable {pool pool' : TeeMmPool} {e x : TeeMmEntry} {size base : ℕ} {passed rest : List TeeMmEntry}

variable {hiAlloc : Bool} {nn : TeeMmEntry} {shift a : ℕ} {call : Call}

theorem Before.disjoint {a b : TeeMmEntry} (h : Before hiAlloc a b) (shift : ℕ) :
    Disjoint (a.bytes shift) (b.bytes shift) := by
  rw [TeeMmEntry.bytes, TeeMmEntry.bytes, Set.Ico_disjoint_Ico]
  cases hiAlloc with
  | false =>
    have : (a.offset + a.size) * 2 ^ shift ≤ b.offset * 2 ^ shift := Nat.mul_le_mul_right _ h
    exact (min_le_left _ _).trans (this.trans (le_max_right _ _))
  | true =>
    have : (b.offset + b.size) * 2 ^ shift ≤ a.offset * 2 ^ shift := Nat.mul_le_mul_right _ h
    exact (min_le_right _ _).trans (this.trans (le_max_left _ _))

section

variable (h : Inv pool)
include h

theorem Inv.pairwise : pool.entries.Pairwise (Before pool.hiAlloc) :=
  (List.pairwise_cons.1 (List.isChain_iff_pairwise.1 h.order)).2

theorem Inv.around {p r : List TeeMmEntry} (hsplit : pool.entries = p ++ e :: r) :
    (∀ x ∈ p, Before pool.hiAlloc x e)
    ∧ ∀ n ∈ r, Before pool.hiAlloc e n := by
  have hpair := h.pairwise
  rw [hsplit, List.pairwise_append, List.pairwise_cons] at hpair
  exact ⟨fun x hx => hpair.2.2 x hx e List.mem_cons_self, hpair.2.1.1⟩

theorem Inv.inside_cons (he : e ∈ pool.entry :: pool.entries) : e.offset + e.size ≤ pool.units := by
  rcases List.mem_cons.1 he with rfl | he
  · rw [h.entry_eq]
    dsimp only
    split_ifs <;> omega
  · exact h.inside e he

/-! ## Adding and removing entries -/

/-- An entry was put in its place. -/
def Inserts (pool : TeeMmPool) (nn : TeeMmEntry) (pool' : TeeMmPool) : Prop :=
  ∃ passed rest, passed ++ rest = pool.entries
    ∧ pool' = { pool with entries := passed ++ nn :: rest, fresh := pool.fresh + 1 } ∧ Inv pool'

theorem Inv.insert (hsplit : passed ++ rest = pool.entries) (hid : nn.id = pool.fresh)
    (hin : nn.offset + nn.size ≤ pool.units)
    (hl : Before pool.hiAlloc (passed.getLastD pool.entry) nn)
    (hr : ∀ n ∈ rest.head?, Before pool.hiAlloc nn n) :
    Inv { pool with entries := passed ++ nn :: rest, fresh := pool.fresh + 1 } := by
  have hmem : ∀ e, e ∈ passed ++ nn :: rest → e = nn ∨ e ∈ pool.entries := by
    intro e he
    rw [← hsplit]
    simp only [List.mem_append, List.mem_cons] at he ⊢
    tauto
  refine ⟨h.shift_lt, h.size_eq, h.units_lt, h.entry_eq, ?_, ?_, ?_, ?_⟩
  · exact isChain_insert (by rw [hsplit]; exact h.order) hl hr
  · intro e he
    rcases hmem e he with rfl | he
    · exact hin
    · exact h.inside e he
  · have hids := h.ids
    have hfresh : nn.id ∉ pool.entries.map (·.id) := by
      intro hm
      obtain ⟨e, he, heq⟩ := List.mem_map.1 hm
      exact absurd (heq.trans hid) (h.fresh e he).ne
    rw [← hsplit, List.map_append] at hids hfresh
    simp only [List.map_append, List.map_cons]
    rw [List.nodup_middle, List.nodup_cons]
    exact ⟨hfresh, hids⟩
  · intro e he
    rcases hmem e he with rfl | he
    · exact hid.trans_lt (Nat.lt_succ_self _)
    · exact (h.fresh e he).trans (Nat.lt_succ_self _)

theorem Inv.add {offset : ℕ} (hsplit : passed ++ rest = pool.entries)
    (hin : offset + size ≤ pool.units)
    (hl : Before pool.hiAlloc (passed.getLastD pool.entry) ⟨pool.fresh, offset, size⟩)
    (hr : ∀ n ∈ rest.head?, Before pool.hiAlloc ⟨pool.fresh, offset, size⟩ n) :
    ∃ pool', teeMmAdd pool passed rest offset size = (⟨pool.fresh, offset, size⟩, pool')
      ∧ Inserts pool ⟨pool.fresh, offset, size⟩ pool' := by
  have hu := h.units_lt
  rw [uint32Max] at hu
  refine ⟨_, ?_, passed, rest, hsplit, rfl, h.insert hsplit rfl hin hl hr⟩
  rw [teeMmAdd, u32, u32, Nat.mod_eq_of_lt (by omega), Nat.mod_eq_of_lt (by omega)]

theorem Inv.remove {id : ℕ} : Inv { pool with entries := pool.entries.eraseP (·.id = id) } := by
  have hsub : (pool.entries.eraseP (·.id = id)).Sublist pool.entries := List.eraseP_sublist
  refine ⟨h.shift_lt, h.size_eq, h.units_lt, h.entry_eq, ?_,
    fun e he => h.inside e (hsub.subset he), h.ids.sublist (hsub.map _), fun e he =>
    h.fresh e (hsub.subset he)⟩
  exact List.isChain_iff_pairwise.2
    ((List.isChain_iff_pairwise.1 h.order).sublist (hsub.cons_cons _))

theorem Inv.eraseP_eq {p r : List TeeMmEntry} (hsplit : pool.entries = p ++ e :: r) :
    pool.entries.eraseP (·.id = e.id) = p ++ r := by
  have hids := h.ids
  rw [hsplit, List.map_append, List.map_cons, List.nodup_middle, List.nodup_cons] at hids
  have hp : ∀ x ∈ p, ¬decide (x.id = e.id) = true := by
    intro x hx heq
    refine hids.1 (List.mem_append_left _ (List.mem_map.2 ⟨x, hx, of_decide_eq_true heq⟩))
  rw [hsplit, List.eraseP_append_right _ hp, List.eraseP_cons_of_pos (by simp)]

end

/-! ## `tee_mm_alloc` -/

theorem granules_le {k : ℕ} : granules size shift ≤ k ↔ size ≤ k * 2 ^ shift := by
  rw [granules]
  have hg : 0 < 2 ^ shift := Nat.two_pow_pos shift
  split_ifs with h
  · simp [h]
  · rw [Nat.add_one_le_iff, Nat.div_lt_iff_lt_mul hg]
    omega

theorem le_granules (size shift : ℕ) : size ≤ granules size shift * 2 ^ shift :=
  granules_le.1 le_rfl

theorem sub32_eq {b : ℕ} (ha : a < 2 ^ 32) (hb : b ≤ a) : sub32 a b = a - b := by
  rw [sub32]
  omega

theorem sub64_eq {b : ℕ} (ha : a < 2 ^ 64) (hb : b ≤ a) : sub64 a b = a - b := by
  rw [sub64]
  omega

theorem gap_eq {a b : TeeMmEntry} (h : Before hiAlloc a b) (ha : a.offset + a.size < 2 ^ 32)
    (hb : b.offset + b.size < 2 ^ 32) :
    gap hiAlloc a b = if hiAlloc then a.offset - (b.offset + b.size)
      else b.offset - (a.offset + a.size) := by
  cases hiAlloc with
  | false =>
    replace h : a.offset + a.size ≤ b.offset := h
    have hsub : sub32 b.offset a.size = b.offset - a.size := sub32_eq (by omega) (by omega)
    simp only [gap, Bool.false_eq_true, if_false]
    rw [hsub, sub32_eq (by omega) (by omega)]
    omega
  | true =>
    replace h : b.offset + b.size ≤ a.offset := h
    have hsub : sub32 a.offset b.offset = a.offset - b.offset := sub32_eq (by omega) (by omega)
    simp only [gap, if_true]
    rw [hsub, sub32_eq (by omega) (by omega)]
    omega

theorem last_mem (h : passed ++ rest = pool.entries) :
    passed.getLastD pool.entry ∈ pool.entry :: pool.entries := by
  rw [← h]
  exact List.cons_subset_cons _ (List.subset_append_left _ _) List.getLastD_mem_cons

theorem Inv.before_of_split {n : TeeMmEntry} (h : Inv pool) (hsplit : passed ++ rest = pool.entries)
    (hn : n ∈ rest.head?) : Before pool.hiAlloc (passed.getLastD pool.entry) n := by
  have horder := h.order
  rw [← hsplit] at horder
  exact rel_of_isChain horder hn

/-- The granules behind an entry. -/
def TeeMmPool.left (pool : TeeMmPool) (e : TeeMmEntry) : ℕ :=
  if pool.hiAlloc then e.offset else pool.units - (e.offset + e.size)

/-- No gap is large enough. -/
structure Full (pool : TeeMmPool) (psize : ℕ) : Prop where
  gaps : (pool.entry :: pool.entries).IsChain fun a b => gap pool.hiAlloc a b < psize
  left : pool.left (pool.entries.getLastD pool.entry) < psize

theorem remaining_lt_iff (h : Inv pool) (hsmall : pool.size < 2 ^ 32)
    (he : e ∈ pool.entry :: pool.entries) :
    (if pool.hiAlloc then u32 (e.offset * 2 ^ pool.shift)
      else sub64 pool.size (u32 (u32 (e.offset + e.size) * 2 ^ pool.shift))) < size
      ↔ pool.left e < granules size pool.shift := by
  have hin := h.inside_cons he
  have hu := h.units_lt
  rw [uint32Max] at hu
  have hle : (e.offset + e.size) * 2 ^ pool.shift ≤ pool.size := by
    rw [h.size_eq]
    exact Nat.mul_le_mul_right _ hin
  have hlo : e.offset * 2 ^ pool.shift ≤ (e.offset + e.size) * 2 ^ pool.shift :=
    Nat.mul_le_mul_right _ (Nat.le_add_right _ _)
  rw [← not_le, ← not_le, granules_le, TeeMmPool.left]
  cases pool.hiAlloc with
  | false =>
    simp only [Bool.false_eq_true, if_false]
    have hend : u32 (e.offset + e.size) = e.offset + e.size := Nat.mod_eq_of_lt (by omega)
    rw [hend, u32, Nat.mod_eq_of_lt (by omega), sub64_eq (by omega) hle, Nat.sub_mul, ← h.size_eq]
  | true =>
    simp only [if_true]
    rw [u32, Nat.mod_eq_of_lt (by omega)]

theorem alloc_eq (h : Inv pool) (hsmall : pool.size < 2 ^ 32)
    (hw : walk (fun entry next => decide (gap pool.hiAlloc entry next < granules size pool.shift))
      pool.entry pool.entries = (passed, rest)) :
    teeMmAlloc pool size true
      = if rest = [] ∧ ¬pool.hiAlloc ∧ pool.size = 0 then .error .invalidPool
        else if rest = [] ∧ pool.left (passed.getLastD pool.entry) < granules size pool.shift then
          .ok (none, pool)
        else
          let r := teeMmAdd pool passed rest
            (if pool.hiAlloc then sub64 (passed.getLastD pool.entry).offset
            (granules size pool.shift)
              else (passed.getLastD pool.entry).offset + (passed.getLastD pool.entry).size)
            (granules size pool.shift)
          .ok (some r.1, r.2) := by
  have hmem := last_mem (walk_spec hw).1
  rw [teeMmAlloc, if_neg (by simp)]
  simp only [hw, remaining_lt_iff h hsmall hmem]

theorem place {last : TeeMmEntry} {psize : ℕ} (h : Inv pool)
    (hlast : last.offset + last.size ≤ pool.units)
    (hnext : ∀ n ∈ rest.head?, Before pool.hiAlloc last n ∧ n.offset + n.size ≤ pool.units)
    (hstop : ∀ n ∈ rest.head?, psize ≤ gap pool.hiAlloc last n)
    (hleft : ¬(rest = [] ∧ pool.left last < psize)) :
    ∃ offset, (if pool.hiAlloc then sub64 last.offset psize else last.offset + last.size) = offset
      ∧ offset + psize ≤ pool.units ∧ Before pool.hiAlloc last ⟨pool.fresh, offset, psize⟩
      ∧ ∀ n ∈ rest.head?, Before pool.hiAlloc ⟨pool.fresh, offset, psize⟩ n := by
  have hu := h.units_lt
  rw [uint32Max] at hu
  refine ⟨_, rfl, ?_⟩
  -- the next entry bounds the room, or where there is none the end of the pool
  cases rest with
  | nil =>
    have hroom : psize ≤ pool.left last := Nat.not_lt.1 fun hlt => hleft ⟨rfl, hlt⟩
    rw [TeeMmPool.left] at hroom
    cases hhi : pool.hiAlloc <;>
      simp only [hhi, Bool.false_eq_true, if_false, if_true, Before] at hroom ⊢
    · exact ⟨by omega, le_rfl, nofun⟩
    · rw [sub64_eq (by omega) hroom]
      exact ⟨by omega, by omega, nofun⟩
  | cons n rest =>
    obtain ⟨hbefore, hin⟩ := hnext n rfl
    have hroom := hstop n rfl
    rw [gap_eq hbefore (by omega) (by omega)] at hroom
    cases hhi : pool.hiAlloc <;>
      simp only [hhi, Bool.false_eq_true, if_false, if_true, Before, List.head?_cons,
        Option.mem_def, Option.some.injEq, forall_eq'] at hroom hbefore ⊢
    · omega
    · rw [sub64_eq (by omega) (by omega)]
      omega

theorem alloc_cases (h : Inv pool) (hsmall : pool.size < 2 ^ 32) (size : ℕ) :
    (teeMmAlloc pool size true = .error .invalidPool ∧ pool.hiAlloc = false ∧ pool.size = 0)
      ∨ (teeMmAlloc pool size true = .ok (none, pool) ∧ Full pool (granules size pool.shift))
      ∨ ∃ nn pool', teeMmAlloc pool size true = .ok (some nn, pool')
        ∧ nn.size = granules size pool.shift
        ∧ (nn.size = 0 → nn.offset = pool.entry.offset) ∧ Inserts pool nn pool' := by
  set psize := granules size pool.shift with hpsize
  rcases hw : walk (fun entry next => decide (gap pool.hiAlloc entry next < psize)) pool.entry
    pool.entries with ⟨passed, rest⟩
  obtain ⟨happ, hpass, hstop⟩ := walk_spec hw
  simp only [decide_eq_true_eq, decide_eq_false_iff_not, not_lt] at hpass hstop
  rw [alloc_eq h hsmall hw]
  by_cases hempty : rest = [] ∧ ¬pool.hiAlloc ∧ pool.size = 0
  · rw [if_pos hempty]
    exact .inl ⟨rfl, by simpa using hempty.2.1, hempty.2.2⟩
  rw [if_neg hempty]
  by_cases hfull : rest = [] ∧ pool.left (passed.getLastD pool.entry) < psize
  · rw [if_pos hfull]
    obtain ⟨rfl, hleft⟩ := hfull
    rw [List.append_nil] at happ
    subst happ
    exact .inr (.inl ⟨rfl, hpass, hleft⟩)
  rw [if_neg hfull]
  have hnext : ∀ n ∈ rest.head?, Before pool.hiAlloc (passed.getLastD pool.entry) n
      ∧ n.offset + n.size ≤ pool.units := fun n hn =>
    ⟨h.before_of_split happ hn,
      h.inside n (by rw [← happ]; exact List.mem_append_right _ (List.mem_of_mem_head? hn))⟩
  obtain ⟨offset, hoffset, hin, hl, hr⟩ :=
    place h (h.inside_cons (last_mem happ)) hnext hstop hfull
  obtain ⟨pool', hadd, hins⟩ := h.add happ hin hl hr
  rw [hoffset, hadd]
  refine .inr (.inr ⟨_, pool', rfl, rfl, fun hzero => ?_, hins⟩)
  -- an entry without granules fits in the first gap
  replace hzero : psize = 0 := hzero
  have hfirst : passed = [] := by
    rw [hzero] at hpass
    cases passed with
    | nil => rfl
    | cons b l => exact absurd (List.isChain_cons_cons.1 hpass).1 (Nat.not_lt_zero _)
  rw [← hoffset, hfirst, hzero]
  have hu := h.units_lt
  rw [uint32Max] at hu
  rw [List.getLastD_nil, h.entry_eq]
  dsimp only
  split_ifs
  · exact sub64_eq (by omega) (Nat.zero_le _)
  · rfl

/-! ## Full pools -/

/-- A range that no entry has. -/
def Free (pool : TeeMmPool) (a size : ℕ) : Prop :=
  a + size ≤ pool.size ∧ ∀ e ∈ pool.entries, Disjoint (Set.Ico a (a + size)) (e.bytes pool.shift)

/-- The range lies behind the entry. -/
def Past (pool : TeeMmPool) (a size : ℕ) (e : TeeMmEntry) : Prop :=
  if pool.hiAlloc then a + size ≤ e.offset * 2 ^ pool.shift
  else (e.offset + e.size) * 2 ^ pool.shift ≤ a

theorem Past.next {x y : TeeMmEntry} (hsize : 0 < size) (hp : Past pool a size x)
    (hbefore : Before pool.hiAlloc x y) (hx : x.offset + x.size < 2 ^ 32)
    (hy : y.offset + y.size < 2 ^ 32) (hgap : gap pool.hiAlloc x y < granules size pool.shift)
    (hfree : Disjoint (Set.Ico a (a + size)) (y.bytes pool.shift))
    (hzero : y.size = 0 → Past pool a size y) : Past pool a size y := by
  rcases Nat.eq_zero_or_pos y.size with hz | hpos
  · exact hzero hz
  have hlen : y.offset * 2 ^ pool.shift < (y.offset + y.size) * 2 ^ pool.shift :=
    Nat.mul_lt_mul_of_pos_right (by omega) (Nat.two_pow_pos _)
  rw [gap_eq hbefore hx hy, ← not_le, granules_le, not_le] at hgap
  rw [TeeMmEntry.bytes, Set.Ico_disjoint_Ico] at hfree
  unfold Past Before at *
  cases hhi : pool.hiAlloc <;> simp only [hhi, Bool.false_eq_true, if_false, if_true] at *
  all_goals
    rw [Nat.sub_mul] at hgap
    have := Nat.mul_le_mul_right (2 ^ pool.shift) hbefore
    rcases Nat.le_total (a + size) ((y.offset + y.size) * 2 ^ pool.shift) with h₁ | h₁ <;>
      rcases Nat.le_total a (y.offset * 2 ^ pool.shift) with h₂ | h₂ <;>
      simp only [min_eq_left, min_eq_right, max_eq_left, max_eq_right, h₁, h₂] at hfree <;> omega

theorem Past.last (hsize : 0 < size) : ∀ {x : TeeMmEntry} {l : List TeeMmEntry},
    (x :: l).IsChain (Before pool.hiAlloc) →
    ((x :: l).IsChain fun x y => gap pool.hiAlloc x y < granules size pool.shift) →
    (∀ y ∈ x :: l, y.offset + y.size < 2 ^ 32) →
    (∀ y ∈ l, Disjoint (Set.Ico a (a + size)) (y.bytes pool.shift)
      ∧ (y.size = 0 → Past pool a size y)) →
    Past pool a size x → Past pool a size (l.getLastD x)
  | x, [], _, _, _, _, hp => hp
  | x, y :: l, horder, hgaps, hlt, hfree, hp => by
    obtain ⟨hbefore, horder⟩ := List.isChain_cons_cons.1 horder
    obtain ⟨hgap, hgaps⟩ := List.isChain_cons_cons.1 hgaps
    obtain ⟨hdisj, hzero⟩ := hfree y List.mem_cons_self
    rw [List.getLastD_cons]
    refine Past.last hsize horder hgaps (fun z hz => hlt z (List.mem_cons_of_mem x hz))
      (fun z hz => hfree z (List.mem_cons_of_mem y hz)) ?_
    exact hp.next hsize hbefore (hlt x List.mem_cons_self)
      (hlt y (List.mem_cons_of_mem x List.mem_cons_self)) hgap hdisj hzero

/-- Entries without granules are at the start. -/
def EdgeZero (pool : TeeMmPool) : Prop :=
  ∀ e ∈ pool.entries, e.size = 0 → e.offset = pool.entry.offset

theorem Inv.past_entry (h : Inv pool) (ha : a + size ≤ pool.size) (he : e.size = 0)
    (heq : e.offset = pool.entry.offset) : Past pool a size e := by
  rw [Past, he, heq, h.entry_eq]
  dsimp only
  split_ifs
  · rwa [← h.size_eq]
  · simp

theorem Full.not_free (h : Inv pool) (hzero : EdgeZero pool)
    (hfull : Full pool (granules size pool.shift)) (a : ℕ) : ¬Free pool a size := by
  rintro ⟨ha, hfree⟩
  have hu := h.units_lt
  rw [uint32Max] at hu
  have hsize : 0 < size := by
    rcases Nat.eq_zero_or_pos size with rfl | hpos
    · exact absurd hfull.left (Nat.not_lt_zero _)
    · exact hpos
  have hlast : Past pool a size (pool.entries.getLastD pool.entry) := by
    refine Past.last hsize h.order hfull.gaps (fun y hy => ?_)
      (fun y hy => ⟨hfree y hy, fun hz => ?_⟩) ?_
    · have := h.inside_cons hy
      omega
    · exact h.past_entry ha hz (hzero y hy hz)
    · exact h.past_entry ha (by rw [h.entry_eq]) rfl
  have hleft := hfull.left
  have hin := h.inside_cons (last_mem (List.append_nil pool.entries))
  rw [← not_le, granules_le, not_le, TeeMmPool.left] at hleft
  rw [Past] at hlast
  have hsz := h.size_eq
  split_ifs at hleft hlast
  · omega
  · rw [Nat.sub_mul, ← hsz] at hleft
    omega

/-! ## `tee_mm_alloc2` -/

/-- The end of the range does not wrap around. -/
def EndsBelow (pool : TeeMmPool) (base size : ℕ) : Prop :=
  base - pool.lo + size + 2 ^ pool.shift ≤ 2 ^ 64

instance : Decidable (EndsBelow pool base size) := inferInstanceAs (Decidable (_ ≤ _))

theorem Inv.size_lt (h : Inv pool) : pool.size < 2 ^ 63 := by
  have hu := h.units_lt
  rw [uint32Max] at hu
  have hpow : 2 ^ pool.shift ≤ 2 ^ 31 := Nat.pow_le_pow_right (by decide) h.shift_lt.le
  calc pool.size = pool.units * 2 ^ pool.shift := h.size_eq
    _ ≤ pool.units * 2 ^ 31 := Nat.mul_le_mul_left _ hpow
    _ < 2 ^ 63 := by omega

theorem granules_mul_lt {n s : ℕ} : granules n s * 2 ^ s < n + 2 ^ s := by
  have hg : 0 < 2 ^ s := Nat.two_pow_pos s
  rw [granules]
  split_ifs with h
  · omega
  · have := Nat.div_mul_le_self (n - 1) (2 ^ s)
    rw [Nat.add_mul]
    omega

theorem offshi_eq {n : ℕ} (hn : 0 < n) (hlt : n + 2 ^ shift ≤ 2 ^ 64) :
    u64 (sub64 n 1 / 2 ^ shift + 1) = granules n shift := by
  have hg : 0 < 2 ^ shift := Nat.two_pow_pos shift
  have hdiv := Nat.div_le_self (n - 1) (2 ^ shift)
  rw [sub64_eq (by omega) (show 1 ≤ n from hn), granules, if_neg hn.ne', u64]
  exact Nat.mod_eq_of_lt (by omega)

theorem offshi_zero (h : shift < 31) :
    2 ^ 32 ∣ u64 (sub64 0 1 / 2 ^ shift + 1)
      ∧ u64 (u64 (sub64 0 1 / 2 ^ shift + 1) * 2 ^ shift) = 0 := by
  interval_cases shift <;> decide

theorem fitInGap_iff {last : TeeMmEntry} {next : Option TeeMmEntry} {offslo offshi : ℕ} (id : ℕ)
    (h : Inv pool) (hlast : last.offset + last.size ≤ pool.units)
    (hnext : ∀ n ∈ next, n.offset + n.size ≤ pool.units) (hle : offslo ≤ offshi) (hpos : 0 < offshi)
    (hend : offshi * 2 ^ pool.shift < 2 ^ 64) :
    fitInGap pool last next offslo offshi = true ↔ offshi ≤ pool.units
      ∧ Before pool.hiAlloc last ⟨id, offslo, offshi - offslo⟩
      ∧ ∀ n ∈ next, Before pool.hiAlloc ⟨id, offslo, offshi - offslo⟩ n := by
  have hu := h.units_lt
  rw [uint32Max] at hu
  have hsum : ∀ e : TeeMmEntry, e.offset + e.size ≤ pool.units →
      u32 (e.offset + e.size) = e.offset + e.size := fun e he => Nat.mod_eq_of_lt (by omega)
  have hbytes : offshi * 2 ^ pool.shift ≤ pool.size ↔ offshi ≤ pool.units := by
    rw [h.size_eq]
    exact Nat.mul_le_mul_right_iff (Nat.two_pow_pos _)
  have hmul : 0 < offshi * 2 ^ pool.shift := Nat.mul_pos hpos (Nat.two_pow_pos _)
  have hu64 : u64 (offshi * 2 ^ pool.shift) = offshi * 2 ^ pool.shift := Nat.mod_eq_of_lt hend
  rw [fitInGap]
  cases hhi : pool.hiAlloc <;>
    simp only [Bool.false_eq_true, if_false, if_true, Bool.not_eq_true', Bool.or_eq_false_iff,
      decide_eq_false_iff_not, not_lt, Option.any_eq_false, hsum last hlast, Before, hu64,
      Nat.add_sub_cancel' hle]
  · rw [hbytes]
    tauto
  · rw [sub64_eq (by omega) (show 1 ≤ _ from hmul)]
    refine ⟨fun ⟨⟨hl, hn⟩, _⟩ => ⟨by omega, hl, fun n hmem => ?_⟩,
      fun ⟨hin, hl, hn⟩ => ⟨⟨hl, fun n hmem => ?_⟩, ?_⟩⟩
    · rw [← hsum n (hnext n hmem)]
      exact hn n hmem
    · rw [hsum n (hnext n hmem)]
      exact hn n hmem
    · have := hbytes.2 hin
      omega

section

variable (h : Inv pool)
include h

theorem alloc2_cases (hend : EndsBelow pool base size) :
    teeMmAlloc2 pool base size true = (none, pool)
      ∨ ∃ nn pool', teeMmAlloc2 pool base size true = (some nn, pool') ∧ pool.lo ≤ base
        ∧ Set.Ico (base - pool.lo) (base - pool.lo + size) ⊆ nn.bytes pool.shift
        ∧ Inserts pool nn pool' := by
  rw [teeMmAlloc2]
  by_cases hbad : 2 ^ 64 ≤ base + size ∨ base < pool.lo
  · rw [if_pos hbad]
    exact .inl rfl
  rw [if_neg hbad, if_neg (by simp)]
  dsimp only
  generalize hlo : (base - pool.lo) / 2 ^ pool.shift = offslo
  generalize hhi : u64 (sub64 (base - pool.lo + size) 1 / 2 ^ pool.shift + 1) = offshi
  rcases hw :
    walk (fun _ next => if pool.hiAlloc then decide (offshi < u32 (next.offset + next.size))
    else decide (next.offset < offslo)) pool.entry pool.entries with ⟨passed, rest⟩
  obtain ⟨happ, -, -⟩ := walk_spec hw
  have hlast := h.inside_cons (last_mem happ)
  have hnext : ∀ n ∈ rest.head?, n.offset + n.size ≤ pool.units := fun n hn =>
    h.inside n (by rw [← happ]; exact List.mem_append_right _ (List.mem_of_mem_head? hn))
  by_cases hfit : fitInGap pool (passed.getLastD pool.entry) rest.head? offslo offshi = true
  swap
  · simp only [hw, if_neg hfit]
    exact .inl trivial
  simp only [hw, if_pos hfit]
  rcases Nat.eq_zero_or_pos (base - pool.lo + size) with hzero | hpos
  · -- no bytes at the start of the pool
    obtain ⟨hbase, rfl⟩ : base - pool.lo = 0 ∧ size = 0 := by omega
    rw [hzero] at hhi
    obtain ⟨hdvd, hmul⟩ := offshi_zero h.shift_lt
    rw [hhi] at hdvd hmul
    rw [hbase, Nat.zero_div] at hlo
    subst hlo
    have hadd : teeMmAdd pool passed rest 0 (sub64 offshi 0) = teeMmAdd pool passed rest 0 0 := by
      have hu32 : u32 (sub64 offshi 0) = u32 0 := by
        rw [sub64, u32, u32]
        omega
      rw [teeMmAdd, teeMmAdd, hu32]
    have hsize := h.size_lt
    have hu := h.units_lt
    rw [uint32Max] at hu
    rw [fitInGap, hmul] at hfit
    cases halloc : pool.hiAlloc <;>
      simp only [halloc, Bool.false_eq_true, if_false, if_true, Bool.not_eq_true',
        Bool.or_eq_false_iff, decide_eq_false_iff_not, not_lt] at hfit
    · have hl : Before pool.hiAlloc (passed.getLastD pool.entry) ⟨pool.fresh, 0, 0⟩ := by
        have := hfit.1.1
        rw [u32, Nat.mod_eq_of_lt (by omega)] at this
        rwa [Before, halloc]
      have hr : ∀ n ∈ rest.head?, Before pool.hiAlloc ⟨pool.fresh, 0, 0⟩ n := fun n _ => by
        rw [Before, halloc]
        exact Nat.zero_le _
      obtain ⟨pool', hadd', hins⟩ := h.add happ (Nat.zero_le _) hl hr
      rw [hadd, hadd']
      refine .inr ⟨_, pool', rfl, by omega, ?_, hins⟩
      rw [hbase, Set.Ico_self]
      exact Set.empty_subset _
    · have := hfit.2
      rw [show sub64 0 1 = 2 ^ 64 - 1 from rfl] at this
      omega
  · rw [offshi_eq hpos hend] at hhi
    have hcover := le_granules (base - pool.lo + size) pool.shift
    have hwrap := granules_mul_lt (n := base - pool.lo + size) (s := pool.shift)
    rw [hhi] at hcover hwrap
    have hstart : offslo * 2 ^ pool.shift ≤ base - pool.lo := by
      rw [← hlo]
      exact Nat.div_mul_le_self _ _
    have hle : offslo ≤ offshi := by
      refine Nat.le_of_mul_le_mul_right ?_ (Nat.two_pow_pos pool.shift)
      omega
    have hmul : offshi ≤ offshi * 2 ^ pool.shift := Nat.le_mul_of_pos_right _ (Nat.two_pow_pos _)
    have hlt := hwrap.trans_le hend
    have hup : 0 < offshi := Nat.pos_of_ne_zero fun h0 => by simp [h0] at hcover; omega
    obtain ⟨hin, hl, hr⟩ := (fitInGap_iff pool.fresh h hlast hnext hle hup hlt).1 hfit
    have hsub : sub64 offshi offslo = offshi - offslo := sub64_eq (by omega) hle
    obtain ⟨pool', hadd, hins⟩ := h.add happ (by omega) hl hr
    rw [hsub, hadd]
    refine .inr ⟨_, pool', rfl, by omega, ?_, hins⟩
    rw [TeeMmEntry.bytes, Nat.add_sub_cancel' hle]
    exact Set.Ico_subset_Ico hstart hcover

/-! ## Space that is free again -/

/-- An entry was taken out. -/
structure Removes (pool : TeeMmPool) (e : TeeMmEntry) (pool' : TeeMmPool) : Prop where
  inv : Inv pool'
  split : ∃ p r, pool.entries = p ++ e :: r ∧ pool' = { pool with entries := p ++ r }

theorem free_spec (he : e ∈ pool.entries) :
    ∃ pool', teeMmFree pool e.id = .ok pool' ∧ Removes pool e pool' := by
  obtain ⟨p, r, hsplit⟩ := List.append_of_mem he
  have hany : (pool.entries.any fun x => decide (x.id = e.id)) = true :=
    List.any_eq_true.2 ⟨e, he, by simp⟩
  refine ⟨_, if_pos hany, h.remove, p, r, hsplit, ?_⟩
  rw [h.eraseP_eq hsplit]

theorem Removes.not_full {psize : ℕ} (hr : Removes pool e pool')
    (hle : psize ≤ e.size) : ¬Full pool' psize := by
  rintro ⟨hgaps, hleft⟩
  obtain ⟨p, r, hsplit, rfl⟩ := hr.split
  have hu := h.units_lt
  rw [uint32Max] at hu
  have hin := h.inside e (by rw [hsplit]; simp)
  have hbefore := h.before_of_split hsplit.symm (show e ∈ (e :: r).head? from rfl)
  have hlast := h.inside_cons (last_mem hsplit.symm)
  cases r with
  | nil =>
    rw [List.append_nil] at hleft
    dsimp only at hleft
    rw [TeeMmPool.left] at hleft
    rw [Before] at hbefore
    dsimp only [TeeMmPool.units] at *
    split_ifs at hleft hbefore <;> omega
  | cons n r =>
    have hnext := (h.around hsplit).2 n List.mem_cons_self
    have hn := h.inside n (by rw [hsplit]; simp)
    have hgap := rel_of_isChain hgaps (show n ∈ (n :: r).head? from rfl)
    dsimp only at hgap
    rw [gap_eq (trans_of (Before pool.hiAlloc) hbefore hnext) (by omega) (by omega)] at hgap
    rw [Before] at hbefore hnext
    split_ifs at hgap hbefore hnext <;> omega

theorem Inv.units_pos (he : e ∈ pool.entries) (hpos : 0 < e.size) : 0 < pool.size := by
  have := h.inside e he
  rw [h.size_eq]
  exact Nat.mul_pos (by omega) (Nat.two_pow_pos _)

theorem Removes.alloc (hsmall : pool.size < 2 ^ 32) (he : e ∈ pool.entries)
    (hr : Removes pool e pool') (hpos : 0 < e.size) (hsize : size ≤ e.size * 2 ^ pool.shift) :
    ∃ nn pool'', teeMmAlloc pool' size true = .ok (some nn, pool'') := by
  have hpool := h.units_pos he hpos
  have hnot := hr.not_full h (granules_le.2 hsize)
  have hshift : pool'.shift = pool.shift ∧ pool'.size = pool.size := by
    obtain ⟨p, r, -, rfl⟩ := hr.split
    exact ⟨rfl, rfl⟩
  rcases alloc_cases hr.inv (hshift.2.trans_lt hsmall) size with ⟨-, -, hzero⟩ | ⟨-, hfull⟩
    | ⟨nn, pool'', halloc, -⟩
  · omega
  · rw [hshift.1] at hfull
    exact absurd hfull hnot
  · exact ⟨nn, pool'', halloc⟩

theorem Removes.alloc2 (hlim : pool.lo + pool.size < 2 ^ 64) (he : e ∈ pool.entries)
    (hr : Removes pool e pool') (hz : ∀ x ∈ pool.entries, 0 < x.size) :
    ∃ nn pool'', teeMmAlloc2 pool' (pool.lo + e.offset * 2 ^ pool.shift)
      (e.size * 2 ^ pool.shift) true
        = (some nn, pool'')
      ∧ nn.bytes pool.shift = e.bytes pool.shift := by
  obtain ⟨p, r, hsplit, rfl⟩ := hr.split
  have hu := h.units_lt
  rw [uint32Max] at hu
  have hin := h.inside e he
  have hg : 0 < 2 ^ pool.shift := Nat.two_pow_pos _
  have hle : (e.offset + e.size) * 2 ^ pool.shift ≤ pool.size := by
    rw [h.size_eq]
    exact Nat.mul_le_mul_right _ hin
  have hpow : 2 ^ pool.shift ≤ 2 ^ 31 := Nat.pow_le_pow_right (by decide) h.shift_lt.le
  have hsz := h.size_lt
  have hpos := hz e he
  have hoffshi :
    u64 (sub64 (e.offset * 2 ^ pool.shift + e.size * 2 ^ pool.shift) 1 / 2 ^ pool.shift + 1)
      = e.offset + e.size := by
    rw [← Nat.add_mul, offshi_eq (Nat.mul_pos (by omega) hg) (by omega)]
    refine le_antisymm (granules_le.2 le_rfl) ?_
    exact Nat.le_of_mul_le_mul_right (le_granules _ _) hg
  obtain ⟨hpe, her⟩ := h.around hsplit
  have hsum : ∀ x ∈ pool.entries, u32 (x.offset + x.size) = x.offset + x.size := fun x hx => by
    have := h.inside x hx
    exact Nat.mod_eq_of_lt (by omega)
  have hmem : ∀ x, x ∈ p ∨ x ∈ r → x ∈ pool.entries := fun x hx => by
    rw [hsplit]
    simp only [List.mem_append, List.mem_cons]
    tauto
  have hw : walk (fun _ next => if pool.hiAlloc then
        decide (e.offset + e.size < u32 (next.offset + next.size))
        else decide (next.offset < e.offset))
      pool.entry (p ++ r) = (p, r) := by
    refine walk_eq pool.entry (fun x hx => ?_) fun n hn => ?_
    · have hx' := hmem x (.inl hx)
      have := hz x hx'
      have hb := hpe x hx
      rw [hsum x hx']
      rw [Before] at hb
      split_ifs at hb ⊢ <;> exact decide_eq_true (by omega)
    · have hn' := List.mem_of_mem_head? hn
      have hb := her n hn'
      rw [hsum n (hmem n (.inr hn'))]
      rw [Before] at hb
      split_ifs at hb ⊢ <;> exact decide_eq_false (by omega)
  have hfit : fitInGap { pool with entries := p ++ r } (p.getLastD pool.entry) r.head? e.offset
      (e.offset + e.size) = true := by
    refine (fitInGap_iff e.id hr.inv (h.inside_cons (last_mem hsplit.symm))
      (fun n hn => h.inside n (hmem n (.inr (List.mem_of_mem_head? hn)))) (Nat.le_add_right _ _)
      (by omega) (by dsimp only; omega)).2 ?_
    rw [Nat.add_sub_cancel_left]
    exact ⟨hin, h.before_of_split hsplit.symm (show e ∈ (e :: r).head? from rfl),
      fun n hn => her n (List.mem_of_mem_head? hn)⟩
  have hrun : teeMmAlloc2 { pool with entries := p ++ r } (pool.lo + e.offset * 2 ^ pool.shift)
      (e.size * 2 ^ pool.shift) true
      = (some (teeMmAdd { pool with entries := p ++ r } p r e.offset
        (sub64 (e.offset + e.size) e.offset)).1,
        (teeMmAdd { pool with entries := p ++ r } p r e.offset
        (sub64 (e.offset + e.size) e.offset)).2) := by
    have hok : ¬(2 ^ 64 ≤ pool.lo + e.offset * 2 ^ pool.shift + e.size * 2 ^ pool.shift
        ∨ pool.lo + e.offset * 2 ^ pool.shift < pool.lo) := by
      rw [Nat.add_assoc, ← Nat.add_mul]
      omega
    rw [teeMmAlloc2]
    dsimp only
    rw [if_neg hok, if_neg (by simp)]
    simp only [Nat.add_sub_cancel_left, Nat.mul_div_cancel _ hg, hoffshi, hw, if_pos hfit]
  refine ⟨_, _, hrun, ?_⟩
  have hsize : sub64 (e.offset + e.size) e.offset = e.size := by
    rw [sub64_eq (by omega) (by omega)]
    omega
  rw [hsize, teeMmAdd, TeeMmEntry.bytes, TeeMmEntry.bytes]
  dsimp only
  rw [u32, u32, Nat.mod_eq_of_lt (by omega), Nat.mod_eq_of_lt (by omega)]

end

/-! ## Sequences of calls -/

theorem top_eq {k : ℕ} (hshift : shift < 31) (hk : k < uint32Max) :
    u32 (sub64 (k * 2 ^ shift) 1 / 2 ^ shift + 1) = k := by
  have hg : 0 < 2 ^ shift := Nat.two_pow_pos shift
  have hpow : 2 ^ shift ≤ 2 ^ 31 := Nat.pow_le_pow_right (by decide) hshift.le
  rw [uint32Max] at hk
  rcases Nat.eq_zero_or_pos k with rfl | hpos
  · rw [Nat.zero_mul, u32]
    have := (offshi_zero hshift).1
    rw [u64] at this
    omega
  · have hlt : k * 2 ^ shift ≤ 2 ^ 32 * 2 ^ 31 := Nat.mul_le_mul (by omega) hpow
    have hmul : 0 < k * 2 ^ shift := Nat.mul_pos hpos hg
    have hend := offshi_eq hmul (show k * 2 ^ shift + 2 ^ shift ≤ 2 ^ 64 by omega)
    have hgran : granules (k * 2 ^ shift) shift = k :=
      le_antisymm (granules_le.2 le_rfl) (Nat.le_of_mul_le_mul_right (le_granules _ _) hg)
    rw [hgran, u64] at hend
    rw [u32]
    omega

theorem inv_init {lo : ℕ} {malloc : Bool}
    (h : teeMmInit lo size shift hiAlloc malloc = .ok (some pool)) :
    Inv pool ∧ pool.entries = [] := by
  rw [teeMmInit] at h
  by_cases hshift : 31 ≤ shift
  · rw [if_pos hshift] at h
    cases h
  rw [if_neg hshift] at h
  dsimp only at h
  rw [rounddown] at h
  generalize sub64 size (sub64 (wrapRoundup 64 (2 ^ shift) lo) lo) / 2 ^ shift = k at h
  rw [Nat.mul_div_cancel _ (Nat.two_pow_pos shift)] at h
  by_cases hassert : uint32Max ≤ k
  · rw [if_pos hassert] at h
    cases h
  rw [if_neg hassert] at h
  cases malloc with
  | false => cases h
  | true =>
    cases h
    have hunits : k * 2 ^ shift / 2 ^ shift = k := Nat.mul_div_cancel _ (Nat.two_pow_pos shift)
    refine ⟨⟨Nat.not_le.1 hshift, ?_, ?_, ?_, .singleton _, nofun, .nil, nofun⟩, rfl⟩
    · rw [TeeMmPool.units, hunits]
    · rw [TeeMmPool.units, hunits]
      exact Nat.not_le.1 hassert
    · rw [TeeMmPool.units, hunits, top_eq (Nat.not_le.1 hshift) (Nat.not_le.1 hassert)]

/-- No range that is asked for wraps around. -/
def Allowed (pool : TeeMmPool) : Call → Prop
  | .alloc2 base size _ => EndsBelow pool base size
  | _ => True

instance : ∀ pool call, Decidable (Allowed pool call)
  | _, .alloc _ _ => isTrue trivial
  | pool, .alloc2 base size _ => inferInstanceAs (Decidable (EndsBelow pool base size))
  | _, .free _ => isTrue trivial

/-- The pool itself is the same. -/
def Same (pool pool' : TeeMmPool) : Prop :=
  pool'.entry = pool.entry ∧ pool'.lo = pool.lo ∧ pool'.size = pool.size ∧ pool'.shift = pool.shift
    ∧ pool'.hiAlloc = pool.hiAlloc

theorem step_cases (h : Inv pool) (hsmall : pool.size < 2 ^ 32) (hc : Allowed pool call)
    (hs : step pool call = .ok pool') : pool' = pool
      ∨ (∃ nn, Inserts pool nn pool'
        ∧ ((∃ base size malloc, call = .alloc2 base size malloc)
          ∨ (nn.size = 0 → nn.offset = pool.entry.offset)))
      ∨ ∃ e ∈ pool.entries, Removes pool e pool' := by
  cases call with
  | alloc size malloc =>
    cases malloc with
    | false =>
      cases hs
      exact .inl rfl
    | true =>
      simp only [step] at hs
      rcases alloc_cases h hsmall size with ⟨heq, -⟩ | ⟨heq, -⟩
        | ⟨nn, pool'', heq, -, hzero, hins⟩ <;> rw [heq] at hs <;> cases hs
      · exact .inl rfl
      · exact .inr (.inl ⟨nn, hins, .inr hzero⟩)
  | alloc2 base size malloc =>
    cases hs
    cases malloc with
    | false =>
      refine .inl ?_
      rw [teeMmAlloc2]
      split_ifs <;> simp_all
    | true =>
      rcases alloc2_cases h hc with heq | ⟨nn, pool'', heq, -, -, hins⟩ <;> rw [heq]
      · exact .inl rfl
      · exact .inr (.inl ⟨nn, hins, .inl ⟨base, size, true, rfl⟩⟩)
  | free id =>
    refine .inr (.inr ?_)
    simp only [step, teeMmFree] at hs
    split_ifs at hs with hany
    obtain ⟨e, he, heq⟩ := List.any_eq_true.1 hany
    obtain rfl : e.id = id := by simpa using heq
    obtain ⟨pool'', hfree, hrem⟩ := free_spec h he
    rw [teeMmFree, if_pos hany] at hfree
    exact ⟨e, he, (Except.ok.inj (hs.symm.trans hfree)) ▸ hrem⟩

theorem Inserts.same (h : Inserts pool nn pool') : Same pool pool' := by
  obtain ⟨_, _, -, rfl, -⟩ := h
  exact ⟨rfl, rfl, rfl, rfl, rfl⟩

theorem Removes.same (h : Removes pool e pool') : Same pool pool' := by
  obtain ⟨_, _, -, rfl⟩ := h.split
  exact ⟨rfl, rfl, rfl, rfl, rfl⟩

theorem Inserts.mem_iff (h : Inserts pool nn pool') :
    e ∈ pool'.entries ↔ e = nn ∨ e ∈ pool.entries := by
  obtain ⟨p, r, hsplit, rfl, -⟩ := h
  rw [← hsplit]
  simp only [List.mem_append, List.mem_cons]
  tauto

section

variable (h : Inv pool ∧ pool.size < 2 ^ 32)
include h

theorem step_same (hc : Allowed pool call) (hs : step pool call = .ok pool') : Same pool pool' := by
  rcases step_cases h.1 h.2 hc hs with rfl | ⟨nn, hins, -⟩ | ⟨e, -, hrem⟩
  · exact ⟨rfl, rfl, rfl, rfl, rfl⟩
  · exact hins.same
  · exact hrem.same

theorem step_inv (hc : Allowed pool call) (hs : step pool call = .ok pool') :
    Inv pool' ∧ pool'.size < 2 ^ 32 := by
  refine ⟨?_, (step_same h hc hs).2.2.1.trans_lt h.2⟩
  rcases step_cases h.1 h.2 hc hs with rfl | ⟨nn, hins, -⟩ | ⟨e, -, hrem⟩
  · exact h.1
  · obtain ⟨_, _, -, -, hinv⟩ := hins
    exact hinv
  · exact hrem.inv

theorem step_edgeZero (hz : EdgeZero pool) (hc : Allowed pool call)
    (hno : ∀ base size malloc, .alloc2 base size malloc ≠ call)
    (hs : step pool call = .ok pool') : EdgeZero pool' := by
  rcases step_cases h.1 h.2 hc hs with rfl | ⟨nn, hins, halloc2 | hzero⟩ | ⟨e, -, hrem⟩
  · exact hz
  · obtain ⟨base, size, malloc, heq⟩ := halloc2
    exact absurd heq.symm (hno base size malloc)
  · intro e he hsize
    rw [hins.same.1]
    rcases hins.mem_iff.1 he with rfl | he
    · exact hzero hsize
    · exact hz e he hsize
  · obtain ⟨p, r, hsplit, rfl⟩ := hrem.split
    intro x hx
    refine hz x ?_
    rw [hsplit]
    simp only [List.mem_append, List.mem_cons] at hx ⊢
    tauto

end

theorem allowed_of_ne (hno : ∀ base size malloc, .alloc2 base size malloc ≠ call) :
    Allowed pool call := by
  cases call with
  | alloc2 base size malloc => exact absurd rfl (hno base size malloc)
  | _ => trivial

theorem exec_edgeZero {calls : List Call} (h : (Inv pool ∧ pool.size < 2 ^ 32) ∧ EdgeZero pool)
    (hno : ∀ base size malloc, .alloc2 base size malloc ∉ calls)
    (hrun : exec step pool calls = .ok pool') :
    (Inv pool' ∧ pool'.size < 2 ^ 32) ∧ EdgeZero pool' := by
  refine exec_invariant (g := fun _ call => ∀ base size malloc, Call.alloc2 base size malloc ≠ call)
    (P := fun p => (Inv p ∧ p.size < 2 ^ 32) ∧ EdgeZero p) (fun s call s' hs hc hstep => ?_) h
    (guarded_of_forall fun call hcall base size malloc heq => hno base size malloc
    (heq ▸ hcall)) hrun
  exact ⟨step_inv hs.1 (allowed_of_ne hc) hstep,
    step_edgeZero hs.1 hs.2 (allowed_of_ne hc) hc hstep⟩

/-! ## Soundness -/

/-- Entries are sorted, disjoint and inside of the pool. -/
structure Sound (pool : TeeMmPool) : Prop where
  sorted : pool.entries.Pairwise fun a b =>
    if pool.hiAlloc then b.offset ≤ a.offset else a.offset ≤ b.offset
  disjoint : pool.entries.Pairwise fun a b => Disjoint (a.bytes pool.shift) (b.bytes pool.shift)
  inside : ∀ e ∈ pool.entries, (e.offset + e.size) * 2 ^ pool.shift ≤ pool.size

/-- What is allocated is large enough. -/
def AllocServes (pool : TeeMmPool) : Prop :=
  ∀ size nn pool', teeMmAlloc pool size true = .ok (some nn, pool') →
    size ≤ nn.size * 2 ^ pool.shift ∧ nn ∈ pool'.entries

/-- If there is room, it is allocated. -/
def AllocComplete (pool : TeeMmPool) : Prop :=
  (pool.hiAlloc = false → 0 < pool.size) → ∀ size, (∃ a, Free pool a size) →
    ∃ nn pool', teeMmAlloc pool size true = .ok (some nn, pool')

/-- The range that `tee_mm_alloc2` returns was free and is covered. -/
def Alloc2Serves (pool : TeeMmPool) : Prop :=
  ∀ base size nn pool', EndsBelow pool base size →
    teeMmAlloc2 pool base size true = (some nn, pool') →
    pool.lo ≤ base ∧ nn ∈ pool'.entries
      ∧ Set.Ico (base - pool.lo) (base - pool.lo + size) ⊆ nn.bytes pool.shift
      ∧ ∀ e ∈ pool.entries,
        Disjoint (Set.Ico (base - pool.lo) (base - pool.lo + size)) (e.bytes pool.shift)

/-- After an entry was freed, as many bytes can be allocated by `tee_mm_alloc`, and the same place
by `tee_mm_alloc2` if no entry is without bytes. -/
def Reusable (pool : TeeMmPool) : Prop :=
  ∀ e ∈ pool.entries, 0 < e.size → ∃ pool', teeMmFree pool e.id = .ok pool'
    ∧ (∀ size, size ≤ e.size * 2 ^ pool.shift →
        ∃ nn pool'', teeMmAlloc pool' size true = .ok (some nn, pool''))
    ∧ (pool.lo + pool.size < 2 ^ 64 → (∀ x ∈ pool.entries, 0 < x.size) →
        ∃ nn pool'', teeMmAlloc2 pool' (pool.lo + e.offset * 2 ^ pool.shift)
            (e.size * 2 ^ pool.shift) true = (some nn, pool'')
          ∧ nn.bytes pool.shift = e.bytes pool.shift)

theorem Inv.sound (h : Inv pool) : Sound pool where
  sorted := h.pairwise.imp fun {a b} hab => by
    rw [Before] at hab
    split_ifs at hab ⊢ <;> omega
  disjoint := h.pairwise.imp fun hab => hab.disjoint _
  inside e he := by
    rw [h.size_eq]
    exact Nat.mul_le_mul_right _ (h.inside e he)

theorem Inv.allocServes (h : Inv pool) (hsmall : pool.size < 2 ^ 32) : AllocServes pool := by
  intro size nn pool' hall
  rcases alloc_cases h hsmall size with ⟨heq, -⟩ | ⟨heq, -⟩ | ⟨nn', pool'', heq, hsize, -, hins⟩ <;>
    rw [heq] at hall <;> cases hall
  exact ⟨hsize ▸ le_granules _ _, hins.mem_iff.2 (.inl rfl)⟩

theorem Inv.allocComplete (h : Inv pool) (hsmall : pool.size < 2 ^ 32)
    (hz : EdgeZero pool) : AllocComplete pool := by
  rintro hne size ⟨a, hfree⟩
  rcases alloc_cases h hsmall size with ⟨-, hlow, hzero⟩ | ⟨-, hfull⟩ | ⟨nn, pool', heq, -⟩
  · exact absurd hzero (hne hlow).ne'
  · exact absurd hfree (hfull.not_free h hz a)
  · exact ⟨nn, pool', heq⟩

theorem Inserts.disjoint (hins : Inserts pool nn pool') (he : e ∈ pool.entries) :
    Disjoint (nn.bytes pool.shift) (e.bytes pool.shift) := by
  obtain ⟨p, r, hsplit, rfl, hinv⟩ := hins
  obtain ⟨hp, hr⟩ := hinv.around rfl
  rw [← hsplit, List.mem_append] at he
  rcases he with he | he
  · exact ((hp e he).disjoint _).symm
  · exact (hr e he).disjoint _

theorem Inv.alloc2Serves (h : Inv pool) : Alloc2Serves pool := by
  intro base size nn pool' hend hall
  rcases alloc2_cases h hend with heq | ⟨nn', pool'', heq, hlo, hcover, hins⟩ <;>
    rw [heq] at hall <;> cases hall
  exact ⟨hlo, hins.mem_iff.2 (.inl rfl), hcover,
    fun e he => (hins.disjoint he).mono_left hcover⟩

theorem Inv.reusable (h : Inv pool) (hsmall : pool.size < 2 ^ 32) : Reusable pool := by
  intro e he hpos
  obtain ⟨pool', hfree, hrem⟩ := free_spec h he
  exact ⟨pool', hfree, fun size hsize => hrem.alloc h hsmall he hpos hsize,
    fun hlim hz => hrem.alloc2 h hlim he hz⟩

/-- In a pool of less than 4 GiB, with no `tee_mm_alloc2` of the end of the address space, calls
keep the pool sound and do what they are for. -/
theorem pool_sound {lo shift : ℕ} {hiAlloc : Bool} {pool₀ : TeeMmPool} {calls : List Call}
    (hinit : teeMmInit lo size shift hiAlloc true = .ok (some pool₀)) (hsmall : pool₀.size < 2 ^ 32)
    (hcalls : Guarded Allowed step pool₀ calls) (hrun : exec step pool₀ calls = .ok pool) :
    Sound pool ∧ AllocServes pool
      ∧ ((∀ base size malloc, .alloc2 base size malloc ∉ calls) → AllocComplete pool)
      ∧ Alloc2Serves pool ∧ Reusable pool := by
  obtain ⟨hinv₀, hnil⟩ := inv_init hinit
  obtain ⟨hinv, hlt⟩ :=
    exec_invariant (fun _ _ _ h hc hs => step_inv h hc hs) ⟨hinv₀, hsmall⟩ hcalls hrun
  refine ⟨hinv.sound, hinv.allocServes hlt, fun hno => hinv.allocComplete hlt ?_, hinv.alloc2Serves,
    hinv.reusable hlt⟩
  have hz₀ : EdgeZero pool₀ := by
    rw [EdgeZero, hnil]
    exact nofun
  exact (exec_edgeZero ⟨⟨hinv₀, hsmall⟩, hz₀⟩ hno hrun).2

theorem pool_sound_reserved :
    ∃ pool₀ pool, teeMmInit 0x1000 0x100000 12 true true = .ok (some pool₀)
      ∧ exec step pool₀ [.alloc2 0x2345 1 true, .alloc 0x1001 true, .free 1] = .ok pool
      ∧ Sound pool ∧ Reusable pool := by
  obtain ⟨pool₀, hinit, hsmall, hcalls, hrun⟩ : ∃ pool₀,
      teeMmInit 0x1000 0x100000 12 true true = .ok (some pool₀) ∧ pool₀.size < 2 ^ 32
        ∧ Guarded Allowed step pool₀ [.alloc2 0x2345 1 true, .alloc 0x1001 true, .free 1]
        ∧ ∃ pool, exec step pool₀ [.alloc2 0x2345 1 true, .alloc 0x1001 true, .free 1] = .ok pool :=
    ⟨_, rfl, by decide, by decide, _, rfl⟩
  obtain ⟨pool, hrun⟩ := hrun
  have hsound := pool_sound hinit hsmall hcalls hrun
  exact ⟨pool₀, pool, hinit, hrun, hsound.1, hsound.2.2.2.2⟩

/-- In a pool of 8 GiB, with 4 GiB allocated, an entry of 8 GiB is put after the first, half of it
past the end. -/
theorem pool_overrun : ∃ pool₀ pool, teeMmInit 0x40000000 (2 ^ 33) 12 false true = .ok (some pool₀)
      ∧ exec step pool₀ [.alloc (2 ^ 32) true, .alloc (2 ^ 33) true] = .ok pool ∧ ¬Sound pool := by
  refine ⟨⟨⟨0, 0, 0⟩, [], 2 ^ 30, 2 ^ 33, 12, false, 1⟩,
    ⟨⟨0, 0, 0⟩, [⟨1, 0, 2 ^ 20⟩, ⟨2, 2 ^ 20, 2 ^ 21⟩], 2 ^ 30, 2 ^ 33, 12, false, 3⟩,
    by decide +kernel, by decide +kernel, fun h => ?_⟩
  exact absurd (h.inside ⟨2, 2 ^ 20, 2 ^ 21⟩ (by decide)) (by decide)

end Optee.TeeMm
