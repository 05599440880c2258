import Mathlib.Data.List.Basic
import Mathlib.Algebra.Group.Nat.Defs
import Mathlib.Data.Nat.Basic
import Mathlib.Order.Basic
import Mathlib.Tactic.Common

/-!
# Translation tables

Tables of several levels that translate addresses. What the table is filled with that `Levels.find`
finds is what the addresses of its entries are translated to (`Levels.translate_fill`), and no
others (`Levels.translate_fill_outside`).
-/

namespace Optee.PageTables

variable {α : Type}

/-- An entry of a table. -/
inductive Desc (α : Type) where
  | invalid
  | block (pa : ℕ) (attr : α)
  | table

/-- What an entry for blocks of `2 ^ shift` bytes translates an address to. -/
def Desc.at (shift va : ℕ) : Desc α → Option ℕ
  | .block pa _ => some (pa + va % 2 ^ shift)
  | _ => none

/-- The entries of the tables of each level, by the shift of the level and the number of the
block. -/
abbrev Tables (α : Type) := ℕ → ℕ → Desc α

def Tables.set (tables : Tables α) (shift n : ℕ) (d : Desc α) : Tables α :=
  fun s m => if s = shift ∧ m = n then d else tables s m

/-- A table: the address that its first entry is for, the shift of its level and how many entries it
has. -/
structure TableInfo where
  vaBase : ℕ
  shift : ℕ
  numEntries : ℕ

namespace TableInfo

variable (t : TableInfo)

/-- The address after the last that the table is for. -/
def vaEnd : ℕ := t.vaBase + t.numEntries * 2 ^ t.shift

/-- The number of the block that the first entry is for. -/
def firstBlock : ℕ := t.vaBase / 2 ^ t.shift

end TableInfo

/-- The shifts of the levels from the base level on, and how many entries the base table has. -/
structure Levels where
  numEntries : ℕ
  shift : ℕ
  finer : List ℕ
  sorted : (shift :: finer).Pairwise (· > ·)

/-- The walk to the table that decides about an address, from a table of a level on. -/
def findFrom (tables : Tables α) : TableInfo → List ℕ → ℕ → Option TableInfo
  | t, [], va => if t.numEntries ≤ (va - t.vaBase) / 2 ^ t.shift then none else some t
  | t, s :: finer, va =>
    if t.numEntries ≤ (va - t.vaBase) / 2 ^ t.shift then none
    else
      match tables t.shift (va / 2 ^ t.shift) with
      | .table => findFrom tables ⟨va / 2 ^ t.shift * 2 ^ t.shift, s, 2 ^ (t.shift - s)⟩ finer va
      | _ => some t

/-- The translation of an address, from a level on. -/
def translateFrom (tables : Tables α) : ℕ → List ℕ → ℕ → Option ℕ
  | s, [], va => (tables s (va / 2 ^ s)).at s va
  | s, s' :: finer, va =>
    match tables s (va / 2 ^ s) with
    | .table => translateFrom tables s' finer va
    | d => d.at s va

namespace Levels

variable (lv : Levels)

/-- The base table. -/
def base : TableInfo := ⟨0, lv.shift, lv.numEntries⟩

/-- The table with the entry that decides about an address. -/
def find (tables : Tables α) (va : ℕ) : Option TableInfo := findFrom tables lv.base lv.finer va

/-- What an address is translated to. -/
def translate (tables : Tables α) (va : ℕ) : Option ℕ :=
  if va < lv.base.vaEnd then translateFrom tables lv.shift lv.finer va else none

end Levels

/-- Entries of a table from an index on, one after the other, `none` if an index is not one of the
table. -/
def fill (t : TableInfo) (desc : ℕ → Desc α) : ℕ → ℕ → Tables α → Option (Tables α)
  | 0, _, tables => some tables
  | n + 1, idx, tables =>
    if idx < t.numEntries then
      fill t (fun k => desc (k + 1)) n (idx + 1) (tables.set t.shift (t.firstBlock + idx) (desc 0))
    else none

/-! ### The table of an address -/

variable {tables tables' : Tables α} {t t' : TableInfo} {lv : Levels} {va x s n idx size : ℕ}
  {finer : List ℕ} {desc : ℕ → Desc α}

/-- A table whose range begins and ends between blocks of its level. -/
structure TableInfo.Holds (t : TableInfo) (va : ℕ) : Prop where
  aligned : 2 ^ t.shift ∣ t.vaBase
  base_le : t.vaBase ≤ va
  lt_end : va < t.vaEnd

theorem lt_vaEnd_iff (h : t.vaBase ≤ va) :
    va < t.vaEnd ↔ (va - t.vaBase) / 2 ^ t.shift < t.numEntries := by
  rw [Nat.div_lt_iff_lt_mul (Nat.two_pow_pos _), TableInfo.vaEnd]
  omega

/-- One table is for a part of what another is for, and of a level that is not above it. -/
structure TableInfo.Inside (t' t : TableInfo) : Prop where
  shift_le : t'.shift ≤ t.shift
  base_le : t.vaBase ≤ t'.vaBase
  end_le : t'.vaEnd ≤ t.vaEnd

theorem holds_next (h : t.Holds va) (hs : s < t.shift) :
    (TableInfo.mk (va / 2 ^ t.shift * 2 ^ t.shift) s (2 ^ (t.shift - s))).Holds va ∧
      (TableInfo.mk (va / 2 ^ t.shift * 2 ^ t.shift) s (2 ^ (t.shift - s))).Inside t := by
  have hpos : 0 < 2 ^ t.shift := Nat.two_pow_pos _
  have hpow : 2 ^ (t.shift - s) * 2 ^ s = 2 ^ t.shift := by
    rw [← Nat.pow_add]
    congr 1
    omega
  have hmod := Nat.div_add_mod' va (2 ^ t.shift)
  have hlt := Nat.mod_lt va hpos
  obtain ⟨b, hb⟩ := h.aligned
  have hbase : t.vaBase ≤ va / 2 ^ t.shift * 2 ^ t.shift := by
    rw [hb, Nat.mul_comm]
    refine Nat.mul_le_mul_right _ ((Nat.le_div_iff_mul_le hpos).2 ?_)
    rw [Nat.mul_comm, ← hb]
    exact h.base_le
  have hend : va / 2 ^ t.shift * 2 ^ t.shift + 2 ^ t.shift ≤ t.vaEnd := by
    have hva := h.lt_end
    rw [TableInfo.vaEnd, hb, Nat.mul_comm (2 ^ t.shift) b, ← Nat.add_mul] at hva ⊢
    rw [← Nat.succ_mul]
    exact Nat.mul_le_mul_right _ ((Nat.div_lt_iff_lt_mul hpos).2 hva)
  refine ⟨⟨?_, ?_, ?_⟩, hs.le, hbase, ?_⟩
  · exact Nat.dvd_trans (Nat.pow_dvd_pow 2 hs.le) (Nat.dvd_mul_left _ _)
  · exact Nat.div_mul_le_self va _
  · simp only [TableInfo.vaEnd, hpow]
    omega
  · simp only [TableInfo.vaEnd, hpow] at hend ⊢
    exact hend

theorem TableInfo.Inside.refl (t : TableInfo) : t.Inside t :=
  ⟨Nat.le_refl _, Nat.le_refl _, Nat.le_refl _⟩

theorem findFrom_cons (h : findFrom tables t (s :: finer) va = some t') :
    t' = t ∨ tables t.shift (va / 2 ^ t.shift) = .table ∧
      findFrom tables ⟨va / 2 ^ t.shift * 2 ^ t.shift, s, 2 ^ (t.shift - s)⟩ finer va
        = some t' := by
  rw [findFrom] at h
  split at h
  · cases h
  · split at h
    · exact .inr ⟨‹_›, h⟩
    · exact .inl (Option.some.inj h).symm

theorem findFrom_inside :
    ∀ {finer : List ℕ} {t : TableInfo}, (t.shift :: finer).Pairwise (· > ·) → t.Holds va →
    findFrom tables t finer va = some t' → t'.Holds va ∧ t'.Inside t
  | [], t, _, ht, h => by
    rw [findFrom] at h
    split at h
    · cases h
    · obtain rfl := Option.some.inj h
      exact ⟨ht, .refl t⟩
  | s :: finer, t, hsort, ht, h => by
    rcases findFrom_cons h with rfl | ⟨-, h⟩
    · exact ⟨ht, .refl t'⟩
    · have hs : s < t.shift := List.rel_of_pairwise_cons hsort List.mem_cons_self
      obtain ⟨hnext, hin⟩ := holds_next ht hs
      obtain ⟨hholds, hin'⟩ := findFrom_inside (t := ⟨_, s, _⟩) (.of_cons hsort) hnext h
      exact ⟨hholds, hin'.shift_le.trans hin.shift_le, hin.base_le.trans hin'.base_le,
        hin'.end_le.trans hin.end_le⟩

theorem findFrom_numEntries {b N : ℕ} :
    ∀ {finer : List ℕ} {t : TableInfo}, t.numEntries < N → t.shift ≤ b →
    (t.shift :: finer).Pairwise (· > ·) → (∀ s ∈ finer, 2 ^ (b - s) < N) →
      findFrom tables t finer va = some t' →
    t'.numEntries < N
  | [], t, hN, _, _, _, h => by
    rw [findFrom] at h
    split at h
    · cases h
    · obtain rfl := Option.some.inj h
      exact hN
  | s :: finer, t, hN, hb, hsort, hfiner, h => by
    rcases findFrom_cons h with rfl | ⟨-, h⟩
    · exact hN
    · have hs : s < t.shift := List.rel_of_pairwise_cons hsort List.mem_cons_self
      have hnum : 2 ^ (t.shift - s) < N :=
        (Nat.pow_le_pow_right Nat.two_pos (Nat.sub_le_sub_right hb s)).trans_lt
          (hfiner s List.mem_cons_self)
      exact findFrom_numEntries (t := ⟨_, s, _⟩) hnum (hs.le.trans hb) (.of_cons hsort)
        (fun s' hs' => hfiner s' (List.mem_cons_of_mem s hs')) h

theorem Levels.find_numEntries {N : ℕ} (hN : lv.numEntries < N)
    (hfiner : ∀ s ∈ lv.finer, 2 ^ (lv.shift - s) < N)
    (h : lv.find tables va = some t) : t.numEntries < N :=
  findFrom_numEntries (t := lv.base) hN (Nat.le_refl _) lv.sorted hfiner h

theorem Levels.lt_of_find (h : lv.find tables va = some t) : va < lv.base.vaEnd := by
  rw [lt_vaEnd_iff (Nat.zero_le va)]
  rw [Levels.find] at h
  cases hf : lv.finer with
  | nil =>
    rw [hf, findFrom] at h
    split at h
    · cases h
    · omega
  | cons s finer =>
    rw [hf, findFrom] at h
    split at h
    · cases h
    · omega

theorem Levels.find_inside (h : lv.find tables va = some t) : t.Holds va ∧ t.Inside lv.base :=
  findFrom_inside lv.sorted ⟨Nat.dvd_zero _, Nat.zero_le va, Levels.lt_of_find h⟩ h

/-! ### What a table is filled with -/

theorem fill_eq :
    ∀ {n idx : ℕ} {desc : ℕ → Desc α} {tables : Tables α}, idx + n ≤ t.numEntries →
    fill t desc n idx tables = some fun s m =>
      if s = t.shift ∧ t.firstBlock + idx ≤ m
        ∧ m < t.firstBlock + idx + n then desc (m - (t.firstBlock + idx))
      else tables s m
  | 0, idx, desc, tables, _ => by
    rw [fill]
    congr 1
    funext s m
    rw [if_neg (by omega)]
  | n + 1, idx, desc, tables, h => by
    rw [fill, if_pos (by omega), fill_eq (by omega)]
    congr 1
    funext s m
    rw [Tables.set]
    rcases Nat.lt_trichotomy m (t.firstBlock + idx) with hm | hm | hm
    · rw [if_neg (by omega), if_neg (by omega), if_neg (by omega)]
    · subst hm
      by_cases hs : s = t.shift
      · rw [if_neg (by omega), if_pos ⟨hs, rfl⟩, if_pos ⟨hs, by omega⟩, Nat.sub_self]
      · rw [if_neg (by tauto), if_neg (by tauto), if_neg (by tauto)]
    · have hk : m - (t.firstBlock + (idx + 1)) + 1 = m - (t.firstBlock + idx) := by omega
      rw [if_neg (c := _ ∧ m = _) (by omega)]
      by_cases hin : s = t.shift ∧ t.firstBlock + idx ≤ m ∧ m < t.firstBlock + idx + (n + 1)
      · rw [if_pos hin, if_pos ⟨hin.1, by omega⟩, hk]
      · rw [if_neg hin, if_neg (by omega)]

theorem translateFrom_of_findFrom :
    ∀ {finer : List ℕ} {t : TableInfo}, (t.shift :: finer).Pairwise (· > ·) →
    t.Holds va → findFrom tables t finer va = some t' →
      (∀ s, t'.shift < s → ∀ n, tables' s n = tables s n) →
    t'.vaBase ≤ x → x < t'.vaEnd → tables' t'.shift (x / 2 ^ t'.shift) ≠ .table →
    translateFrom tables' t.shift finer x = (tables' t'.shift (x / 2 ^ t'.shift)).at t'.shift x
  | [], t, _, _, h, _, _, _, _ => by
    rw [findFrom] at h
    split at h
    · cases h
    · obtain rfl := Option.some.inj h
      rfl
  | s :: finer, t, hsort, ht, h, hsame, hlo, hhi, hd => by
    rcases findFrom_cons h with rfl | ⟨htab, h⟩
    · rw [translateFrom]
      split
      · exact absurd ‹_› hd
      · rfl
    · have hs : s < t.shift := List.rel_of_pairwise_cons hsort List.mem_cons_self
      obtain ⟨hnext, -⟩ := holds_next ht hs
      obtain ⟨-, hin⟩ := findFrom_inside (t := ⟨_, s, _⟩) (.of_cons hsort) hnext h
      have hpow : 2 ^ (t.shift - s) * 2 ^ s = 2 ^ t.shift := by
        rw [← Nat.pow_add]
        congr 1
        omega
      have hblock : x / 2 ^ t.shift = va / 2 ^ t.shift := by
        have hbase := hin.base_le
        have hend := hin.end_le
        simp only [TableInfo.vaEnd, hpow] at hbase hend hhi
        refine Nat.div_eq_of_lt_le (by omega) ?_
        rw [Nat.succ_mul]
        omega
      rw [translateFrom, hsame t.shift (hin.shift_le.trans_lt hs), hblock, htab]
      exact translateFrom_of_findFrom (t := ⟨_, s, _⟩) (.of_cons hsort) hnext h hsame hlo hhi hd

theorem translateFrom_congr : ∀ {finer : List ℕ} {s : ℕ},
    (∀ s', tables' s' (x / 2 ^ s') = tables s' (x / 2 ^ s')) →
    translateFrom tables' s finer x = translateFrom tables s finer x
  | [], s, h => by rw [translateFrom, translateFrom, h]
  | s' :: finer, s, h => by
    rw [translateFrom, translateFrom, h, translateFrom_congr h]

section Fill

variable (hfind : lv.find tables x = some t) (hva : 2 ^ t.shift ∣ va) (hsize : 2 ^ t.shift ∣ size)
  (hlo : t.vaBase ≤ va) (hhi : va + size ≤ t.vaEnd)

include hfind hva hsize hlo hhi

theorem Levels.fill_range (desc : ℕ → Desc α) :
    fill t desc (size / 2 ^ t.shift) ((va - t.vaBase) / 2 ^ t.shift) tables = some fun s m =>
      if s = t.shift ∧ va / 2 ^ t.shift ≤ m
        ∧ m < (va + size) / 2 ^ t.shift then desc (m - va / 2 ^ t.shift)
      else tables s m := by
  have hpos : 0 < 2 ^ t.shift := Nat.two_pow_pos _
  obtain ⟨⟨⟨b, hb⟩, -, -⟩, -⟩ := Levels.find_inside hfind
  obtain ⟨v, rfl⟩ := hva
  obtain ⟨z, rfl⟩ := hsize
  have hfirst : t.firstBlock = b := by rw [TableInfo.firstBlock, hb, Nat.mul_div_cancel_left _ hpos]
  have hidx : (2 ^ t.shift * v - t.vaBase) / 2 ^ t.shift = v - b := by
    rw [hb, ← Nat.mul_sub, Nat.mul_div_cancel_left _ hpos]
  have hbv : b ≤ v := by
    rw [hb] at hlo
    exact Nat.le_of_mul_le_mul_left hlo hpos
  have hvz : v + z ≤ b + t.numEntries := by
    rw [TableInfo.vaEnd, hb, Nat.mul_comm t.numEntries, ← Nat.mul_add, ← Nat.mul_add] at hhi
    exact Nat.le_of_mul_le_mul_left hhi hpos
  rw [hidx, Nat.mul_div_cancel_left _ hpos, Nat.mul_div_cancel_left _ hpos, ← Nat.mul_add,
    Nat.mul_div_cancel_left _ hpos, fill_eq (by omega), hfirst, Nat.add_sub_cancel' hbv]

theorem Levels.translate_fill {y : ℕ} (hdesc : ∀ k, desc k ≠ .table)
    (hfill : fill t desc (size / 2 ^ t.shift) ((va - t.vaBase) / 2 ^ t.shift) tables = some tables')
    (hy : va ≤ y) (hy' : y < va + size) :
    lv.translate tables' y = (desc ((y - va) / 2 ^ t.shift)).at t.shift y := by
  have hpos : 0 < 2 ^ t.shift := Nat.two_pow_pos _
  obtain ⟨hholds, hin⟩ := Levels.find_inside hfind
  rw [Levels.fill_range hfind hva hsize hlo hhi] at hfill
  obtain rfl := Option.some.inj hfill
  obtain ⟨v, rfl⟩ := hva
  obtain ⟨z, rfl⟩ := hsize
  have hblock : (y - 2 ^ t.shift * v) / 2 ^ t.shift = y / 2 ^ t.shift - v :=
    Nat.sub_mul_div_of_le y _ v hy
  have hyv : v ≤ y / 2 ^ t.shift := (Nat.le_div_iff_mul_le hpos).2 (by rwa [Nat.mul_comm])
  have hyz : y / 2 ^ t.shift < v + z := by
    rw [Nat.div_lt_iff_lt_mul hpos, Nat.mul_comm, Nat.mul_add]
    exact hy'
  have hentry : (if t.shift = t.shift ∧ 2 ^ t.shift * v / 2 ^ t.shift ≤ y / 2 ^ t.shift ∧
      y / 2 ^ t.shift < (2 ^ t.shift * v + 2 ^ t.shift * z) / 2 ^ t.shift then
        desc (y / 2 ^ t.shift - 2 ^ t.shift * v / 2 ^ t.shift)
        else tables t.shift (y / 2 ^ t.shift)) =
      desc ((y - 2 ^ t.shift * v) / 2 ^ t.shift) := by
    rw [← Nat.mul_add, Nat.mul_div_cancel_left _ hpos, Nat.mul_div_cancel_left _ hpos,
      if_pos ⟨rfl, hyv, hyz⟩, hblock]
  rw [Levels.translate, if_pos (hy'.trans_le (hhi.trans hin.end_le))]
  refine (translateFrom_of_findFrom (t := lv.base) lv.sorted ⟨Nat.dvd_zero _, Nat.zero_le x,
    Levels.lt_of_find hfind⟩ hfind (fun s hs n => if_neg fun h => hs.ne' h.1) (hlo.trans hy)
    (hy'.trans_le hhi) ?_).trans (congrArg _ hentry)
  rw [hentry]
  exact hdesc _

theorem Levels.translate_fill_outside {y : ℕ}
    (hfill : fill t desc (size / 2 ^ t.shift) ((va - t.vaBase) / 2 ^ t.shift) tables = some tables')
    (hy : ¬ (va ≤ y ∧ y < va + size)) : lv.translate tables' y = lv.translate tables y := by
  have hpos : 0 < 2 ^ t.shift := Nat.two_pow_pos _
  rw [Levels.fill_range hfind hva hsize hlo hhi] at hfill
  obtain rfl := Option.some.inj hfill
  obtain ⟨v, rfl⟩ := hva
  obtain ⟨z, rfl⟩ := hsize
  rw [Levels.translate, Levels.translate, translateFrom_congr]
  intro s
  refine if_neg ?_
  rintro ⟨rfl, h1, h2⟩
  rw [Nat.mul_div_cancel_left _ hpos, Nat.le_div_iff_mul_le hpos] at h1
  rw [← Nat.mul_add, Nat.mul_div_cancel_left _ hpos, Nat.div_lt_iff_lt_mul hpos] at h2
  rw [Nat.mul_comm] at h1 h2
  rw [Nat.mul_add] at h2
  exact hy ⟨h1, h2⟩

end Fill

end Optee.PageTables
