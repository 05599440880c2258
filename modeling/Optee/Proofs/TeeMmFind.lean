import Optee.Proofs.TeeMm

/-!
# Looking up an address in a pool

`tee_mm_find` looks for the granule of an address, whose number it keeps in 16 bits.
-/

namespace Optee.TeeMm

variable {pool : TeeMmPool} {e x : TeeMmEntry} {addr size g : ℕ}

/-- A granule of an entry. -/
def TeeMmEntry.Has (e : TeeMmEntry) (g : ℕ) : Prop := e.offset ≤ g ∧ g < e.offset + e.size

instance (e : TeeMmEntry) (g : ℕ) : Decidable (e.Has g) := inferInstanceAs (Decidable (_ ∧ _))

/-- An address of an entry. -/
def Contains (pool : TeeMmPool) (e : TeeMmEntry) (addr : ℕ) : Prop :=
  pool.lo ≤ addr ∧ addr - pool.lo ∈ e.bytes pool.shift

/-- The granule of an address. -/
def TeeMmPool.granuleOf (pool : TeeMmPool) (addr : ℕ) : ℕ := (addr - pool.lo) / 2 ^ pool.shift

/-- The entry that is found is the one with the address. -/
def FindsEntry (pool : TeeMmPool) (addr : ℕ) : Prop :=
  ∀ e, teeMmFind pool addr = some e ↔ e ∈ pool.entries ∧ Contains pool e addr

/-- The granule is in the same entries if it is cut to 16 bits. -/
def Unaliased (pool : TeeMmPool) (addr : ℕ) : Prop :=
  pool.lo ≤ addr → addr < pool.lo + pool.size →
    ∀ e ∈ pool.entries, e.Has (pool.granuleOf addr) ↔ e.Has (u16 (pool.granuleOf addr))

theorem has_granuleOf : e.Has (pool.granuleOf addr) ↔ addr - pool.lo ∈ e.bytes pool.shift := by
  have hpos := Nat.two_pow_pos pool.shift
  rw [TeeMmEntry.Has, TeeMmPool.granuleOf, TeeMmEntry.bytes, Set.mem_Ico,
    Nat.le_div_iff_mul_le hpos, Nat.div_lt_iff_lt_mul hpos]

theorem Before.not_has {hiAlloc : Bool} (h : Before hiAlloc e x) (he : e.Has g) : ¬x.Has g := by
  rw [TeeMmEntry.Has] at he ⊢
  rw [Before] at h
  split_ifs at h <;> omega

theorem Inv.eq_of_has (h : Inv pool) (he : e ∈ pool.entries) (hx : x ∈ pool.entries) (hge : e.Has g)
    (hgx : x.Has g) : x = e := by
  obtain ⟨p, r, hsplit⟩ := List.append_of_mem he
  obtain ⟨hp, hr⟩ := h.around hsplit
  rw [hsplit, List.mem_append, List.mem_cons] at hx
  rcases hx with hx | rfl | hx
  · exact absurd hge ((hp x hx).not_has hgx)
  · rfl
  · exact absurd hgx ((hr x hx).not_has hge)

theorem Inv.has_lt_units (h : Inv pool) (he : e ∈ pool.entries) (hg : e.Has g) : g < pool.units :=
  hg.2.trans_le (h.inside e he)

theorem Inv.lt_of_contains (h : Inv pool) (he : e ∈ pool.entries) (hc : Contains pool e addr) :
    addr < pool.lo + pool.size := by
  have hlt := h.has_lt_units he (has_granuleOf.2 hc.2)
  rw [TeeMmPool.granuleOf, Nat.div_lt_iff_lt_mul (Nat.two_pow_pos _), ← h.size_eq] at hlt
  have := hc.1
  omega

theorem Inv.find_eq (h : Inv pool) (hend : pool.lo + pool.size ≤ 2 ^ 64) (haddr : addr < 2 ^ 64) :
    teeMmFind pool addr = some e ↔
      (pool.lo ≤ addr ∧ addr < pool.lo + pool.size) ∧ e ∈ pool.entries
        ∧ e.Has (u16 (pool.granuleOf addr)) := by
  have hu := h.units_lt
  rw [uint32Max] at hu
  have hsize := h.size_lt
  have hrange : teeMmAddrIsWithinRange pool addr = true → pool.size ≠ 0 →
      pool.lo ≤ addr ∧ addr < pool.lo + pool.size := by
    intro hin hne
    rw [teeMmAddrIsWithinRange, decide_eq_true_eq, sub64_eq (by omega) (by omega), u64] at hin
    omega
  have hpred : ∀ x ∈ pool.entries, ∀ g, x.offset ≤ g ∧ g < u32 (x.offset + x.size) ↔ x.Has g := by
    intro x hx g
    have := h.inside x hx
    rw [TeeMmEntry.Has, u32, Nat.mod_eq_of_lt (by omega)]
  have hoffset : pool.lo ≤ addr → sub64 addr pool.lo / 2 ^ pool.shift = pool.granuleOf addr := by
    intro hlo
    rw [sub64_eq haddr hlo, TeeMmPool.granuleOf]
  constructor
  · intro hf
    rw [teeMmFind] at hf
    split_ifs at hf with hin
    have hmem := List.mem_of_find?_eq_some hf
    have hhas := (hpred e hmem _).1 (by simpa using List.find?_some hf)
    -- an entry with a granule is in a pool with bytes
    have hne : pool.size ≠ 0 := by
      intro hzero
      have := h.has_lt_units hmem hhas
      rw [TeeMmPool.units, hzero, Nat.zero_div] at this
      omega
    obtain ⟨hlo, hlt⟩ := hrange hin hne
    rw [hoffset hlo] at hhas
    exact ⟨⟨hlo, hlt⟩, hmem, hhas⟩
  · rintro ⟨⟨hlo, hlt⟩, hmem, hhas⟩
    have hin : teeMmAddrIsWithinRange pool addr = true := by
      rw [teeMmAddrIsWithinRange, decide_eq_true_eq, sub64_eq (by omega) (by omega), u64]
      omega
    rw [teeMmFind, if_pos hin, hoffset hlo]
    obtain ⟨x, hx⟩ : ∃ x, pool.entries.find? (fun x => x.offset ≤ u16 (pool.granuleOf addr)
        ∧ u16 (pool.granuleOf addr) < u32 (x.offset + x.size)) = some x := by
      rw [← Option.isSome_iff_exists, List.find?_isSome]
      exact ⟨e, hmem, decide_eq_true ((hpred e hmem _).2 hhas)⟩
    have hxmem := List.mem_of_find?_eq_some hx
    have hxhas := (hpred x hxmem _).1 (by simpa using List.find?_some hx)
    rw [hx, h.eq_of_has hmem hxmem hhas hxhas]

theorem Inv.findsEntry_iff (h : Inv pool) (hend : pool.lo + pool.size ≤ 2 ^ 64)
    (haddr : addr < 2 ^ 64) :
    FindsEntry pool addr ↔ Unaliased pool addr := by
  constructor
  · intro hfind hlo hlt e he
    have hrange := And.intro hlo hlt
    rw [has_granuleOf]
    constructor
    · intro hbytes
      exact ((h.find_eq hend haddr).1 ((hfind e).2 ⟨he, hlo, hbytes⟩)).2.2
    · intro hhas
      exact ((hfind e).1 ((h.find_eq hend haddr).2 ⟨hrange, he, hhas⟩)).2.2
  · intro hunal e
    rw [h.find_eq hend haddr]
    constructor
    · rintro ⟨⟨hlo, hlt⟩, he, hhas⟩
      exact ⟨he, hlo, has_granuleOf.1 ((hunal hlo hlt e he).2 hhas)⟩
    · rintro ⟨he, hc⟩
      have hlt := h.lt_of_contains he hc
      exact ⟨⟨hc.1, hlt⟩, he, (hunal hc.1 hlt e he).1 (has_granuleOf.2 hc.2)⟩

/-- In a pool of less than 4 GiB, `tee_mm_find` finds the entry of an address exactly if the address
is not taken for another. -/
theorem find_exact {lo shift : ℕ} {hiAlloc : Bool} {pool₀ : TeeMmPool} {calls : List Call}
    (hinit : teeMmInit lo size shift hiAlloc true = .ok (some pool₀)) (hsmall : pool₀.size < 2 ^ 32)
    (hend : pool₀.lo + pool₀.size ≤ 2 ^ 64) (hcalls : Guarded Allowed step pool₀ calls)
    (hrun : exec step pool₀ calls = .ok pool) (haddr : addr < 2 ^ 64) :
    FindsEntry pool addr ↔ Unaliased pool addr := by
  have hrun := exec_invariant
    (P := fun p => (Inv p ∧ p.size < 2 ^ 32) ∧ p.lo + p.size ≤ 2 ^ 64)
    (fun s call s' hs hc hstep => ⟨step_inv hs.1 hc hstep, ?_⟩) ⟨⟨(inv_init hinit).1, hsmall⟩,
    hend⟩ hcalls hrun
  · exact hrun.1.1.findsEntry_iff hrun.2 haddr
  · obtain ⟨-, hlo, hsize, -⟩ := step_same hs.1 hc hstep
    rw [hlo, hsize]
    exact hs.2

theorem find_exact_first :
    ∃ pool₀ pool, teeMmInit 0x40000000 0x100000 12 false true = .ok (some pool₀)
      ∧ exec step pool₀ [.alloc 0x1001 true] = .ok pool ∧ FindsEntry pool 0x40001fff := by
  obtain ⟨pool₀, hinit, hsmall, hend, hcalls, hrun⟩ : ∃ pool₀,
      teeMmInit 0x40000000 0x100000 12 false true = .ok (some pool₀) ∧ pool₀.size < 2 ^ 32
        ∧ pool₀.lo + pool₀.size ≤ 2 ^ 64 ∧ Guarded Allowed step pool₀ [.alloc 0x1001 true]
        ∧ exec step pool₀ [.alloc 0x1001 true]
          = .ok ⟨⟨0, 0, 0⟩, [⟨1, 0, 2⟩], 0x40000000, 0x100000, 12, false, 2⟩ :=
    ⟨_, rfl, by decide, by decide, by decide, by decide +kernel⟩
  refine ⟨pool₀, _, hinit, hrun, (find_exact hinit hsmall hend hcalls hrun (by decide)).2 ?_⟩
  intro _ _ e he
  obtain rfl := List.mem_singleton.1 he
  decide

/-- In a pool of 512 MiB with one page allocated at its start, the page is found for an address 256
MiB past it. -/
theorem find_aliased :
    ∃ pool₀ pool e, teeMmInit 0x40000000 0x20000000 12 false true = .ok (some pool₀)
      ∧ exec step pool₀ [.alloc 0x1000 true] = .ok pool
      ∧ teeMmFind pool 0x50000000 = some e ∧ ¬Contains pool e 0x50000000
      ∧ ¬FindsEntry pool 0x50000000 := by
  have hnot : ¬Contains ⟨⟨0, 0, 0⟩, [⟨1, 0, 1⟩], 0x40000000, 0x20000000, 12, false,
      2⟩ ⟨1, 0, 1⟩ 0x50000000 := by
    rintro ⟨-, hbytes⟩
    exact absurd hbytes.2 (by decide)
  have hfound : teeMmFind ⟨⟨0, 0, 0⟩, [⟨1, 0, 1⟩], 0x40000000, 0x20000000, 12, false, 2⟩ 0x50000000
      = some ⟨1, 0, 1⟩ := by decide +kernel
  exact ⟨⟨⟨0, 0, 0⟩, [], 0x40000000, 0x20000000, 12, false, 1⟩, _, _, by decide +kernel,
    by decide +kernel, hfound, hnot, fun hfind => hnot ((hfind ⟨1, 0, 1⟩).1 hfound).2⟩

end Optee.TeeMm
