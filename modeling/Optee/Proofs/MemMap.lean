import Mathlib.Tactic.Common
import Optee.Lib.Run
import Optee.MemMap
import Optee.Result

/-!
# What the static memory map covers

`add_phys_mem` gives an entry that it coalesces with a range the greater of the two sizes, which is
the union of the two only for some ranges (`Mergeable`), and a device region of the manifest is
added with its end as its size.
-/

namespace Optee.MemMap

variable {cfg : Config} {m m' es : List TeeMmapRegion} {e f : TeeMmapRegion} {mem : PhysMem}
  {t : MemType} {x n : ℕ}

/-- The map has an address for a type. -/
def Covers (m : List TeeMmapRegion) (t : MemType) (x : ℕ) : Prop :=
  ∃ e ∈ m, e.type = t ∧ e.pa ≤ x ∧ x < e.pa + e.size

instance (m : List TeeMmapRegion) (t : MemType) (x : ℕ) : Decidable (Covers m t x) :=
  inferInstanceAs (Decidable (∃ e ∈ m, _))

/-- A range of that type has the address. -/
def Declares (l : List PhysMem) (t : MemType) (x : ℕ) : Prop :=
  ∃ mem ∈ l, mem.type = t ∧ mem.addr ≤ x ∧ x < mem.addr + mem.size

instance (l : List PhysMem) (t : MemType) (x : ℕ) : Decidable (Declares l t x) :=
  inferInstanceAs (Decidable (∃ mem ∈ l, _))

/-- A range overlaps an entry of its type. -/
def Meets (e : TeeMmapRegion) (mem : PhysMem) : Prop :=
  e.type = mem.type ∧ e.pa < mem.addr + mem.size ∧ mem.addr < e.pa + e.size

instance (e : TeeMmapRegion) (mem : PhysMem) : Decidable (Meets e mem) :=
  inferInstanceAs (Decidable (_ ∧ _))

/-- The size that is computed for both is that of the union. -/
def Joins (cfg : Config) (e : TeeMmapRegion) (mem : PhysMem) : Prop :=
  mem.addr = e.pa ∨ e.pa ≤ mem.addr ∧ mem.addr + mem.size ≤ e.pa + e.size ∨
    mem.addr ≤ e.pa ∧ mem.size ≤ e.size ∧ e.pa + e.size < mem.addr + 2 ^ cfg.bits

instance (cfg : Config) (e : TeeMmapRegion) (mem : PhysMem) : Decidable (Joins cfg e mem) :=
  inferInstanceAs (Decidable (_ ∨ _))

/-- A range meets at most one entry, which it joins. -/
def Mergeable (cfg : Config) (m : List TeeMmapRegion) (mem : PhysMem) : Prop :=
  (mem.size < 2 ^ cfg.bits ∧ mem.addr + mem.size ≤ 2 ^ cfg.bits) ∧
    (∀ e ∈ m, ∀ f ∈ m, Meets e mem → Meets f mem → e = f) ∧ ∀ e ∈ m, Meets e mem → Joins cfg e mem

instance (m : List TeeMmapRegion) (mem : PhysMem) : Decidable (Mergeable cfg m mem) :=
  inferInstanceAs (Decidable (_ ∧ _))

/-! ### Entries in order -/

/-- An entry comes before a place in the order of the map. -/
def Before (e : TeeMmapRegion) (t : MemType) (pa : ℕ) : Prop :=
  e.type.code < t.code ∨ e.type = t ∧ e.pa + e.size ≤ pa

theorem Before.trans (h : Before e f.type f.pa) (hf : Before f t x) : Before e t x := by
  rcases h with hlt | ⟨heq, hle⟩ <;> rcases hf with hlt' | ⟨heq', hle'⟩
  · exact .inl (Nat.lt_trans hlt hlt')
  · exact .inl (heq' ▸ hlt)
  · exact .inl (heq ▸ hlt')
  · exact .inr ⟨heq.trans heq', by omega⟩

/-- A range has bytes and does not wrap around. -/
structure InMemory (cfg : Config) (pa size : ℕ) : Prop where
  pos : 0 < size
  size_lt : size < 2 ^ cfg.bits
  end_le : pa + size ≤ 2 ^ cfg.bits

/-- The entries are in order and do not overlap. -/
structure Ordered (cfg : Config) (m : List TeeMmapRegion) : Prop where
  apart : m.Pairwise fun e f => Before e f.type f.pa
  ok : ∀ e ∈ m, InMemory cfg e.pa e.size

theorem Ordered.tail (h : Ordered cfg (e :: es)) : Ordered cfg es :=
  ⟨(List.pairwise_cons.1 h.apart).2, fun f hf => h.ok f (List.mem_cons_of_mem e hf)⟩

theorem Ordered.cons (h : Ordered cfg es) (he : InMemory cfg e.pa e.size)
    (hes : ∀ f ∈ es, Before e f.type f.pa) : Ordered cfg (e :: es) := by
  refine ⟨List.pairwise_cons.2 ⟨hes, h.apart⟩, fun f hf => ?_⟩
  rcases List.mem_cons.1 hf with rfl | hf
  · exact he
  · exact h.ok f hf

theorem MemType.code_injective {t u : MemType} (h : t.code = u.code) : t = u := by
  rw [← MemType.ofNat_ctorIdx t, ← MemType.ofNat_ctorIdx u]
  exact congrArg MemType.ofNat h

theorem covers_cons :
    Covers (e :: es) t x ↔ (e.type = t ∧ e.pa ≤ x ∧ x < e.pa + e.size) ∨ Covers es t x := by
  simp [Covers]

/-! ### One range -/

theorem overlaps_iff (he : InMemory cfg e.pa e.size) (hmem : InMemory cfg mem.addr mem.size) :
    (mem.type = e.type ∧ overlaps cfg e mem = true) ↔ Meets e mem := by
  obtain ⟨hpos, -, hend⟩ := he
  obtain ⟨hpos', -, hend'⟩ := hmem
  rw [overlaps, Bool.and_eq_true, decide_eq_true_eq, decide_eq_true_eq, Nat.mod_eq_of_lt (by omega),
    Nat.mod_eq_of_lt (by omega), Meets, eq_comm]
  refine and_congr_right fun _ => ?_
  omega

theorem coalesce_spec (he : InMemory cfg e.pa e.size) (hmem : InMemory cfg mem.addr mem.size)
    (hmeet : Meets e mem) (hjoin : Joins cfg e mem) :
    (coalesce cfg e mem).pa = min e.pa mem.addr ∧
      (coalesce cfg e mem).pa + (coalesce cfg e mem).size
        = max (e.pa + e.size) (mem.addr + mem.size) ∧
      (coalesce cfg e mem).size < 2 ^ cfg.bits := by
  obtain ⟨hpos, hlt, hend⟩ := he
  obtain ⟨hpos', hlt', hend'⟩ := hmem
  obtain ⟨-, hlo, hhi⟩ := hmeet
  simp only [coalesce, true_and]
  rcases hjoin with h | ⟨h₁, h₂⟩ | ⟨h₁, h₂, h₃⟩
  · rw [Nat.mod_eq_of_lt (by omega)]
    omega
  · rw [Nat.mod_eq_of_lt (by omega)]
    omega
  · rw [Nat.mod_eq_of_lt (by omega)]
    omega

theorem addPhysMemLoop_cons (he : InMemory cfg e.pa e.size) (hmem : InMemory cfg mem.addr mem.size)
    (h : addPhysMemLoop cfg mem n (e :: es) = .ok m') :
    Meets e mem ∧ m' = coalesce cfg e mem :: es ∨
    Before (.new mem.type mem.addr mem.size) e.type e.pa ∧
      m' = .new mem.type mem.addr mem.size :: e :: es ∨
    Before e mem.type mem.addr ∧ ∃ rest, addPhysMemLoop cfg mem (n + 1) es = .ok rest
      ∧ m' = e :: rest := by
  rw [addPhysMemLoop] at h
  simp only [overlaps_iff he hmem] at h
  split_ifs at h with hfull hmeet hbefore hroom
  · exact .inl ⟨hmeet, (Except.ok.inj h).symm⟩
  · refine .inr (.inl ⟨hbefore.imp_right fun ⟨heq, hlt⟩ => ⟨heq, ?_⟩, (Except.ok.inj h).symm⟩)
    have hpos := he.pos
    by_contra hgt
    have hgt : ¬mem.addr + mem.size ≤ e.pa := hgt
    exact hmeet ⟨heq.symm, by omega, by omega⟩
  · obtain ⟨rest, hrest, h⟩ := bind_eq_ok.1 h
    refine .inr (.inr ⟨?_, rest, hrest, (Except.ok.inj h).symm⟩)
    rw [not_or] at hbefore
    by_cases heq : e.type = mem.type
    · refine .inr ⟨heq, ?_⟩
      have hge : ¬mem.addr < e.pa := fun hlt => hbefore.2 ⟨heq.symm, hlt⟩
      have hpos := hmem.pos
      by_contra hgt
      exact hmeet ⟨heq, by omega, by omega⟩
    · exact .inl (lt_of_le_of_ne (Nat.le_of_not_lt hbefore.1)
        fun hcode => heq (MemType.code_injective hcode))

theorem addPhysMemLoop_nil (h : addPhysMemLoop cfg mem n [] = .ok m') :
    m' = [.new mem.type mem.addr mem.size] := by
  rw [addPhysMemLoop] at h
  split_ifs at h
  exact (Except.ok.inj h).symm

theorem before_addPhysMemLoop (hmem : InMemory cfg mem.addr mem.size)
    (hbefore : Before e mem.type mem.addr) :
    ∀ {es m' : List TeeMmapRegion} {n : ℕ}, (∀ f ∈ es, InMemory cfg f.pa f.size) →
    (∀ f ∈ es, Before e f.type f.pa) → addPhysMemLoop cfg mem n es = .ok m' →
      ∀ f ∈ m', Before e f.type f.pa
  | [], m', n, _, _, h, f, hf => by
    rw [addPhysMemLoop_nil h, List.mem_singleton] at hf
    subst hf
    exact hbefore
  | g :: es, m', n, hok, hes, h, f, hf => by
    have hg := hes g List.mem_cons_self
    have htail : ∀ f ∈ es, Before e f.type f.pa := fun f hf => hes f (List.mem_cons_of_mem g hf)
    rcases addPhysMemLoop_cons (hok g List.mem_cons_self) hmem h with
      ⟨hmeet, rfl⟩ | ⟨-, rfl⟩ | ⟨-, rest, hrest, rfl⟩
    · rcases List.mem_cons.1 hf with rfl | hf
      · rcases hg with hcode | ⟨heq, hle⟩
        · exact .inl hcode
        rcases hbefore with hcode | ⟨-, hle'⟩
        · exact .inl (hmeet.1 ▸ hcode)
        · exact .inr ⟨heq, le_min hle hle'⟩
      · exact htail f hf
    · rcases List.mem_cons.1 hf with rfl | hf
      · exact hbefore
      · exact hes f hf
    · rcases List.mem_cons.1 hf with rfl | hf
      · exact hg
      · exact before_addPhysMemLoop hmem hbefore (fun f hf => hok f (List.mem_cons_of_mem g hf))
          htail hrest f hf

/-- The loop keeps the map ordered and adds the bytes of the memory, no others. -/
theorem addPhysMemLoop_spec (hmem : InMemory cfg mem.addr mem.size) :
    ∀ {es m' : List TeeMmapRegion} {n : ℕ},
    Ordered cfg es → Mergeable cfg es mem → addPhysMemLoop cfg mem n es = .ok m' →
    Ordered cfg m' ∧
      ∀ t x, Covers m' t x ↔ Covers es t x ∨ mem.type = t ∧ mem.addr ≤ x ∧ x < mem.addr + mem.size
  | [], m', n, hord, _, h => by
    rw [addPhysMemLoop_nil h]
    exact ⟨hord.cons hmem (by simp), fun t x => by rw [covers_cons, or_comm]; rfl⟩
  | e :: es, m', n, hord, hmerge, h => by
    have he := hord.ok e List.mem_cons_self
    have hes := (List.pairwise_cons.1 hord.apart).1
    rcases addPhysMemLoop_cons he hmem h with ⟨hmeet, rfl⟩ | ⟨hbefore, rfl⟩
      | ⟨hbefore, rest, hrest, rfl⟩
    · obtain ⟨hpa, hend, hlt⟩ := coalesce_spec he hmem hmeet (hmerge.2.2 e List.mem_cons_self hmeet)
      have htype : (coalesce cfg e mem).type = e.type := rfl
      have hpos := he.pos
      have hmax := he.end_le
      have hmax' := hmem.end_le
      refine ⟨hord.tail.cons ⟨by omega, hlt, by omega⟩ fun f hf => ?_, fun t x => ?_⟩
      · -- no later entry is met, so the union ends before each
        rcases hes f hf with hcode | ⟨heq, hle⟩
        · exact .inl hcode
        · refine .inr ⟨heq, ?_⟩
          have hne : e ≠ f := by
            rintro rfl
            omega
          have hnot : ¬Meets f mem := fun hf' =>
            hne (hmerge.2.1 e List.mem_cons_self f (List.mem_cons_of_mem e hf) hmeet hf')
          have hlo := hmeet.2.1
          have hhi := hmeet.2.2
          have hfpos := (hord.tail.ok f hf).pos
          have : ¬(f.pa < mem.addr + mem.size ∧ mem.addr < f.pa + f.size) :=
            fun h => hnot ⟨heq.symm.trans hmeet.1, h⟩
          omega
      · rw [covers_cons, covers_cons, htype, hend, hpa, hmeet.1]
        have hlo := hmeet.2.1
        have hhi := hmeet.2.2
        by_cases ht : mem.type = t
        · simp only [ht, true_and]
          constructor
          · rintro (h | h)
            · omega
            · exact .inl (.inr h)
          · rintro ((h | h) | h)
            · exact .inl (by omega)
            · exact .inr h
            · exact .inl (by omega)
        · simp [ht]
    · refine ⟨hord.cons hmem fun f hf => ?_, fun t x => by rw [covers_cons, or_comm]; rfl⟩
      rcases List.mem_cons.1 hf with rfl | hf
      · exact hbefore
      · exact hbefore.trans (hes f hf)
    · have htail : Mergeable cfg es mem := ⟨hmerge.1,
        fun f hf g hg => hmerge.2.1 f (List.mem_cons_of_mem e hf) g (List.mem_cons_of_mem e hg),
        fun f hf => hmerge.2.2 f (List.mem_cons_of_mem e hf)⟩
      obtain ⟨hrord, hcov⟩ := addPhysMemLoop_spec hmem hord.tail htail hrest
      refine ⟨hrord.cons he (before_addPhysMemLoop hmem hbefore hord.tail.ok hes hrest),
        fun t x => ?_⟩
      rw [covers_cons, covers_cons, hcov, or_assoc]

/-! ### Runs -/

/-- What is added, a range of the core or a device region of the manifest. -/
inductive Added where
  | range (mem : PhysMem)
  | device (d : DeviceRegion)

/-- The range that is meant. -/
def Added.declared : Added → Option PhysMem
  | .range mem => some mem
  | .device ⟨some base, some pageCount⟩ =>
    if base % smallPageSize = 0 then some ⟨.ioSec, base, pageCount * smallPageSize⟩ else none
  | .device _ => none

/-- The range that `add_phys_mem` is given. -/
def Added.passed (cfg : Config) : Added → Option PhysMem
  | .range mem => some mem
  | .device d => d.physMem cfg

/-- The ranges that were meant, and the map. -/
structure Ledger where
  declared : List PhysMem
  map : List TeeMmapRegion

def Ledger.add (cfg : Config) (s : Ledger) (a : Added) : Except Panic Ledger :=
  match a.passed cfg with
  | none => .ok s
  | some mem => (addPhysMem cfg s.map mem).map fun map => ⟨s.declared ++ a.declared.toList, map⟩

/-- A range can be merged, and a device region is at address 0. -/
def Added.Sound (cfg : Config) (s : Ledger) : Added → Prop
  | .range mem => Mergeable cfg s.map mem
  | .device ⟨some base, some pageCount⟩ =>
    base % smallPageSize = 0 → base = 0 ∧ Mergeable cfg s.map ⟨.ioSec, 0, pageCount * smallPageSize⟩
  | .device _ => True

instance (cfg : Config) (s : Ledger) : ∀ a : Added, Decidable (a.Sound cfg s)
  | .range _ => inferInstanceAs (Decidable (Mergeable ..))
  | .device ⟨some _, some _⟩ => inferInstanceAs (Decidable (_ → _ ∧ _))
  | .device ⟨none, _⟩ => isTrue trivial
  | .device ⟨some _, none⟩ => isTrue trivial

/-- The map covers what was meant, is sorted, and entries of one type do not overlap. -/
structure Exact (s : Ledger) : Prop where
  union : ∀ t x, Covers s.map t x ↔ Declares s.declared t x
  sorted : s.map.Pairwise fun e f => e.type.code < f.type.code ∨ e.type = f.type ∧ e.pa ≤ f.pa
  apart : s.map.Pairwise fun e f => e.type = f.type → e.pa + e.size ≤ f.pa ∨ f.pa + f.size ≤ e.pa

/-- The map is in order and covers what was meant. -/
structure Ledger.Inv (cfg : Config) (s : Ledger) : Prop where
  ordered : Ordered cfg s.map
  union : ∀ t x, Covers s.map t x ↔ Declares s.declared t x

theorem Ledger.Inv.exact {s : Ledger} (h : s.Inv cfg) : Exact s where
  union := h.union
  sorted := h.ordered.apart.imp fun hb => hb.imp_right fun ⟨heq, hle⟩ => ⟨heq, by omega⟩
  apart := h.ordered.apart.imp fun hb heq => by
    rcases hb with hcode | ⟨-, hle⟩
    · rw [heq] at hcode
      omega
    · exact .inl hle

theorem declares_append {l : List PhysMem} :
    Declares (l ++ [mem]) t x ↔ Declares l t x ∨ mem.type = t ∧ mem.addr ≤ x
      ∧ x < mem.addr + mem.size := by
  simp [Declares, or_and_right, exists_or]

theorem Ledger.Inv.addRange {s : Ledger} (h : s.Inv cfg) (hmerge : Mergeable cfg s.map mem)
    (hadd : addPhysMem cfg s.map mem = .ok m') : Ledger.Inv cfg ⟨s.declared ++ [mem], m'⟩ := by
  rw [addPhysMem] at hadd
  split_ifs at hadd with hzero
  · cases hadd
    refine ⟨h.ordered, fun t x => ?_⟩
    rw [h.union, declares_append, hzero]
    exact (or_iff_left fun hx => by omega).symm
  · obtain ⟨hord, hcov⟩ := addPhysMemLoop_spec ⟨Nat.pos_of_ne_zero hzero, hmerge.1.1,
      hmerge.1.2⟩ h.ordered hmerge hadd
    refine ⟨hord, fun t x => ?_⟩
    rw [hcov, h.union, declares_append]

theorem Added.passed_eq {s : Ledger} : ∀ {a : Added}, a.Sound cfg s → a.passed cfg = some mem →
    a.declared = some mem ∧ Mergeable cfg s.map mem
  | .range _, h, hpass => by
    cases hpass
    exact ⟨rfl, h⟩
  | .device ⟨some base, some pageCount⟩, h, hpass => by
    simp only [Added.passed, DeviceRegion.physMem] at hpass
    split_ifs at hpass with hal
    obtain ⟨rfl, hmerge⟩ := h hal
    rw [Nat.zero_add, Nat.mod_eq_of_lt hmerge.1.1] at hpass
    cases hpass
    exact ⟨rfl, hmerge⟩
  | .device ⟨none, _⟩, _, hpass => by cases hpass
  | .device ⟨some base, none⟩, _, hpass => by cases hpass

theorem Ledger.Inv.add {s s' : Ledger} (h : s.Inv cfg) (a : Added) (hsound : a.Sound cfg s)
    (hstep : s.add cfg a = .ok s') : s'.Inv cfg := by
  rw [Ledger.add] at hstep
  split at hstep
  · cases hstep
    exact h
  next mem hpass =>
    obtain ⟨hdecl, hmerge⟩ := Added.passed_eq hsound hpass
    cases hadd : addPhysMem cfg s.map mem with
    | error e =>
      rw [hadd] at hstep
      cases hstep
    | ok m' =>
      rw [hadd, hdecl] at hstep
      cases hstep
      exact h.addRange hmerge hadd

/-- The map covers what was declared, in every run in which each range is sound when it is added. -/
theorem collected_exact (cfg : Config) (added : List Added) (s : Ledger)
    (hsound : Guarded (fun s a => Added.Sound cfg s a) (Ledger.add cfg) ⟨[], []⟩ added)
    (hrun : exec (Ledger.add cfg) ⟨[], []⟩ added = .ok s) : Exact s := by
  have hinit : Ledger.Inv cfg ⟨[], []⟩ := ⟨⟨List.Pairwise.nil, by simp⟩, by simp [Covers, Declares]⟩
  exact (exec_invariant (fun s a s' h hs hstep => h.add a hs hstep) hinit hsound hrun).exact

def smallConfig : Config := ⟨64, 8⟩

/-- Ranges of two types that nest and touch, and a device region. -/
def nestedRanges : List Added :=
  [.range ⟨.ioSec, 0x4000, 0x2000⟩, .range ⟨.ioNsec, 0x4000, 0x2000⟩,
    .range ⟨.ioSec, 0x6000, 0x1000⟩, .range ⟨.ioSec, 0x5000, 0x1000⟩,
    .range ⟨.ioSec, 0x3000, 0x2000⟩, .range ⟨.ioNsec, 0x4000, 0x3000⟩, .device ⟨some 0, some 1⟩]

theorem collected_exact_nested :
    ∃ s, exec (Ledger.add smallConfig) ⟨[], []⟩ nestedRanges = .ok s ∧ Exact s := by
  have hguard : Guarded (fun s a => Added.Sound smallConfig s a) (Ledger.add smallConfig)
      ⟨[], []⟩ nestedRanges := by
    decide +kernel
  obtain ⟨s, hs, -⟩ :=
    exists_ok_of_decide (r := exec (Ledger.add smallConfig) ⟨[], []⟩ nestedRanges)
      (P := fun s => s.map.length = 4) (by decide +kernel)
  exact ⟨s, hs, collected_exact smallConfig nestedRanges s hguard hs⟩

/-- The end of a range that begins inside an entry is lost, a device region of one page ends at
twice its address, and an array of two entries is left. -/
theorem collected_wrong :
    (∃ s, exec (Ledger.add smallConfig) ⟨[], []⟩
        [.range ⟨.ioSec, 0x1000, 0x2000⟩, .range ⟨.ioSec, 0x2000, 0x3000⟩] = .ok s ∧
      Declares s.declared .ioSec 0x4fff ∧ ¬Covers s.map .ioSec 0x4fff) ∧
    (∃ s, exec (Ledger.add smallConfig) ⟨[], []⟩ [.device ⟨some 0x10000, some 1⟩] = .ok s ∧
      ¬Declares s.declared .ioSec 0x20fff ∧ Covers s.map .ioSec 0x20fff) ∧
    exec (Ledger.add ⟨64, 2⟩) ⟨[], []⟩ [.range ⟨.ioSec, 0x5000, 0x1000⟩,
      .range ⟨.ioSec, 0x3000, 0x1000⟩, .range ⟨.ioSec, 0x1000, 0x1000⟩] = .error .overrun :=
  ⟨exists_ok_of_decide (by decide +kernel), exists_ok_of_decide (by decide +kernel),
    eq_error_of_decide (by decide +kernel)⟩

end Optee.MemMap
