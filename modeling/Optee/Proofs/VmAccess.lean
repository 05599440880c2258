import Mathlib
import Optee.Lib.Run
import Optee.Proofs.VmParam
import Optee.VmAccess

/-!
# Access checks

`vm_check_access_rights` is exact. `vm_buf_intersects_um_private` looks for `VM_FLAGS_NONPRIV` in
the attributes of a region, where `TEE_MATTR_VALID_BLOCK` is the bit of `VM_FLAG_EPHEMERAL`. So it
finds no private region.
-/

namespace Optee.Vm

open Segments

variable {cfg : Config} {s : VmInfo} {flags : AccessFlags} {r : VmRegion} {attr : Attr}
  {b bl a al x ua uaddr len va size endAddr : ℕ}

/-! ### Buffers and regions -/

theorem coreIsBufferInside_iff (hb : b < 2 ^ cfg.paddrBits) (hbl : bl ≤ 2 ^ cfg.paddrBits)
    (ha : a + al ≤ 2 ^ cfg.paddrBits) :
    coreIsBufferInside cfg b bl a al = true ↔ 0 < bl ∧ 0 < al ∧ a ≤ b ∧ b + bl ≤ a + al := by
  rw [coreIsBufferInside]
  rcases Nat.eq_zero_or_pos bl with rfl | hbl'
  · simp
  rcases Nat.eq_zero_or_pos al with rfl | hal
  · simp
  rw [cfg.lastAddr_of_le a al (by omega) ha]
  by_cases hwrap : 2 ^ cfg.paddrBits < b + bl
  · rw [if_pos (.inl (cfg.lastAddr_of_lt hb hbl hwrap))]
    simp only [Bool.false_eq_true, false_iff]
    omega
  · rw [cfg.lastAddr_of_le b bl (by omega) (by omega), if_neg (by omega), if_neg (by omega),
      decide_eq_true_eq]
    omega

theorem RegionOk.endVa_lt (h : RegionOk cfg r) : r.endVa + smallPageSize ≤ 2 ^ cfg.bits := by
  have hdvd := cfg.page_dvd_bits
  have hend := h.end_le.trans_lt cfg.range_lt
  have hva : smallPageSize ∣ r.va := Nat.dvd_of_mod_eq_zero h.va
  have hsize : smallPageSize ∣ r.size := Nat.dvd_of_mod_eq_zero h.size
  obtain ⟨k, hk⟩ := (Nat.dvd_sub hdvd (Nat.dvd_add hva hsize) :)
  rw [VmRegion.endVa] at hend ⊢
  have hpos : 0 < k := by
    by_contra hzero
    rw [Nat.eq_zero_of_not_pos hzero] at hk
    omega
  have := Nat.le_mul_of_pos_right smallPageSize hpos
  omega

theorem RegionOk.endVa_le_paddr (h : RegionOk cfg r) : r.va + r.size ≤ 2 ^ cfg.paddrBits :=
  (Nat.le_of_add_right_le h.endVa_lt).trans cfg.pow_bits_le

theorem SpaceOk.userRegion_eq_some_iff (hok : SpaceOk cfg s.regions) (hua : ua < 2 ^ cfg.bits) :
    userRegion cfg s ua = some r ↔ r ∈ s.regions ∧ r.va ≤ ua ∧ ua < r.endVa := by
  have hlook :
      userRegion cfg s ua = look VmRegion.va VmRegion.endVa (fun r _ => r) s.regions ua := by
    rw [look, Option.map_id', userRegion]
    refine List.find?_congr fun r hr => ?_
    have hua' := hua.trans_le cfg.pow_bits_le
    rw [Bool.eq_iff_iff, coreIsBufferInside_iff hua' (by omega) (hok.ok r hr).endVa_le_paddr,
      decide_eq_true_eq, VmRegion.endVa]
    omega
  rw [hlook]
  constructor
  · intro h
    obtain ⟨q, hq, hlo, hhi, rfl⟩ := exists_of_look h
    exact ⟨hq, hlo, hhi⟩
  · rintro ⟨hr, hlo, hhi⟩
    exact look_of_mem hok.apart hr hlo hhi

/-! ### Rights to pages -/

/-- The attributes allow the access. -/
def AccessFlags.Allows (f : AccessFlags) (attr : Attr) : Prop :=
  (f.nonsecure = true → attr.secure = false) ∧ (f.secure = true → attr.secure = true) ∧
    (f.write = true → attr.prot.uw = true) ∧ (f.read = true → attr.prot.ur = true)

theorem AccessFlags.grants_iff : flags.grants attr = true ↔ flags.Allows attr := by
  cases hs : attr.secure <;> cases hr : attr.prot.ur <;> cases hw : attr.prot.uw <;>
    simp [AccessFlags.grants, AccessFlags.Allows, hs, hr, hw, and_assoc]

/-- A region has the page and allows the access. -/
def PageAllowed (s : VmInfo) (flags : AccessFlags) (p : ℕ) : Prop :=
  ∃ r ∈ s.regions, r.va ≤ p ∧ p + smallPageSize ≤ r.endVa ∧ flags.Allows r.attr

theorem SpaceOk.pageAllowed_iff (hok : SpaceOk cfg s.regions) {p : ℕ} (hp : PageAligned p)
    (hlt : p < 2 ^ cfg.bits) :
    PageAllowed s flags p ↔ ∃ attr, userVaAttr cfg s p = .ok attr ∧ flags.grants attr = true := by
  constructor
  · rintro ⟨r, hr, hlo, hhi, hallow⟩
    have hpos : 0 < smallPageSize := by decide
    have hfind := (hok.userRegion_eq_some_iff hlt).2 ⟨hr, hlo, by omega⟩
    exact ⟨r.attr, by rw [userVaAttr, hfind], AccessFlags.grants_iff.2 hallow⟩
  · rintro ⟨attr, hattr, hgrant⟩
    rw [userVaAttr] at hattr
    split at hattr
    · cases hattr
    next r hfind =>
      cases hattr
      obtain ⟨hr, hlo, hhi⟩ := (hok.userRegion_eq_some_iff hlt).1 hfind
      refine ⟨r, hr, hlo, ?_, AccessFlags.grants_iff.1 hgrant⟩
      have hva := (hok.ok r hr).va
      have hsize := (hok.ok r hr).size
      have hps : smallPageSize = 4096 := rfl
      simp only [PageAligned, VmRegion.endVa, hps] at hva hsize hp hhi ⊢
      omega

theorem SpaceOk.checkPages_next (hok : SpaceOk cfg s.regions) (fuel : ℕ) (ha : PageAligned a)
    (hlt : a < 2 ^ cfg.bits) (hend : a < endAddr) (h : PageAllowed s flags a) :
    a + smallPageSize < 2 ^ cfg.bits ∧
      checkPages cfg s flags endAddr (fuel + 1) a
        = checkPages cfg s flags endAddr fuel (a + smallPageSize) := by
  obtain ⟨attr, hattr, hgrant⟩ := (hok.pageAllowed_iff ha hlt).1 h
  obtain ⟨r, hr, -, hhi, -⟩ := h
  have hnext : a + smallPageSize < 2 ^ cfg.bits := by
    have := (hok.ok r hr).endVa_lt
    have hpos : 0 < smallPageSize := by decide
    omega
  simp only [checkPages, if_pos hend, hattr, hgrant, if_true]
  rw [Nat.mod_eq_of_lt hnext]
  exact ⟨hnext, rfl⟩

theorem SpaceOk.checkPages_denied (hok : SpaceOk cfg s.regions) (fuel : ℕ) (ha : PageAligned a)
    (hlt : a < 2 ^ cfg.bits) (hend : a < endAddr) (h : ¬PageAllowed s flags a) :
    ∃ e, checkPages cfg s flags endAddr (fuel + 1) a = some (.error e) := by
  rw [checkPages, if_pos hend]
  cases hattr : userVaAttr cfg s a with
  | error e => exact ⟨e, rfl⟩
  | ok attr =>
    have hgrant : ¬flags.grants attr = true :=
      fun hgrant => h ((hok.pageAllowed_iff ha hlt).2 ⟨attr, hattr, hgrant⟩)
    simp only [if_neg hgrant]
    exact ⟨_, rfl⟩

theorem SpaceOk.checkPages_spec (hok : SpaceOk cfg s.regions) (flags : AccessFlags) (endAddr : ℕ) :
    ∀ (fuel : ℕ) {a : ℕ},
    PageAligned a → a < 2 ^ cfg.bits → 2 ^ cfg.bits - a ≤ fuel →
    ∃ res, checkPages cfg s flags endAddr fuel a = some res ∧
      (res = .ok () ↔ ∀ p, PageAligned p → a ≤ p → p < endAddr → PageAllowed s flags p)
  | 0, a, _, hlt, hfuel => by omega
  | fuel + 1, a, ha, hlt, hfuel => by
    have hps : smallPageSize = 4096 := rfl
    by_cases hend : a < endAddr
    swap
    · rw [checkPages, if_neg hend]
      exact ⟨.ok (), rfl, iff_of_true rfl fun p _ hp hlt => by omega⟩
    by_cases hallow : PageAllowed s flags a
    swap
    · obtain ⟨e, he⟩ := hok.checkPages_denied fuel ha hlt hend hallow
      exact ⟨_, he, iff_of_false (by simp) fun h => hallow (h a ha le_rfl hend)⟩
    obtain ⟨hnext, hstep⟩ := hok.checkPages_next fuel ha hlt hend hallow
    have hna : PageAligned (a + smallPageSize) := (Nat.add_mod_right ..).trans ha
    obtain ⟨res, hres, hiff⟩ := hok.checkPages_spec flags endAddr fuel hna hnext (by omega)
    refine ⟨res, hstep.trans hres,
      hiff.trans ⟨fun h p hp hle hlt => ?_, fun h p hp hle => h p hp (by omega)⟩⟩
    rcases Nat.eq_or_lt_of_le hle with rfl | hgt
    · exact hallow
    · refine h p hp ?_ hlt
      rw [PageAligned, hps] at ha hp
      omega

/-! ### Private memory -/

/-- The region is the TA's own. -/
def VmRegion.Private (r : VmRegion) : Prop :=
  r.flags.ephemeral = false ∧ r.flags.permanent = false ∧ r.flags.shareable = false

theorem VmRegion.private_iff : r.flags.word &&& vmFlagsNonpriv = 0 ↔ r.Private := by
  unfold VmRegion.Private
  rcases r.flags with ⟨e, p, sh, l, ro⟩
  revert e p sh l ro
  decide

theorem Attr.word_and_nonpriv (a : Attr) : a.word &&& vmFlagsNonpriv ≠ 0 := by
  intro h
  have hbit := congrArg (Nat.testBit · 0) h
  simp [Attr.word, vmFlagsNonpriv, bit] at hbit

theorem vmBufIntersectsUmPrivate_eq_false : vmBufIntersectsUmPrivate cfg s va size = false := by
  rw [vmBufIntersectsUmPrivate, List.any_eq_false]
  intro r _
  simp [r.attr.word_and_nonpriv]

/-- The buffer lies in the region. -/
def VmRegion.Encloses (r : VmRegion) (va size : ℕ) : Prop :=
  0 < size ∧ r.va ≤ va ∧ va + size ≤ r.endVa

theorem SpaceOk.insideUmPrivate_iff (hok : SpaceOk cfg s.regions) (hva : va < 2 ^ cfg.bits)
    (hsize : size < 2 ^ cfg.bits) :
    vmBufIsInsideUmPrivate cfg s va size = true
      ↔ ∃ r ∈ s.regions, r.Private ∧ r.Encloses va size := by
  have hbits := cfg.pow_bits_le
  simp only [vmBufIsInsideUmPrivate, List.any_eq_true, Bool.and_eq_true, decide_eq_true_eq,
    VmRegion.private_iff]
  refine exists_congr fun r => and_congr_right fun hr => and_congr_right fun _ => ?_
  rw [coreIsBufferInside_iff (by omega) (by omega) (hok.ok r hr).endVa_le_paddr, VmRegion.Encloses,
    VmRegion.endVa]
  omega

/-! ### Checks -/

/-- The buffer has bytes of the page. -/
def PageOverlaps (p uaddr len : ℕ) : Prop := p < uaddr + len ∧ uaddr < p + smallPageSize

/-- Every page of the buffer may be accessed, and the buffer is the TA's own if it has to be. -/
structure Accessible (cfg : Config) (s : VmInfo) (flags : AccessFlags) (uaddr len : ℕ) : Prop where
  fits : uaddr + len < 2 ^ cfg.bits
  oneWorld : ¬(flags.nonsecure = true ∧ flags.secure = true)
  pages : ∀ p, PageAligned p → PageOverlaps p uaddr len → PageAllowed s flags p
  owned : flags.anyOwner = false → ∃ r ∈ s.regions, r.Private ∧ r.Encloses uaddr len

theorem SpaceOk.checkAccessRights (hok : SpaceOk cfg s.regions) (flags : AccessFlags)
    (hu : uaddr < 2 ^ cfg.bits) (hl : len < 2 ^ cfg.bits) :
    ∃ res, vmCheckAccessRights cfg s flags uaddr len = some res ∧
      (res = .ok () ↔ Accessible cfg s flags uaddr len) := by
  rw [vmCheckAccessRights, addOverflow]
  by_cases hfits : uaddr + len < 2 ^ cfg.bits
  swap
  · rw [if_neg hfits]
    exact ⟨_, rfl, iff_of_false (by simp) fun h => hfits h.fits⟩
  rw [if_pos hfits]
  by_cases hworld : flags.nonsecure = true ∧ flags.secure = true
  · simp only [hworld.1, hworld.2, Bool.and_self, if_true]
    exact ⟨_, rfl, iff_of_false (by simp) fun h => h.oneWorld hworld⟩
  by_cases howned : flags.anyOwner = false → ∃ r ∈ s.regions, r.Private ∧ r.Encloses uaddr len
  swap
  · have hdeny : (!flags.anyOwner && !vmBufIsInsideUmPrivate cfg s uaddr len) = true := by
      rw [← hok.insideUmPrivate_iff hu hl, Classical.not_imp] at howned
      simpa using howned
    simp only [hdeny, if_true]
    split_ifs
    all_goals exact ⟨_, rfl, iff_of_false (by simp) fun h => howned h.owned⟩
  have hpass : ¬(!flags.anyOwner && !vmBufIsInsideUmPrivate cfg s uaddr len) = true := by
    rw [← hok.insideUmPrivate_iff hu hl] at howned
    simpa using howned
  have hps : smallPageSize = 4096 := rfl
  have hdown : PageAligned (uaddr / smallPageSize * smallPageSize) := Nat.mul_mod_left ..
  have hle : uaddr / smallPageSize * smallPageSize ≤ uaddr := Nat.div_mul_le_self ..
  obtain ⟨res, hres, hiff⟩ :=
    hok.checkPages_spec flags (uaddr + len) (2 ^ cfg.bits) hdown (by omega) (by omega)
  simp only [if_neg (mt (Bool.and_eq_true _ _).mp hworld), if_neg hpass]
  refine ⟨res, hres, hiff.trans ⟨fun h => ⟨hfits, hworld, fun p hp hov => ?_, howned⟩,
    fun h p hp hlo hhi => ?_⟩⟩
  · refine h p hp ?_ hov.1
    have := hov.2
    rw [PageAligned, hps] at hp
    rw [hps] at this ⊢
    omega
  · refine h.pages p hp ⟨hhi, ?_⟩
    rw [hps] at hlo ⊢
    omega

/-- What lies inside of private memory meets it, and what meets it is found. -/
def PrivateExact (cfg : Config) (s : VmInfo) (va size : ℕ) : Prop :=
  0 < size →
    (vmBufIsInsideUmPrivate cfg s va size = true → vmBufIntersectsUmPrivate cfg s va size = true) ∧
    (vmBufIntersectsUmPrivate cfg s va size = true ↔
      ∃ r ∈ s.regions, r.Private ∧ ∃ x, (va ≤ x ∧ x < va + size) ∧ r.va ≤ x ∧ x < r.endVa)

/-- The access checks are exact, for a buffer with no byte in a private region. -/
theorem access_exact (cfg : Config) (s : VmInfo) (flags : AccessFlags) (uaddr len va size : ℕ)
    (hok : SpaceOk cfg s.regions) (hu : uaddr < 2 ^ cfg.bits) (hl : len < 2 ^ cfg.bits)
    (hva : va < 2 ^ cfg.bits) (hsize : size < 2 ^ cfg.bits) :
    ((∃ res, vmCheckAccessRights cfg s flags uaddr len = some res ∧
        (res = .ok () ↔ Accessible cfg s flags uaddr len)) ∧ PrivateExact cfg s va size) ↔
      ∀ r ∈ s.regions, r.Private → ∀ x, va ≤ x → x < va + size → ¬(r.va ≤ x ∧ x < r.endVa) := by
  rw [and_iff_right (hok.checkAccessRights flags hu hl)]
  simp only [PrivateExact, vmBufIntersectsUmPrivate_eq_false, Bool.false_eq_true, imp_false,
    false_iff, hok.insideUmPrivate_iff hva hsize]
  constructor
  · intro h r hr hpriv x hlo hhi hin
    exact (h (by omega)).2 ⟨r, hr, hpriv, x, ⟨hlo, hhi⟩, hin⟩
  · rintro h hpos
    constructor
    · rintro ⟨r, hr, hpriv, -, hlo, hhi⟩
      exact h r hr hpriv va le_rfl (by omega) ⟨hlo, by omega⟩
    · rintro ⟨r, hr, hpriv, x, ⟨hlo, hhi⟩, hin⟩
      exact h r hr hpriv x hlo hhi hin

def twoPages : VmInfo := ⟨[⟨mobj16, 0, 2 ^ 30, 2 * smallPageSize, ⟨0, true, .prw⟩, .none⟩], true⟩

theorem twoPages_ok : SpaceOk lpaeConfig twoPages.regions where
  ok r hr := by
    rw [twoPages, List.mem_singleton] at hr
    subst hr
    constructor <;> decide
  apart := List.pairwise_singleton ..

theorem access_exact_above : step lpaeConfig VmInfo.empty (mapTwo 0 .none) = .ok twoPages ∧
      PrivateExact lpaeConfig twoPages (2 ^ 30 + 2 * smallPageSize) 16 := by
  refine ⟨by decide +kernel,
    ((access_exact lpaeConfig twoPages ⟨true, true, true, false,
    false⟩ 0 16 (2 ^ 30 + 2 * smallPageSize) 16 twoPages_ok (by decide) (by decide) (by decide)
    (by decide)).2 ?_).2⟩
  intro r hr _ x hlo _ hin
  rw [twoPages, List.mem_singleton] at hr
  subst hr
  exact absurd hin.2 (Nat.not_lt.2 hlo)

/-- A buffer inside a private region that does not intersect one. -/
theorem access_private_missed : step lpaeConfig VmInfo.empty (mapTwo 0 .none) = .ok twoPages ∧
      vmBufIsInsideUmPrivate lpaeConfig twoPages (2 ^ 30) 16 = true ∧
      vmBufIntersectsUmPrivate lpaeConfig twoPages (2 ^ 30) 16 = false := by
  refine ⟨?_, ?_, ?_⟩ <;> decide +kernel

end Optee.Vm
