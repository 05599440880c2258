import Mathlib
import Optee.NsecDdr
import Optee.Result

/-!
# Non-secure memory

`carve_out_phys_mem` takes a hole out of the first range that has it, so that each of its addresses
is in one range less (`carveOutPhysMem_count`).
-/

namespace Optee.NsecDdr

open MemMap Buffer

variable {cfg : Config} {plat : Platform} {m : PhysMem} {mem mem' given stored : List PhysMem}
  {areas : List MemaccessArea} {map : TeeMmapRegion} {maps : List TeeMmapRegion}
  {w a al b bl pa size x : ℕ}

/-- An address of a range. -/
def Has (addr size x : ℕ) : Prop := addr ≤ x ∧ x < addr + size

instance : Decidable (Has pa size x) := inferInstanceAs (Decidable (_ ∧ _))

/-- How many ranges have an address. -/
def countMem (mem : List PhysMem) (x : ℕ) : ℕ := mem.countP fun m => Has m.addr m.size x

/-- How many areas have an address. -/
def countAreas (areas : List MemaccessArea) (x : ℕ) : ℕ :=
  areas.countP fun a => Has a.paddr a.size x

/-- A range has the address. -/
def InMem (mem : List PhysMem) (x : ℕ) : Prop := ∃ m ∈ mem, Has m.addr m.size x

/-- An area has the address. -/
def InAreas (areas : List MemaccessArea) (x : ℕ) : Prop := ∃ a ∈ areas, Has a.paddr a.size x

/-- The areas of static shared memory. -/
def shmAreas (maps : List TeeMmapRegion) : List MemaccessArea :=
  (maps.filter fun map => map.type = .nsecShm).map fun map => ⟨map.pa, map.size⟩

/-- What is to be taken out of the ranges. -/
def holes (plat : Platform) (maps : List TeeMmapRegion) : List MemaccessArea :=
  plat.secSdp.toList ++ plat.physSdpMem.map (fun m => ⟨m.addr, m.size⟩) ++ plat.secureOnly
    ++ shmAreas maps

/-- What the code takes out of the ranges. -/
def carvedAreas (cfg : Config) (plat : Platform) (maps : List TeeMmapRegion) : List MemaccessArea :=
  plat.secSdp.toList ++ plat.physSdpMem.map (sdpArea cfg) ++ plat.secureOnly ++ shmAreas maps

/-- Types whose entries may overlap the ranges. -/
def mayOverlap : MemType → Bool
  | .nsecShm | .extDt | .manifestDt | .ramNsec | .resVaspace | .shmVaspace | .tsVaspace
  | .pagerVaspace => true
  | _ => false

/-- The sizes fit their types. -/
structure Typed (cfg : Config) (plat : Platform) (maps : List TeeMmapRegion)
    (given : List PhysMem) : Prop where
  given : ∀ m ∈ given, m.size < 2 ^ cfg.paddrBits
  secSdp : ∀ a ∈ plat.secSdp, a.size < 2 ^ cfg.sizeBits
  secureOnly : ∀ a ∈ plat.secureOnly, a.size < 2 ^ cfg.sizeBits
  secureOnly_end : ∀ a ∈ plat.secureOnly, a.paddr + a.size ≤ 2 ^ cfg.paddrBits
  nsecShared : ∀ a ∈ plat.nsecShared, a.size < 2 ^ cfg.sizeBits
  maps : ∀ e ∈ maps, e.size < 2 ^ cfg.sizeBits

/-- What is stored is what was given without the holes, and no secure memory counts as non-secure.
-/
structure Isolated (cfg : Config) (plat : Platform) (maps : List TeeMmapRegion)
    (given stored : List PhysMem) :
    Prop where
  exact : ∀ x, InMem stored x ↔ InMem given x ∧ ¬ InAreas (holes plat maps) x
  secure : ∀ x, InMem stored x → ¬ InAreas plat.secureOnly x
  entries : ∀ x, InMem stored x → ∀ e ∈ maps, mayOverlap e.type = false → ¬ Has e.pa e.size x
  nonSec : ∀ pbuf len, 0 < len → len < 2 ^ cfg.sizeBits →
    corePbufIsNonSec cfg plat stored pbuf len = true →
    ∀ x, Has pbuf len x → ¬ InAreas plat.secureOnly x

theorem Config.sizes_le (cfg : Config) : 2 ^ cfg.sizeBits ≤ 2 ^ cfg.paddrBits :=
  Nat.pow_le_pow_right Nat.two_pos cfg.sizeBits_le

/-! ### Ranges -/

theorem lastAddr_eq (hpos : 0 < bl) (hbl : bl < 2 ^ w) (h : b ≤ lastAddr w b bl) :
    b + bl ≤ 2 ^ w ∧ lastAddr w b bl = b + bl - 1 := by
  have heq : b + bl + (2 ^ w - 1) = b + bl - 1 + 2 ^ w := by omega
  have hlt := Nat.mod_lt (b + bl - 1) (Nat.two_pow_pos w)
  rw [lastAddr, heq, Nat.add_mod_right] at h ⊢
  rcases Nat.lt_or_ge (b + bl - 1) (2 ^ w) with hin | hout
  · exact ⟨by omega, Nat.mod_eq_of_lt hin⟩
  · rw [Nat.mod_eq_sub_mod hout, Nat.mod_eq_of_lt (by omega)] at h
    omega

theorem valid_spec (h : isValidConfAndNotnullSize w b bl a al = true) (hbl : bl < 2 ^ w)
    (hal : al < 2 ^ w) :
    (0 < bl ∧ b + bl ≤ 2 ^ w ∧ lastAddr w b bl = b + bl - 1) ∧
      (0 < al ∧ a + al ≤ 2 ^ w ∧ lastAddr w a al = a + al - 1) := by
  rw [isValidConfAndNotnullSize] at h
  split at h
  · cases h
  next hwrap =>
  split at h
  · cases h
  next hzero =>
  have hb := lastAddr_eq (b := b) (by omega) hbl (by omega)
  have ha := lastAddr_eq (b := a) (by omega) hal (by omega)
  exact ⟨⟨by omega, hb⟩, by omega, ha⟩

theorem inside_spec (h : coreIsBufferInside w b bl a al = true) (hbl : bl < 2 ^ w)
    (hal : al < 2 ^ w) :
    0 < bl ∧ a + al ≤ 2 ^ w ∧ a ≤ b ∧ b + bl ≤ a + al := by
  rw [coreIsBufferInside, Bool.and_eq_true, decide_eq_true_eq] at h
  obtain ⟨⟨hb, -, hb'⟩, ha, ha', ha''⟩ := valid_spec h.1 hbl hal
  rw [hb', ha''] at h
  omega

theorem outside_spec (h : coreIsBufferOutside w b bl a al = true) (hbl : bl < 2 ^ w)
    (hal : al < 2 ^ w) :
    Has b bl x → ¬ Has a al x := by
  rw [coreIsBufferOutside, Bool.and_eq_true, decide_eq_true_eq] at h
  obtain ⟨⟨hb, -, hb'⟩, ha, -, ha'⟩ := valid_spec h.1 hbl hal
  rw [hb', ha'] at h
  simp only [Has]
  omega

theorem not_intersect_spec (h : coreIsBufferIntersect w b bl a al = false) (hb : b + bl ≤ 2 ^ w)
    (ha : a + al ≤ 2 ^ w) : Has b bl x → ¬ Has a al x := by
  intro hx hx'
  have hlast : ∀ {c cl}, c + cl ≤ 2 ^ w → Has c cl x → lastAddr w c cl = c + cl - 1 := by
    intro c cl hc hcx
    obtain ⟨h1, h2⟩ := hcx
    have heq : c + cl + (2 ^ w - 1) = c + cl - 1 + 2 ^ w := by omega
    rw [lastAddr, heq, Nat.add_mod_right, Nat.mod_eq_of_lt (by omega)]
  rw [coreIsBufferIntersect, isValidConfAndNotnullSize, hlast hb hx, hlast ha hx', if_neg, if_neg,
    Bool.true_and, Bool.not_eq_false', decide_eq_true_eq] at h
  all_goals simp only [Has] at hx hx'; omega

/-! ### Counting -/

theorem inMem_iff : InMem mem x ↔ 0 < countMem mem x := by
  rw [InMem, countMem, List.countP_pos_iff]
  simp only [decide_eq_true_eq]

theorem inAreas_iff : InAreas areas x ↔ 0 < countAreas areas x := by
  rw [InAreas, countAreas, List.countP_pos_iff]
  simp only [decide_eq_true_eq]

theorem countMem_nil : countMem [] x = 0 := rfl

theorem countMem_cons :
    countMem (m :: mem) x = (if Has m.addr m.size x then 1 else 0) + countMem mem x := by
  rw [countMem, List.countP_cons, Nat.add_comm]
  simp only [decide_eq_true_eq, countMem]

theorem countMem_append : countMem (mem ++ mem') x = countMem mem x + countMem mem' x :=
  List.countP_append

theorem countAreas_cons {hole : MemaccessArea} :
    countAreas (hole :: areas) x = (if Has hole.paddr hole.size x then 1
      else 0) + countAreas areas x := by
  rw [countAreas, List.countP_cons, Nat.add_comm]
  simp only [decide_eq_true_eq, countAreas]

theorem countMem_eq_zero : countMem mem x = 0 ↔ ∀ m ∈ mem, ¬ Has m.addr m.size x := by
  rw [countMem, List.countP_eq_zero]
  simp only [decide_eq_true_eq]

/-- The sizes fit `paddr_t`. -/
def Sized (cfg : Config) (mem : List PhysMem) : Prop := ∀ m ∈ mem, m.size < 2 ^ cfg.paddrBits

theorem Sized.of_cons (h : Sized cfg (m :: mem)) : Sized cfg mem :=
  fun n hn => h n (List.mem_cons_of_mem m hn)

theorem carveRange_count (hm : m.size < 2 ^ cfg.paddrBits) (hpos : 0 < size)
    (hend : m.addr + m.size ≤ 2 ^ cfg.paddrBits) (hlo : m.addr ≤ pa)
    (hhi : pa + size ≤ m.addr + m.size) :
    Sized cfg (carveRange cfg pa size m) ∧ ∀ x, countMem (carveRange cfg pa size m) x =
      (if Has m.addr m.size x then 1 else 0) - if Has pa size x then 1 else 0 := by
  rw [carveRange]
  split
  next heq =>
    obtain ⟨rfl, rfl⟩ := heq
    exact ⟨nofun, fun x => by rw [Nat.sub_self]; rfl⟩
  split
  next hne hpa =>
    subst hpa
    refine ⟨fun n hn => ?_, fun x => ?_⟩
    · obtain rfl := List.mem_singleton.1 hn
      exact (Nat.sub_le _ _).trans_lt hm
    · rw [countMem_cons, countMem_nil]
      split_ifs <;> simp only [Has] at * <;> omega
  split
  next hne hpa hmod =>
    have heq : pa + size = m.addr + m.size := by
      rcases hhi.lt_or_eq with hlt | heq
      · rw [Nat.mod_eq_of_lt (a := pa + size) (by omega)] at hmod
        rcases hend.lt_or_eq with hend | hend
        · rw [Nat.mod_eq_of_lt hend] at hmod
          exact hmod
        · rw [hend, Nat.mod_self] at hmod
          omega
      · exact heq
    refine ⟨fun n hn => ?_, fun x => ?_⟩
    · obtain rfl := List.mem_singleton.1 hn
      exact (Nat.sub_le _ _).trans_lt hm
    · rw [countMem_cons, countMem_nil]
      split_ifs <;> simp only [Has] at * <;> omega
  next hne hpa hmod =>
    refine ⟨fun n hn => ?_, fun x => ?_⟩
    · rcases List.mem_cons.1 hn with rfl | hn
      · change pa - m.addr < _
        omega
      · obtain rfl := List.mem_singleton.1 hn
        exact (Nat.sub_le _ _).trans_lt hm
    · rw [countMem_cons, countMem_cons, countMem_nil]
      split_ifs <;> simp only [Has] at * <;> omega

theorem carveOutPhysMem_count (hsize : size < 2 ^ cfg.paddrBits) :
    ∀ {mem mem' : List PhysMem}, Sized cfg mem →
    carveOutPhysMem cfg pa size mem = .ok mem' →
    Sized cfg mem' ∧ ∀ x, countMem mem' x = countMem mem x - if Has pa size x then 1 else 0
  | [], mem', _, h => by
    obtain rfl := Except.ok.inj h
    exact ⟨nofun, fun x => (Nat.zero_sub _).symm⟩
  | m :: mem, mem', hs, h => by
    have hm := hs m List.mem_cons_self
    rw [carveOutPhysMem] at h
    split at h
    next hin =>
      obtain rfl := Except.ok.inj h
      obtain ⟨hpos, hend, hlo, hhi⟩ := inside_spec hin hsize hm
      obtain ⟨hs', hcount⟩ := carveRange_count hm hpos hend hlo hhi
      refine ⟨fun n hn => (List.mem_append.1 hn).elim (hs' n) (hs.of_cons n), fun x => ?_⟩
      have hsub : Has pa size x → Has m.addr m.size x :=
        fun hx => ⟨hlo.trans hx.1, hx.2.trans_le hhi⟩
      rw [countMem_append, hcount, countMem_cons]
      split_ifs with h1 h2 <;> first | omega | exact absurd (hsub ‹_›) ‹_›
    next =>
      split at h
      · cases h
      next hout =>
      obtain ⟨rest, hrest, h⟩ := bind_eq_ok.1 h
      obtain rfl := Except.ok.inj h
      obtain ⟨hs', hcount⟩ := carveOutPhysMem_count hsize hs.of_cons hrest
      refine ⟨fun n hn => (List.mem_cons.1 hn).elim (fun h => h ▸ hm) (hs' n), fun x => ?_⟩
      have hne : Has pa size x → ¬ Has m.addr m.size x :=
        outside_spec (by simpa using hout) hsize hm
      rw [countMem_cons, countMem_cons, hcount]
      split_ifs with h1 h2 <;> first | omega | exact absurd ‹Has m.addr m.size x› (hne ‹_›)

theorem carveOutAreas_count :
    ∀ {areas : List MemaccessArea} {mem mem' : List PhysMem},
    (∀ a ∈ areas, a.size < 2 ^ cfg.paddrBits) → Sized cfg mem →
      carveOutAreas cfg areas mem = .ok mem' →
    Sized cfg mem' ∧ ∀ x, countMem mem' x = countMem mem x - countAreas areas x
  | [], mem, mem', _, hs, h => by
    obtain rfl := Except.ok.inj h
    exact ⟨hs, fun x => rfl⟩
  | hole :: areas, mem, mem', ha, hs, h => by
    rw [carveOutAreas, List.foldlM_cons] at h
    obtain ⟨mem₁, hcarve, h⟩ := bind_eq_ok.1 h
    obtain ⟨hs₁, hcount₁⟩ := carveOutPhysMem_count (ha hole List.mem_cons_self) hs hcarve
    obtain ⟨hs', hcount⟩ := carveOutAreas_count (fun a h => ha a (List.mem_cons_of_mem _ h)) hs₁ h
    exact ⟨hs', fun x => by rw [hcount, hcount₁, countAreas_cons, Nat.sub_sub]⟩

theorem checkMap_count (hsize : map.size < 2 ^ cfg.paddrBits) (hs : Sized cfg mem)
    (h : checkMap cfg mem map = .ok mem') :
    Sized cfg mem' ∧ (∀ x, countMem mem' x = countMem mem x - countAreas (shmAreas [map]) x) ∧
      (mayOverlap map.type = false → ∀ x, Has map.pa map.size x → countMem mem' x = 0) := by
  by_cases hshm : map.type = .nsecShm
  · rw [checkMap, hshm] at h
    obtain ⟨hs', hcount⟩ := carveOutPhysMem_count hsize hs h
    refine ⟨hs', fun x => ?_, fun hno => by rw [hshm] at hno; cases hno⟩
    have hareas : shmAreas [map] = [⟨map.pa, map.size⟩] := by simp [shmAreas, hshm]
    rw [hcount, hareas, countAreas_cons]
    rfl
  · have hareas : shmAreas [map] = [] := by simp [shmAreas, hshm]
    have hkeep : mem' = mem ∧ (mayOverlap map.type = false →
        checkPhysMemIsOutside cfg mem map = .ok mem') := by
      rw [checkMap] at h
      cases ht : map.type <;> rw [ht] at h hshm
      case nsecShm => exact absurd rfl hshm
      case extDt | manifestDt | ramNsec | resVaspace | shmVaspace | tsVaspace | pagerVaspace =>
        exact ⟨(Except.ok.inj h).symm, nofun⟩
      all_goals
        refine ⟨?_, fun _ => h⟩
        simp only [checkPhysMemIsOutside] at h
        split at h
        · exact (Except.ok.inj h).symm
        · cases h
    obtain ⟨rfl, hout⟩ := hkeep
    refine ⟨hs, fun x => by rw [hareas]; rfl, fun hno x hx => countMem_eq_zero.2 fun m hm hx' => ?_⟩
    have hout := hout hno
    rw [checkPhysMemIsOutside] at hout
    split at hout
    next hall => exact outside_spec (List.all_eq_true.1 hall m hm) (hs m hm) hsize hx' hx
    · cases hout

theorem checkMaps_count :
    ∀ {maps : List TeeMmapRegion} {mem mem' : List PhysMem},
    (∀ e ∈ maps, e.size < 2 ^ cfg.paddrBits) → Sized cfg mem →
      maps.foldlM (checkMap cfg) mem = .ok mem' →
    Sized cfg mem' ∧ (∀ x, countMem mem' x = countMem mem x - countAreas (shmAreas maps) x) ∧
      ∀ e ∈ maps, mayOverlap e.type = false → ∀ x, Has e.pa e.size x → countMem mem' x = 0
  | [], mem, mem', _, hs, h => by
    obtain rfl := Except.ok.inj h
    exact ⟨hs, fun x => rfl, nofun⟩
  | e :: maps, mem, mem', hsize, hs, h => by
    rw [List.foldlM_cons] at h
    obtain ⟨mem₁, hfirst, h⟩ := bind_eq_ok.1 h
    obtain ⟨hs₁, hcount₁, hout₁⟩ := checkMap_count (hsize e List.mem_cons_self) hs hfirst
    obtain ⟨hs', hcount, hout⟩ :=
      checkMaps_count (fun e h => hsize e (List.mem_cons_of_mem _ h)) hs₁ h
    have hareas : shmAreas (e :: maps) = shmAreas [e] ++ shmAreas maps := by
      rw [shmAreas, shmAreas, shmAreas, ← List.map_append, ← List.filter_append,
        List.singleton_append]
    refine ⟨hs', fun x => ?_, fun f hf hno x hx => ?_⟩
    · rw [hcount, hcount₁, hareas, countAreas, countAreas, countAreas, List.countP_append,
        Nat.sub_sub]
    · rcases List.mem_cons.1 hf with rfl | hf
      · rw [hcount, hout₁ hno x hx, Nat.zero_sub]
      · exact hout f hf hno x hx

/-! ### What is stored -/

theorem coreMmuSetDiscoveredNsecDdr_count {before : PhysMem} (ht : Typed cfg plat maps given)
    (h : coreMmuSetDiscoveredNsecDdr cfg plat maps before given = .ok stored) :
    (∀ x, countMem stored x = countMem given x - countAreas (carvedAreas cfg plat maps) x) ∧
      Sized cfg stored ∧ ∀ e ∈ maps, mayOverlap e.type = false → ∀ x, Has e.pa e.size x →
        countMem stored x = 0 := by
  have hle := cfg.sizes_le
  rw [coreMmuSetDiscoveredNsecDdr] at h
  split at h
  · cases h
  obtain ⟨mem₁, h₁, h⟩ := bind_eq_ok.1 h
  obtain ⟨mem₂, h₂, h⟩ := bind_eq_ok.1 h
  obtain ⟨mem₃, h₃, h⟩ := bind_eq_ok.1 h
  obtain ⟨mem₄, h₄, h⟩ := bind_eq_ok.1 h
  dsimp only at h
  split at h
  next =>
    obtain rfl := Except.ok.inj h
    have hs₀ : Sized cfg (cfg.qsort given) :=
      fun m hm => ht.given m ((cfg.qsort_perm given).mem_iff.1 hm)
    obtain ⟨hs₁, hcount₁⟩ := carveOutAreas_count
      (fun a ha => (ht.secSdp a (Option.mem_toList.1 ha)).trans_le hle) hs₀ h₁
    have hsdp : ∀ a ∈ plat.physSdpMem.map (sdpArea cfg), a.size < 2 ^ cfg.paddrBits := by
      intro a ha
      obtain ⟨m, -, rfl⟩ := List.mem_map.1 ha
      exact (Nat.mod_lt _ (Nat.two_pow_pos _)).trans_le hle
    obtain ⟨hs₂, hcount₂⟩ := carveOutAreas_count hsdp hs₁ h₂
    obtain ⟨hs₃, hcount₃⟩ :=
      carveOutAreas_count (fun a ha => (ht.secureOnly a ha).trans_le hle) hs₂ h₃
    obtain ⟨hs₄, hcount₄, hout⟩ := checkMaps_count (fun e he => (ht.maps e he).trans_le hle) hs₃ h₄
    have hperm : ∀ x, countMem (cfg.qsort given) x = countMem given x := fun x =>
      (cfg.qsort_perm given).countP_eq _
    refine ⟨fun x => ?_, hs₄, hout⟩
    rw [hcount₄, hcount₃, hcount₂, hcount₁, hperm, Nat.sub_sub, Nat.sub_sub, Nat.sub_sub]
    simp only [carvedAreas, countAreas, List.countP_append, Nat.add_assoc]
  next => cases h

theorem inAreas_holes (h : InAreas (carvedAreas cfg plat maps) x) :
    InAreas (holes plat maps) x := by
  obtain ⟨a, ha, hx⟩ := h
  simp only [carvedAreas, List.mem_append, List.mem_map] at ha
  rcases ha with ((ha | ⟨m, hm, rfl⟩) | ha) | ha
  · exact ⟨a, by simp [holes, List.mem_append, ha], hx⟩
  · refine ⟨⟨m.addr, m.size⟩,
      by simp only [holes, List.mem_append]; exact .inl (.inl (.inr (List.mem_map_of_mem hm))),
      hx.1, ?_⟩
    exact hx.2.trans_le (Nat.add_le_add_left (Nat.mod_le _ _) _)
  · exact ⟨a, by simp [holes, List.mem_append, ha], hx⟩
  · exact ⟨a, by simp [holes, List.mem_append, ha], hx⟩

/-- What is stored is what it should be if and only if no address of a hole is in more of the given
ranges than of the holes. -/
theorem nsecDdr_exact_iff (cfg : Config) (plat : Platform) (maps : List TeeMmapRegion)
    (before : PhysMem) (given stored : List PhysMem) (ht : Typed cfg plat maps given)
    (hconf : checkSecNsecMemConfig cfg plat = true)
    (h : coreMmuSetDiscoveredNsecDdr cfg plat maps before given = .ok stored) :
    Isolated cfg plat maps given stored ↔
      ∀ x, InAreas (holes plat maps) x →
        countMem given x ≤ countAreas (carvedAreas cfg plat maps) x := by
  obtain ⟨hcount, hsized, hout⟩ := coreMmuSetDiscoveredNsecDdr_count ht h
  have hle := cfg.sizes_le
  constructor
  · intro hiso x hx
    have hnot : ¬ InMem stored x := fun hin => ((hiso.exact x).1 hin).2 hx
    rw [inMem_iff, hcount] at hnot
    omega
  · intro hfew
    have hexact : ∀ x, InMem stored x ↔ InMem given x ∧ ¬ InAreas (holes plat maps) x := by
      intro x
      rw [inMem_iff, inMem_iff, hcount]
      by_cases hx : InAreas (holes plat maps) x
      · have := hfew x hx
        simp only [hx, not_true_eq_false, and_false, iff_false]
        omega
      · have hzero : countAreas (carvedAreas cfg plat maps) x = 0 :=
          Nat.eq_zero_of_not_pos fun hpos => hx (inAreas_holes (inAreas_iff.2 hpos))
        simp only [hx, hzero, Nat.sub_zero, not_false_eq_true, and_true]
    have hsecure : ∀ x, InMem stored x → ¬ InAreas plat.secureOnly x := by
      rintro x hx ⟨a, ha, hax⟩
      exact ((hexact x).1 hx).2 ⟨a, by simp [holes, List.mem_append, ha], hax⟩
    refine ⟨hexact, hsecure, fun x hx e he hno hex => ?_, fun pbuf len hpos hlen hns x hx => ?_⟩
    · rw [inMem_iff, hout e he hno x hex] at hx
      exact absurd hx (Nat.lt_irrefl 0)
    rw [corePbufIsNonSec, if_neg (by omega), Bool.or_eq_true, List.any_eq_true,
      List.any_eq_true] at hns
    rcases hns with ⟨a, ha, hin⟩ | ⟨m, hm, hin⟩
    · -- shared memory was compared with secure memory at boot
      obtain ⟨-, hend, hlo, hhi⟩ :=
        inside_spec hin (hlen.trans_le hle) ((ht.nsecShared a ha).trans_le hle)
      rintro ⟨s, hs, hsx⟩
      have hno := List.all_eq_true.1 hconf s hs
      rw [Bool.not_eq_true', List.any_eq_false] at hno
      exact not_intersect_spec (by simpa using hno a ha) (ht.secureOnly_end s hs) hend hsx
        ⟨hlo.trans hx.1, hx.2.trans_le hhi⟩
    · obtain ⟨-, -, hlo, hhi⟩ := inside_spec hin (hlen.trans_le hle) (hsized m hm)
      exact hsecure x ⟨m, hm, hlo.trans hx.1, hx.2.trans_le hhi⟩

/-- A 64-bit core whose ranges come sorted. -/
def wideCore : Config where
  paddrBits := 64
  sizeBits := 64
  maxPa := 2 ^ 40 - 1
  qsort := id
  sizeBits_le := le_rfl
  qsort_perm := fun _ => .refl _

/-- A platform with secure memory, shared memory and memory of the secure data path. -/
def securePlatform : Platform where
  secureOnly := [⟨0x4e000000, 0x1000000⟩]
  nsecShared := [⟨0x42000000, 0x200000⟩]
  secSdp := some ⟨0x70000000, 0x1000000⟩
  physSdpMem := []

/-- A map with RAM of the core and shared memory. -/
def coreMaps : List TeeMmapRegion :=
  [⟨.teeRamRw, 0x1000, 0x4e000000, 0x4e000000, 0x1000000⟩,
    ⟨.nsecShm, 0x200000, 0x42000000, 0x42000000, 0x200000⟩]

theorem typed_given (h : ∀ m ∈ given, m.size < 2 ^ 64) :
    Typed wideCore securePlatform coreMaps given :=
  ⟨h, by decide, by decide, by decide, by decide, by decide⟩

theorem nsecDdr_exact_iff_one :
    ∃ stored, coreMmuSetDiscoveredNsecDdr wideCore securePlatform coreMaps ⟨.ddrOverall, 0, 0⟩
        [⟨.ddrOverall, 0x40000000, 0x40000000⟩] = .ok stored ∧ stored.length = 4 ∧
      Isolated wideCore securePlatform coreMaps [⟨.ddrOverall, 0x40000000, 0x40000000⟩] stored := by
  refine ⟨_, rfl, rfl, ?_⟩
  refine (nsecDdr_exact_iff wideCore securePlatform coreMaps ⟨.ddrOverall, 0,
    0⟩ _ _ (typed_given (by decide)) (by decide) rfl).2 fun x hx => ?_
  -- one range, so that an address of a hole is in it at most once
  have hone : countMem [⟨.ddrOverall, 0x40000000, 0x40000000⟩] x ≤ 1 := List.countP_le_length
  exact hone.trans (inAreas_iff.1 hx)

/-- Where two ranges have an area of secure data path memory, it stays in the second, and is taken
for non-secure. -/
theorem nsecDdr_overlapping_kept :
    ∃ stored, coreMmuSetDiscoveredNsecDdr wideCore securePlatform coreMaps ⟨.ddrOverall, 0, 0⟩
        [⟨.ddrOverall, 0x40000000, 0x40000000⟩, ⟨.ddrOverall, 0x60000000, 0x40000000⟩]
          = .ok stored ∧
      corePbufIsNonSec wideCore securePlatform stored 0x70000000 0x1000 = true ∧
      ¬ Isolated wideCore securePlatform coreMaps
        [⟨.ddrOverall, 0x40000000, 0x40000000⟩, ⟨.ddrOverall, 0x60000000, 0x40000000⟩] stored := by
  refine ⟨_, rfl, by decide, fun hiso => ?_⟩
  exact ((hiso.exact 0x70000000).1 (inMem_iff.2 (by decide))).2 (inAreas_iff.2 (by decide))

end Optee.NsecDdr
