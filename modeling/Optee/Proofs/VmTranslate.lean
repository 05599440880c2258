import Optee.Proofs.VmAccess

/-!
# User addresses and physical addresses

`vm_pa2va` goes through each region from its `offset` to below its `size`, as if both were offsets
into it, so that it looks at some parts of the region only (`Part`). Translation goes both ways if
and only if each byte is in such a part and each part is at its place (`roundTrip_iff`).
-/

namespace Optee.Vm

variable {cfg : Config} {back : Mobj → Backing} {bk : Backing} {s : VmInfo} {mobj : Mobj}
  {r q : VmRegion} {x p pa n i d v ua pos len pos' len' p' : ℕ}

/-- The physical address of a byte of a region: that of its page, and the position in the page. -/
def byteAt (cfg : Config) (bk : Backing) (r : VmRegion) (i : ℕ) : TeeResult ℕ :=
  (mobjGetPa cfg r.mobj (r.offset + i / smallPageSize * smallPageSize) smallPageSize bk).map
    (· + i % smallPageSize)

/-- The parts of a region that `vm_pa2va` looks at, by position, length and physical address: all of
`mobj_phys` or nothing, and else the pages of the memory object from `offset` to below `size`. -/
def Part (cfg : Config) (bk : Backing) (r : VmRegion) (pos len pa : ℕ) : Prop :=
  match bk with
  | .phys x => r.offset < r.size ∧ pos = 0 ∧ len = r.size ∧ pa = x + r.offset
  | _ => r.offset + pos < r.size ∧ (pos = 0 ∨ PageAligned (r.offset + pos)) ∧
      len = smallPageSize - (r.offset + pos) % smallPageSize ∧
      mobjGetPa cfg r.mobj (r.offset + pos) smallPageSize bk = .ok pa

/-- A part has the same position in the pages of its region and of memory. -/
def Level (pos pa : ℕ) : Prop := pa % smallPageSize = pos % smallPageSize

/-- An address space in order; the memory of `mobj_phys` begins with a page, as `mobj_phys_init`
checks, and does not wrap around. -/
structure Backed (cfg : Config) (back : Mobj → Backing) (s : VmInfo) : Prop where
  space : SpaceOk cfg s.regions
  phys : ∀ r ∈ s.regions, ∀ pa, back r.mobj = .phys pa →
    PageAligned pa ∧ pa + roundup smallPageSize r.mobj.size ≤ 2 ^ cfg.paddrBits

/-! ### Pages of a mobj -/

theorem toGranule_page (h : toGranule cfg x smallPageSize = .ok p) :
    p = x % 2 ^ cfg.bits / smallPageSize * smallPageSize := by
  rw [toGranule, if_neg (by decide), if_neg (by simp)] at h
  exact (Except.ok.inj h).symm

theorem page_of_getPa (h : mobjGetPa cfg mobj x smallPageSize bk = .ok p) :
    PageAligned p ∧ p + smallPageSize ≤ 2 ^ cfg.bits := by
  obtain ⟨y, rfl⟩ : ∃ y, p = y % 2 ^ cfg.bits / smallPageSize * smallPageSize := by
    cases bk with
    | phys pa => exact ⟨_, toGranule_page h⟩
    | shm pa =>
      rw [mobjGetPa] at h
      split_ifs at h
      exact ⟨_, toGranule_page h⟩
    | withFobj getPa => exact ⟨_, toGranule_page h⟩
  refine ⟨Nat.mul_mod_left .., ?_⟩
  obtain ⟨k, hk⟩ := cfg.page_dvd_bits
  have hlt : y % 2 ^ cfg.bits / smallPageSize < k := by
    rw [Nat.div_lt_iff_lt_mul (by decide), Nat.mul_comm, ← hk]
    exact Nat.mod_lt _ (Nat.two_pow_pos _)
  calc y % 2 ^ cfg.bits / smallPageSize * smallPageSize + smallPageSize
      = (y % 2 ^ cfg.bits / smallPageSize + 1) * smallPageSize := (Nat.succ_mul ..).symm
    _ ≤ k * smallPageSize := Nat.mul_le_mul_right _ hlt
    _ = 2 ^ cfg.bits := by rw [hk, Nat.mul_comm]

theorem byteAt_page (hd : PageAligned d)
    (h : mobjGetPa cfg r.mobj (r.offset + d) smallPageSize bk = .ok p) (hi : i < smallPageSize) :
    byteAt cfg bk r (d + i) = .ok (p + i) := by
  obtain ⟨k, rfl⟩ := Nat.dvd_of_mod_eq_zero hd
  rw [byteAt, Nat.mul_add_div (by decide), Nat.div_eq_of_lt hi, Nat.add_zero, Nat.mul_comm k, h,
    Nat.mul_add_mod, Nat.mod_eq_of_lt hi]
  rfl

theorem exists_page_of_byteAt (h : byteAt cfg bk r i = .ok pa) :
    ∃ p, mobjGetPa cfg r.mobj (r.offset + i / smallPageSize * smallPageSize) smallPageSize bk
      = .ok p
      ∧ pa = p + i % smallPageSize := by
  rw [byteAt] at h
  cases hget :
    mobjGetPa cfg r.mobj (r.offset + i / smallPageSize * smallPageSize) smallPageSize bk with
  | error e =>
    rw [hget] at h
    cases h
  | ok p =>
    rw [hget] at h
    exact ⟨p, rfl, (Except.ok.inj h).symm⟩

theorem byteAt_lt (h : byteAt cfg bk r i = .ok pa) : pa < 2 ^ cfg.bits := by
  obtain ⟨p, hget, rfl⟩ := exists_page_of_byteAt h
  have hlow : i % smallPageSize < smallPageSize := Nat.mod_lt _ (by decide)
  have := (page_of_getPa hget).2
  omega

theorem byteAt_phys (hal : PageAligned x) (hoff : PageAligned r.offset)
    (hlow : x + r.offset + i < 2 ^ cfg.bits) :
    byteAt cfg (.phys x) r i = .ok (x + r.offset + i) := by
  have hps : smallPageSize = 4096 := rfl
  rw [PageAligned, hps] at hoff hal
  have hbits := cfg.pow_bits_le
  have hle : i / smallPageSize * smallPageSize ≤ i := Nat.div_mul_le_self ..
  have hget :
    mobjGetPa cfg r.mobj (r.offset + i / smallPageSize * smallPageSize) smallPageSize (.phys x)
      = .ok (x + (r.offset + i / smallPageSize * smallPageSize)) := by
    rw [mobjGetPa, Nat.mod_eq_of_lt (by omega), toGranule, if_neg (by decide), if_neg (by simp),
      Nat.mod_eq_of_lt (by omega)]
    refine congrArg Except.ok ?_
    rw [hps]
    omega
  rw [byteAt, hget]
  refine congrArg Except.ok ?_
  show x + (r.offset + i / smallPageSize * smallPageSize) + i % smallPageSize = x + r.offset + i
  rw [hps]
  omega

/-! ### `vm_va2pa` -/

theorem or_low (hp : PageAligned p) (x : ℕ) : p ||| x % smallPageSize = p + x % smallPageSize := by
  obtain ⟨k, rfl⟩ := Nat.dvd_of_mod_eq_zero hp
  have hlt : x % smallPageSize < 2 ^ 12 := Nat.mod_lt _ (by decide)
  exact (Nat.two_pow_add_eq_or_of_lt hlt k).symm

theorem Backed.va2pa_eq (h : Backed cfg back s) (hr : r ∈ s.regions) (hi : i < r.size) :
    vmVa2pa cfg back s (r.va + i) = byteAt cfg (back r.mobj) r i := by
  have hok := h.space.ok r hr
  have hps : smallPageSize = 4096 := rfl
  have hlt : r.va + i < 2 ^ cfg.bits := by
    have := hok.endVa_lt
    rw [VmRegion.endVa] at this
    omega
  have hfind := (h.space.userRegion_eq_some_iff hlt).2 ⟨hr, Nat.le_add_right ..,
    by rw [VmRegion.endVa]; omega⟩
  have hgran : max (back r.mobj).physGranule smallPageSize = smallPageSize := by
    cases back r.mobj <;> rfl
  have hle : i / smallPageSize * smallPageSize ≤ i := Nat.div_mul_le_self ..
  have hoff := hok.offset_lt
  have hlow : (r.va + i) % smallPageSize = i % smallPageSize := by
    have := hok.va
    rw [PageAligned] at this
    rw [Nat.add_mod, this, Nat.zero_add, Nat.mod_mod]
  simp only [vmVa2pa, hfind, hgran, byteAt, Nat.add_sub_cancel_left, hlow]
  rw [Nat.mod_eq_of_lt (by omega)]
  cases hget : mobjGetPa cfg r.mobj (r.offset + i / smallPageSize * smallPageSize) smallPageSize
    (back r.mobj) with
  | error e => rfl
  | ok p => exact congrArg Except.ok (or_low (page_of_getPa hget).1 i)

/-! ### Parts of a region -/

namespace Part

theorem inside (hr : RegionOk cfg r) (h : Part cfg bk r pos len p) :
    0 < len ∧ pos + len ≤ r.size := by
  have hsize := hr.size
  have hps : smallPageSize = 4096 := rfl
  rw [PageAligned, hps] at hsize
  cases bk with
  | phys x =>
    obtain ⟨hlt, rfl, rfl, -⟩ := h
    omega
  | shm | withFobj =>
    obtain ⟨hlt, -, rfl, -⟩ := h
    rw [hps]
    omega

/-- The bytes of a part have its addresses if it is level, and else none of them has. -/
theorem byteAt_eq (hphys : ∀ x, bk = .phys x → PageAligned x) (h : Part cfg bk r pos len p)
    (hi : i < len) (hlow : p + i < 2 ^ cfg.bits) :
    byteAt cfg bk r (pos + i) = .ok (p + i) ↔ Level pos p := by
  have hps : smallPageSize = 4096 := rfl
  constructor
  · intro hbyte
    obtain ⟨page, hget, heq⟩ := exists_page_of_byteAt hbyte
    have hal := (page_of_getPa hget).1
    rw [PageAligned, hps] at hal
    rw [Level]
    rw [hps] at heq ⊢
    omega
  · intro hlevel
    cases bk with
    | phys x =>
      obtain ⟨-, rfl, -, rfl⟩ := h
      have hal := hphys x rfl
      have hoff : PageAligned r.offset := by
        rw [Level, hps] at hlevel
        rw [PageAligned, hps] at hal ⊢
        omega
      rw [Nat.zero_add]
      exact byteAt_phys hal hoff hlow
    | shm | withFobj =>
      obtain ⟨-, -, rfl, hget⟩ := h
      have hpos : PageAligned pos := hlevel.symm.trans (page_of_getPa hget).1
      exact byteAt_page hpos hget (by omega)

/-- No part of a region that is not level is inside one that is. -/
theorem level_of_inside (h : Part cfg bk r pos len p) (h' : Part cfg bk r pos' len' p')
    (hlevel : Level pos' p') (hle : len ≤ len') : Level pos p := by
  have hps : smallPageSize = 4096 := rfl
  cases bk with
  | phys x =>
    obtain ⟨-, rfl, -, rfl⟩ := h
    obtain ⟨-, rfl, -, rfl⟩ := h'
    exact hlevel
  | shm | withFobj =>
    obtain ⟨-, hpos, hlen, hget⟩ := h
    obtain ⟨-, hpos', hlen', hget'⟩ := h'
    have hal := (page_of_getPa hget).1
    have hal' := (page_of_getPa hget').1
    simp only [Level, PageAligned, hps] at *
    omega

end Part

/-! ### `vm_pa2va` -/

/-- The loop finds a buffer in a part that it lies in. -/
def FoundIn (cfg : Config) (bk : Backing) (r : VmRegion) (pa n v : ℕ) : Prop :=
  ∃ pos len p, Part cfg bk r pos len p ∧ 0 < n ∧ p ≤ pa ∧ pa + n ≤ p + len ∧
    v = r.va + (pos + (pa - p))

section Granules

variable (hg : bk.physGranule = smallPageSize) (hr : RegionOk cfg r) (hpa : pa < 2 ^ cfg.paddrBits)
  (hn : n < 2 ^ cfg.bits)
include hg hr hpa hn

theorem scanRegion_page (fuel : ℕ) (hlt : r.offset + pos < r.size) :
    scanRegion cfg bk r pa n (fuel + 1) (r.offset + pos)
      = match mobjGetPa cfg r.mobj (r.offset + pos) smallPageSize bk with
        | .error _ => scanRegion cfg bk r pa n fuel
            (r.offset + (pos + (smallPageSize - (r.offset + pos) % smallPageSize)))
        | .ok p =>
          if 0 < n ∧ p ≤ pa ∧ pa + n ≤ p + (smallPageSize - (r.offset + pos) % smallPageSize) then
            some (r.va + (pos + (pa - p)))
          else scanRegion cfg bk r pa n fuel
            (r.offset + (pos + (smallPageSize - (r.offset + pos) % smallPageSize))) := by
  have hps : smallPageSize = 4096 := rfl
  have hsize := hr.size
  rw [PageAligned] at hsize
  have hmin : min (smallPageSize - (r.offset + pos) % smallPageSize) (r.size - (r.offset + pos))
      = smallPageSize - (r.offset + pos) % smallPageSize := by
    rw [hps] at hsize ⊢
    omega
  rw [scanRegion, if_pos hlt]
  simp only [hg, if_neg (show smallPageSize ≠ 0 by decide), hmin, Nat.add_assoc]
  cases hget : mobjGetPa cfg r.mobj (r.offset + pos) smallPageSize bk with
  | error e => rfl
  | ok p =>
    dsimp only
    have hfits := (page_of_getPa hget).2
    have hbits := cfg.pow_bits_le
    have hiff :
      coreIsBufferInside cfg pa n p (smallPageSize - (r.offset + pos) % smallPageSize) = true ↔
        0 < n ∧ p ≤ pa ∧ pa + n ≤ p + (smallPageSize - (r.offset + pos) % smallPageSize) := by
      have hpos : 0 < smallPageSize - (r.offset + pos) % smallPageSize :=
        Nat.sub_pos_of_lt (Nat.mod_lt _ (by decide))
      rw [coreIsBufferInside_iff hpa (hn.le.trans hbits) (by omega)]
      omega
    simp only [hiff, Nat.add_sub_cancel_left]

variable (hpart : ∀ {pos len p}, Part cfg bk r pos len p ↔ r.offset + pos < r.size ∧
  (pos = 0 ∨ PageAligned (r.offset + pos)) ∧
  len = smallPageSize - (r.offset + pos) % smallPageSize ∧
  mobjGetPa cfg r.mobj (r.offset + pos) smallPageSize bk = .ok p)
include hpart

theorem foundIn_of_scanRegion : ∀ (fuel pos : ℕ), (pos = 0 ∨ PageAligned (r.offset + pos)) →
    scanRegion cfg bk r pa n fuel (r.offset + pos) = some v → FoundIn cfg bk r pa n v
  | 0, _, _, h => by cases h
  | fuel + 1, pos, hpos, h => by
    by_cases hlt : r.offset + pos < r.size
    swap
    · rw [scanRegion, if_neg hlt] at h
      cases h
    have hnext :
        PageAligned (r.offset + (pos + (smallPageSize - (r.offset + pos) % smallPageSize))) := by
      have hps : smallPageSize = 4096 := rfl
      rw [PageAligned, hps]
      omega
    rw [scanRegion_page hg hr hpa hn fuel hlt] at h
    split at h
    · exact foundIn_of_scanRegion _ _ (.inr hnext) h
    next p hget =>
      split_ifs at h with hin
      · cases h
        exact ⟨pos, _, p, hpart.2 ⟨hlt, hpos, rfl, hget⟩, hin.1, hin.2.1, hin.2.2, rfl⟩
      · exact foundIn_of_scanRegion _ _ (.inr hnext) h

theorem scanRegion_isSome (h : Part cfg bk r pos' len' p') (hn0 : 0 < n) (hlo : p' ≤ pa)
    (hhi : pa + n ≤ p' + len') : ∀ (fuel pos : ℕ), pos ≤ pos' → r.size < fuel + (r.offset + pos) →
      (scanRegion cfg bk r pa n fuel (r.offset + pos)).isSome
  | 0, _, hle, hfuel => by
    have := (hpart.1 h).1
    omega
  | fuel + 1, pos, hle, hfuel => by
    obtain ⟨hlt', hpos', hlen, hget'⟩ := hpart.1 h
    rw [scanRegion_page hg hr hpa hn fuel (by omega)]
    rcases hle.eq_or_lt with heq | hlt
    · rw [heq, hget']
      dsimp only
      rw [← hlen, if_pos ⟨hn0, hlo, hhi⟩]
      rfl
    have hps : smallPageSize = 4096 := rfl
    have hrec := scanRegion_isSome h hn0 hlo hhi fuel
      (pos + (smallPageSize - (r.offset + pos) % smallPageSize))
      (by simp only [PageAligned, hps] at *; omega) (by rw [hps]; omega)
    split
    · exact hrec
    · split_ifs
      · rfl
      · exact hrec

end Granules

theorem scanRegion_phys (hr : RegionOk cfg r)
    (hend : x + roundup smallPageSize r.mobj.size ≤ 2 ^ cfg.paddrBits)
    (hpa : pa < 2 ^ cfg.paddrBits) (hn : n < 2 ^ cfg.bits) :
    scanRegion cfg (.phys x) r pa n (r.size + 1) r.offset
      = if r.offset < r.size ∧ 0 < n ∧ x + r.offset ≤ pa ∧ pa + n ≤ x + r.offset + r.size then
          some (r.va + (pa - (x + r.offset))) else none := by
  have hin := hr.inside_mobj
  have hbits := cfg.pow_bits_le
  rw [scanRegion]
  by_cases hlt : r.offset < r.size
  swap
  · rw [if_neg hlt, if_neg (by simp [hlt])]
  have hget : mobjGetPa cfg r.mobj r.offset 0 (.phys x) = .ok (x + r.offset) := by
    rw [mobjGetPa, Nat.mod_eq_of_lt (by omega)]
    rfl
  have hdone : scanRegion cfg (.phys x) r pa n r.size (r.offset + r.size) = none := by
    cases hsize : r.size with
    | zero => rfl
    | succ k => rw [scanRegion, if_neg (by omega)]
  have hiff : coreIsBufferInside cfg pa n (x + r.offset) r.size = true ↔
      0 < n ∧ x + r.offset ≤ pa ∧ pa + n ≤ x + r.offset + r.size := by
    rw [coreIsBufferInside_iff hpa (hn.le.trans hbits) (by omega)]
    omega
  simp only [hlt, true_and, if_true, Backing.physGranule, hget, hiff, hdone, Nat.sub_self,
    Nat.add_zero]

namespace Backed

variable (h : Backed cfg back s)
include h

/-- The loop over a region finds a buffer if and only if it lies in a part. -/
theorem scanRegion_spec (hr : r ∈ s.regions) (hpa : pa < 2 ^ cfg.paddrBits)
    (hn : n < 2 ^ cfg.bits) :
    (∀ v, scanRegion cfg (back r.mobj) r pa n (r.size + 1) r.offset = some v →
        FoundIn cfg (back r.mobj) r pa n v) ∧
      ∀ pos len p, Part cfg (back r.mobj) r pos len p → 0 < n → p ≤ pa → pa + n ≤ p + len →
        (scanRegion cfg (back r.mobj) r pa n (r.size + 1) r.offset).isSome := by
  have hok := h.space.ok r hr
  cases hbk : back r.mobj with
  | phys x =>
    rw [scanRegion_phys hok (h.phys r hr x hbk).2 hpa hn]
    constructor
    · intro v hv
      split_ifs at hv with hin
      cases hv
      exact ⟨0, r.size, _, ⟨hin.1, rfl, rfl, rfl⟩, hin.2.1, hin.2.2.1, hin.2.2.2,
        by rw [Nat.zero_add]⟩
    · rintro pos len p ⟨hlt, rfl, rfl, rfl⟩ hn0 hlo hhi
      rw [if_pos ⟨hlt, hn0, hlo, hhi⟩]
      rfl
  | shm | withFobj =>
    exact ⟨fun v => foundIn_of_scanRegion rfl hok hpa hn Iff.rfl _ 0 (.inl rfl),
      fun pos len p hp hn0 hlo hhi => scanRegion_isSome rfl hok hpa hn Iff.rfl hp hn0 hlo hhi _ 0
        (Nat.zero_le _) (by omega)⟩

theorem aligned (hr : r ∈ s.regions) : ∀ x, back r.mobj = .phys x → PageAligned x :=
  fun x hx => (h.phys r hr x hx).1

theorem part_lt (hr : r ∈ s.regions) (hp : Part cfg (back r.mobj) r pos len p) :
    p + len ≤ 2 ^ cfg.paddrBits ∧ len < 2 ^ cfg.bits := by
  have hok := h.space.ok r hr
  have hin := hok.inside_mobj
  have hlt := hok.offset_lt
  have hlen := (hp.inside hok).2
  cases hbk : back r.mobj with
  | phys x =>
    have hend := (h.phys r hr x hbk).2
    rw [hbk] at hp
    obtain ⟨-, rfl, rfl, rfl⟩ := hp
    omega
  | shm | withFobj =>
    rw [hbk] at hp
    obtain ⟨-, -, rfl, hget⟩ := hp
    have := (page_of_getPa hget).2
    have := cfg.pow_bits_le
    omega

theorem exists_of_va2pa (hua : ua < 2 ^ cfg.bits) (hpa : vmVa2pa cfg back s ua = .ok pa) :
    ∃ r ∈ s.regions, ∃ i < r.size, ua = r.va + i ∧ byteAt cfg (back r.mobj) r i = .ok pa := by
  obtain ⟨r, hfind⟩ : ∃ r, userRegion cfg s ua = some r := by
    rw [vmVa2pa] at hpa
    split at hpa
    · cases hpa
    · exact ⟨_, by assumption⟩
  obtain ⟨hr, hlo, hhi⟩ := (h.space.userRegion_eq_some_iff hua).1 hfind
  obtain ⟨i, rfl⟩ := Nat.exists_eq_add_of_le hlo
  have hi : i < r.size := Nat.lt_of_add_lt_add_left hhi
  exact ⟨r, hr, i, hi, rfl, (h.va2pa_eq hr hi).symm.trans hpa⟩

/-- What is found is in a part of the first region that has one. -/
theorem pa2va_eq_some (hpa : pa < 2 ^ cfg.paddrBits) (hn : n < 2 ^ cfg.bits)
    (hv : vmPa2va cfg back s pa n = some v) :
    ∃ r ∈ s.regions, FoundIn cfg (back r.mobj) r pa n v ∧
      ∀ q ∈ s.regions, ∀ pos len p, Part cfg (back q.mobj) q pos len p → p ≤ pa → pa + n ≤ p + len →
        q = r ∨ r.va < q.va := by
  obtain ⟨l₁, r, l₂, heq, hscan, hnone⟩ := List.findSome?_eq_some_iff.1 hv
  have hr : r ∈ s.regions := by simp [heq]
  have hfound := (h.scanRegion_spec hr hpa hn).1 v hscan
  refine ⟨r, hr, hfound, fun q hq pos len p hp hlo hhi => ?_⟩
  obtain ⟨pos', len', p', hp', hn0, -⟩ := hfound
  have hmem := hq
  rw [heq, List.mem_append, List.mem_cons] at hmem
  obtain hq₁ | rfl | hq₂ := hmem
  · have hsome := (h.scanRegion_spec hq hpa hn).2 pos len p hp hn0 hlo hhi
    rw [hnone q hq₁] at hsome
    cases hsome
  · exact .inl rfl
  · have hapart := h.space.apart
    rw [heq] at hapart
    have hle : r.endVa ≤ q.va := (List.pairwise_cons.1 (List.pairwise_append.1 hapart).2.1).1 q hq₂
    have := hp'.inside (h.space.ok r hr)
    rw [VmRegion.endVa] at hle
    exact .inr (by omega)

theorem pa2va_isSome (hr : r ∈ s.regions) (hp : Part cfg (back r.mobj) r pos len p) (hn0 : 0 < n)
    (hlo : p ≤ pa) (hhi : pa + n ≤ p + len) : ∃ v, vmPa2va cfg back s pa n = some v := by
  have hlt := h.part_lt hr hp
  exact Option.isSome_iff_exists.1 (List.findSome?_isSome_iff.2 ⟨r, hr,
    (h.scanRegion_spec hr (by omega) (by omega)).2 pos len p hp hn0 hlo hhi⟩)

end Backed

/-! ### Round trips -/

/-- The physical address of a user address is found again, at a user address that has it. -/
def RoundTrip (cfg : Config) (back : Mobj → Backing) (s : VmInfo) : Prop :=
  ∀ ua < 2 ^ cfg.bits, ∀ pa, vmVa2pa cfg back s ua = .ok pa →
    ∃ v, vmPa2va cfg back s pa 1 = some v ∧ vmVa2pa cfg back s v = .ok pa

/-- The user addresses that are found for a buffer have its physical addresses. -/
def RightInverse (cfg : Config) (back : Mobj → Backing) (s : VmInfo) : Prop :=
  ∀ pa < 2 ^ cfg.paddrBits, ∀ n < 2 ^ cfg.bits, ∀ v, vmPa2va cfg back s pa n = some v →
    ∀ k < n, vmVa2pa cfg back s (v + k) = .ok (pa + k)

/-- Each physical byte of a region lies in a part, of this region or another one. -/
def InParts (cfg : Config) (back : Mobj → Backing) (s : VmInfo) : Prop :=
  ∀ r ∈ s.regions, ∀ i < r.size, ∀ pa, byteAt cfg (back r.mobj) r i = .ok pa →
    ∃ q ∈ s.regions, ∃ pos len p, Part cfg (back q.mobj) q pos len p ∧ p ≤ pa ∧ pa < p + len

/-- A part has addresses of the width of `size_t`, and is level or lies in one that is, of a region
at lower addresses. -/
structure InPlace (cfg : Config) (back : Mobj → Backing) (s : VmInfo) (r : VmRegion)
    (pos len p : ℕ) :
    Prop where
  low : p + len ≤ 2 ^ cfg.bits
  level : Level pos p ∨ ∃ q ∈ s.regions, q.va < r.va ∧ ∃ pos' len' p',
    Part cfg (back q.mobj) q pos' len' p' ∧ Level pos' p' ∧ p' ≤ p ∧ p + len ≤ p' + len'

theorem rightInverse_iff (h : Backed cfg back s) :
    RightInverse cfg back s ↔
    ∀ r ∈ s.regions, ∀ pos len p, Part cfg (back r.mobj) r pos len p →
      InPlace cfg back s r pos len p := by
  have hone : 1 < 2 ^ cfg.bits := Nat.one_lt_two_pow (by have := cfg.page_lt; omega)
  -- the bytes of what is found, by position in its part
  have hbyte : ∀ {q pos' len' p' pa k}, q ∈ s.regions → Part cfg (back q.mobj) q pos' len' p'
    → p' ≤ pa →
      pa + k < p' + len' →
      vmVa2pa cfg back s (q.va + (pos' + (pa - p')) + k)
        = byteAt cfg (back q.mobj) q (pos' + (pa + k - p')) := by
    intro q pos' len' p' pa k hq hp hlo hhi
    have := (hp.inside (h.space.ok q hq)).2
    rw [← h.va2pa_eq hq (by omega)]
    congr 1
    omega
  constructor
  · intro hinv r hr pos len p hp
    have hlt := h.part_lt hr hp
    have hlen := (hp.inside (h.space.ok r hr)).1
    have hlow : p + len ≤ 2 ^ cfg.bits := by
      -- the last byte of the part is found, at an address of that width
      have hpa : p + (len - 1) < 2 ^ cfg.paddrBits := by omega
      obtain ⟨v, hv⟩ := h.pa2va_isSome hr hp Nat.one_pos
        (Nat.le_add_right p (len - 1)) (by omega)
      obtain ⟨q, hq, ⟨pos', len', p', hp', -, hlo, hhi, rfl⟩, -⟩ := h.pa2va_eq_some hpa hone hv
      have hback := hinv _ hpa 1 hone _ hv 0 Nat.one_pos
      rw [hbyte hq hp' hlo hhi] at hback
      have := byteAt_lt hback
      omega
    refine ⟨hlow, or_iff_not_imp_left.2 fun hnot => ?_⟩
    have hpa : p < 2 ^ cfg.paddrBits := by omega
    obtain ⟨v, hv⟩ := h.pa2va_isSome hr hp hlen le_rfl le_rfl
    obtain ⟨q, hq, ⟨pos', len', p', hp', -, hlo, hhi, rfl⟩, hfirst⟩ := h.pa2va_eq_some hpa hlt.2 hv
    have hback := hinv _ hpa len hlt.2 _ hv 0 hlen
    rw [hbyte hq hp' hlo (by omega), Nat.add_zero] at hback
    have hlevel : Level pos' p' := by
      refine (hp'.byteAt_eq (h.aligned hq) (i := p - p') (by omega) (by omega)).1 ?_
      rwa [Nat.add_sub_cancel' hlo]
    rcases hfirst r hr pos len p hp le_rfl le_rfl with rfl | hva
    · exact absurd (hp.level_of_inside hp' hlevel (by omega)) hnot
    · exact ⟨q, hq, hva, pos', len', p', hp', hlevel, hlo, hhi⟩
  · intro hplace pa hpa n hn v hv k hk
    obtain ⟨r, hr, ⟨pos, len, p, hp, hn0, hlo, hhi, rfl⟩, hfirst⟩ := h.pa2va_eq_some hpa hn hv
    obtain ⟨hlow, hlevel | ⟨q, hq, hva, pos', len', p', hp', -, hlo', hhi'⟩⟩ :=
      hplace r hr pos len p hp
    · rw [hbyte hr hp hlo (by omega),
        (hp.byteAt_eq (h.aligned hr) (show pa + k - p < len by omega) (by omega)).2 hlevel]
      exact congrArg Except.ok (by omega)
    · rcases hfirst q hq pos' len' p' hp' (by omega) (by omega) with rfl | hlt <;> omega

/-- Translation goes both ways if and only if each byte is in a part that is looked at, and these
parts are in place. -/
theorem roundTrip_iff (cfg : Config) (back : Mobj → Backing) (s : VmInfo) (h : Backed cfg back s) :
    (RoundTrip cfg back s ∧ RightInverse cfg back s) ↔
      InParts cfg back s ∧ ∀ r ∈ s.regions, ∀ pos len p, Part cfg (back r.mobj) r pos len p →
        InPlace cfg back s r pos len p := by
  rw [← rightInverse_iff h]
  refine and_congr_left fun hinv =>
    ⟨fun htrip r hr i hi pa hbyte => ?_, fun hparts ua hua pa hpa => ?_⟩
  all_goals
    have hone : 1 < 2 ^ cfg.bits := Nat.one_lt_two_pow (by have := cfg.page_lt; omega)
    have hbits := cfg.pow_bits_le
  · have hua : r.va + i < 2 ^ cfg.bits := by
      have := (h.space.ok r hr).endVa_lt
      rw [VmRegion.endVa] at this
      omega
    obtain ⟨v, hv, -⟩ := htrip _ hua pa ((h.va2pa_eq hr hi).trans hbyte)
    obtain ⟨q, hq, ⟨pos, len, p, hp, -, hlo, hhi, -⟩, -⟩ :=
      h.pa2va_eq_some ((byteAt_lt hbyte).trans_le hbits) hone hv
    exact ⟨q, hq, pos, len, p, hp, hlo, hhi⟩
  · obtain ⟨r, hr, i, hi, rfl, hbyte⟩ := h.exists_of_va2pa hua hpa
    obtain ⟨q, hq, pos, len, p, hp, hlo, hhi⟩ := hparts r hr i hi pa hbyte
    obtain ⟨v, hv⟩ := h.pa2va_isSome hq hp Nat.one_pos hlo hhi
    exact ⟨v, hv,
      by simpa using hinv pa ((byteAt_lt hbyte).trans_le hbits) 1 hone v hv 0 Nat.one_pos⟩

def dram (_ : Mobj) : Backing := .phys (2 ^ 31)

theorem roundTrip_twoPages :
    step lpaeConfig VmInfo.empty (mapTwo 0 .none) = .ok twoPages
      ∧ RoundTrip lpaeConfig dram twoPages := by
  have honly : ∀ r ∈ twoPages.regions, r.offset = 0 ∧ r.mobj = mobj16
      ∧ r.size = 2 * smallPageSize := by
    decide
  have hback : Backed lpaeConfig dram twoPages := by
    refine ⟨twoPages_ok, fun r hr pa hpa => ?_⟩
    cases hpa
    rw [(honly r hr).2.1]
    decide
  refine ⟨by decide +kernel, ((roundTrip_iff _ _ _ hback).2
    ⟨fun r hr i hi pa hbyte => ?_, fun r hr pos len p hp => ?_⟩).1⟩
  · obtain ⟨hoff, -, hsize⟩ := honly r hr
    rw [dram, byteAt_phys (by decide) (by rw [hoff]; rfl) (by
      rw [hoff]
      rw [hsize] at hi
      exact lt_trans (Nat.add_lt_add_left hi _) (by decide))] at hbyte
    cases hbyte
    exact ⟨r, hr, 0, r.size, _, ⟨by rw [hoff, hsize]; decide, rfl, rfl, rfl⟩, Nat.le_add_right ..,
      Nat.add_lt_add_left hi _⟩
  · obtain ⟨hoff, -, hsize⟩ := honly r hr
    obtain ⟨-, rfl, rfl, rfl⟩ := hp
    rw [hoff, hsize]
    exact ⟨by decide, .inl rfl⟩

/-- Two pages of one memory object in two regions. -/
def splitPages : VmInfo :=
  ⟨[⟨mobj16, 0, 2 ^ 30, smallPageSize, ⟨0, true, .urw⟩, .none⟩,
    ⟨mobj16, smallPageSize, 2 ^ 30 + smallPageSize, smallPageSize, ⟨0, true, .prw⟩, .none⟩], true⟩

/-- The second part of a region that was split is not found. -/
theorem roundTrip_lost_split :
    exec (step lpaeConfig) VmInfo.empty
        [mapTwo 0 .none, .setProt Env.good (2 ^ 30) smallPageSize (some Prot.urw)]
          = .ok splitPages ∧
      vmVa2pa lpaeConfig dram splitPages (2 ^ 30 + smallPageSize) = .ok (2 ^ 31 + smallPageSize) ∧
      vmPa2va lpaeConfig dram splitPages (2 ^ 31 + smallPageSize) 1 = none := by
  refine ⟨?_, ?_, ?_⟩ <;> decide +kernel

end Optee.Vm
