import Optee.Proofs.VmSplit

/-!
# Mapping, protecting and unmapping

What `vm_map_pad`, `vm_set_prot`, `vm_unmap` and `vm_clean_param` do to the pages, when they succeed
and when they do not.
-/

namespace Optee.Vm

open Segments

variable {cfg : Config} {env : Env} {s s' : VmInfo} {r q : VmRegion}
  {l l' l₁ l₂ below mid above : List VmRegion} {a b va endVa len offs padBegin padEnd align x : ℕ}
  {prot : Option Prot} {p : Prot} {flags : VmFlags} {mobj : Mobj} {P : List VmRegion → Prop}
  {A : VmRegion → Prop}

/-! ### `vm_map_pad` -/

/-- The region that `vm_map_pad` asks for. -/
def newRegion (cfg : Config) (va len : ℕ) (p : Prot) (flags : VmFlags) (mobj : Mobj)
    (offs memType : ℕ) : VmRegion :=
  { mobj, offset := offs, va, size := wrapRoundup cfg.bits smallPageSize len,
    attr := ⟨memType, mobj.secure, p⟩, flags }

theorem vmMapPad_cases {res : TeeResult ℕ}
    (h : vmMapPad cfg env s va len prot flags mobj offs padBegin padEnd align = .ok (s', res)) :
    (s' = s ∧ ∃ e, res = .error e) ∨
    ∃ p memType l₁ r l₂, prot = some p ∧ s.regions = l₁ ++ l₂ ∧ s' = ⟨l₁ ++ r :: l₂, s.tail⟩ ∧
      res = .ok r.va ∧
      Placed cfg (newRegion cfg va len p flags mobj offs memType) padBegin align r l₁ l₂ := by
  have hnone : ∀ {e : TeeError}, (.ok (s, .error e) : Except Fault (Reply ℕ)) = .ok (s', res) →
      s' = s ∧ ∃ e, res = .error e := by
    intro e he
    cases he
    exact ⟨rfl, _, rfl⟩
  unfold vmMapPad at h
  cases prot with
  | none => exact .inl (hnone h)
  | some p =>
    simp only [] at h
    by_cases hmem : (!env.mem 0) = true
    · rw [if_pos hmem] at h
      exact .inl (hnone h)
    rw [if_neg hmem] at h
    split at h
    · exact .inl (hnone h)
    next memType _ =>
      obtain ⟨o, hu, h⟩ := bind_eq_ok.1 h
      rcases o with err | ⟨l₁, r, l₂⟩
      · exact .inl (hnone h)
      simp only [] at h
      by_cases hpgt : (!env.pgt 0) = true
      · rw [if_pos hpgt] at h
        exact .inl (hnone h)
      rw [if_neg hpgt] at h
      split at h
      · exact .inl (hnone h)
      · cases h
        obtain ⟨hl, hp, -⟩ := umapAddRegion_ok hu
        exact .inr ⟨p, memType, l₁, r, l₂, rfl, hl, rfl, rfl, hp⟩

/-- The memory has a type, and the region has a place. -/
def CanMap (cfg : Config) (s : VmInfo) (va len : ℕ) (p : Prot) (flags : VmFlags) (mobj : Mobj)
    (offs padBegin padEnd align : ℕ) : Prop :=
  ∃ memType ∈ (if mobj.paged then some 0 else mobj.memType),
    HasPlace cfg s (newRegion cfg va len p flags mobj offs memType) padBegin padEnd align

theorem vmMapPad_tail (ht : s.tail = true) :
    ∃ x, vmMapPad cfg env s va len (some p) flags mobj offs padBegin padEnd align = .ok x ∧
      (x.2.toBool = true → CanMap cfg s va len p flags mobj offs padBegin padEnd align) ∧
      (CanMap cfg s va len p flags mobj offs padBegin padEnd align → env = Env.good →
        x.2.toBool = true) := by
  unfold vmMapPad CanMap
  simp only []
  by_cases hmem : (!env.mem 0) = true
  · rw [if_pos hmem]
    exact ⟨_, rfl, by simp [Except.toBool], by rintro - rfl; simp [Env.good] at hmem⟩
  rw [if_neg hmem]
  split
  next hnone => exact ⟨_, rfl, by simp [Except.toBool], by simp [hnone]⟩
  next memType hsome =>
    obtain ⟨o, ho, hiff⟩ := umapAddRegion_tail cfg (newRegion cfg va len p flags mobj offs memType)
      padBegin padEnd align ht
    simp only [hsome, Option.mem_some_iff, exists_eq_left', ← hiff]
    rw [newRegion] at ho
    rw [ho]
    rcases o with err | ⟨l₁, r, l₂⟩
    · exact ⟨_, rfl, id, fun h _ => h⟩
    change ∃ x, (if (!env.pgt 0) = true then _ else _) = _ ∧ _
    by_cases hpgt : (!env.pgt 0) = true
    · rw [if_pos hpgt]
      exact ⟨_, rfl, fun _ => rfl, by rintro - rfl; simp [Env.good] at hpgt⟩
    rw [if_neg hpgt]
    split
    next err hpager =>
      refine ⟨_, rfl, fun _ => rfl, ?_⟩
      rintro - rfl
      simp [Env.good] at hpager
    · exact ⟨_, rfl, fun _ => rfl, fun _ _ => rfl⟩

/-! ### `vm_unmap` -/

theorem vmUnmap_region (env : Env) (hok : SpaceOk cfg s.regions) (hl : s.regions = l₁ ++ r :: l₂)
    (hpos : 0 < r.size) :
    vmUnmap cfg env s r.va r.size = .ok (⟨l₁ ++ l₂, s.tail || l₂.isEmpty⟩, .ok ()) := by
  have hr := hok.ok r (by simp [hl])
  have hrange := cfg.range_lt
  have hend := hr.end_le
  have hva : smallPageSize ≤ r.va := Nat.le_of_dvd hr.pos (PageAligned.iff_dvd.1 hr.va)
  have hpage : smallPageSize = 4096 := rfl
  rw [VmRegion.endVa] at hend
  have hfind : ∀ x, r.va ≤ x → x < r.endVa →
      findVmRegion s.regions x = some (l₁, r, l₂) := fun x h₁ h₂ =>
    hl ▸ findVmRegion_middle (hl ▸ hok.apart) h₁ h₂
  have hsplit : splitVmRange cfg env s r.va r.size cmpNull = (s, .ok l₁.length) := by
    have hcontiguous : vaRangeIsContiguous cfg cmpNull r l₂ r.va r.size = true :=
      vaRangeIsContiguous_iff.2 ⟨by omega, by cases l₂ <;> simp [contiguousLoop, VmRegion.endVa]⟩
    rw [splitVmRange, if_neg (not_not.2 ⟨hr.va, hr.size⟩), addOverflow, if_pos (by omega)]
    simp only [hfind r.va le_rfl (by rw [VmRegion.endVa]; omega), hcontiguous, ne_eq,
      not_true_eq_false,
      if_false, Bool.not_true, Bool.false_eq_true,
      hfind (r.va + r.size - 1) (by omega) (by rw [VmRegion.endVa]; omega), VmRegion.endVa]
  have hround : roundup smallPageSize r.size = r.size :=
    roundup_of_dvd (by decide) (PageAligned.iff_dvd.1 hr.size)
  rw [vmUnmap, roundupOverflow, if_pos (by omega), hround]
  simp only [hsplit]
  rw [if_neg (by rintro (h | h); exacts [hpos.ne' h, h hr.va]), addOverflow, if_pos (by omega)]
  simp only [hl, List.drop_left, List.take_left, unmapLoop, VmRegion.endVa, if_true]

/-- A 32 bit core with LPAE. -/
def lpaeConfig : Config where
  bits := 32
  paddrBits := 64
  lpae := true
  pgdirSize := 2 ^ 21
  base := 2 ^ 30
  size := 2 ^ 30
  page_dvd_pgdirSize := by decide
  pgdirSize_pos := by decide
  page_dvd_base := by decide
  range_lt := by decide
  page_lt := by decide
  bits_le := by decide

/-- Unmapping what was just mapped restores the address space, wherever the region was put. -/
theorem unmap_undoes_map (env env' : Env) (hok : SpaceOk cfg s.regions) (htail : s.tail = true)
    (hlen : 0 < len) (hfits : len + (smallPageSize - 1) < 2 ^ cfg.bits)
    (hmap : vmMapPad cfg env s va len prot flags mobj offs padBegin padEnd align
      = .ok (s', .ok a)) :
    vmUnmap cfg env' s' a len = .ok (s, .ok ()) := by
  obtain ⟨-, e, he⟩ | ⟨p, memType, l₁, r, l₂, -, hl, rfl, ha, hp⟩ := vmMapPad_cases hmap
  · cases he
  cases ha
  have hr := hp.regionOk (hl ▸ hok)
  have hsize : r.size = roundup smallPageSize len := by
    rw [hp.same, newRegion, wrapRoundup, Nat.mod_eq_of_lt hfits, roundup]
  have hpos : 0 < r.size := hlen.trans_le (hsize ▸ le_roundup (by decide))
  -- `vm_unmap` rounds up the length once more
  have hround : roundupOverflow cfg.bits len smallPageSize
      = roundupOverflow cfg.bits r.size smallPageSize := by
    have hva : smallPageSize ≤ r.va := Nat.le_of_dvd hr.pos (PageAligned.iff_dvd.1 hr.va)
    have hend := hr.end_le
    have hrange := cfg.range_lt
    rw [VmRegion.endVa] at hend
    rw [roundupOverflow, roundupOverflow, if_pos hfits, if_pos (by omega), ← hsize,
      roundup_of_dvd (by decide) (PageAligned.iff_dvd.1 hr.size)]
  have hunmap := vmUnmap_region (s := ⟨l₁ ++ r :: l₂, s.tail⟩) env' (hp.spaceOk (hl ▸ hok)) rfl hpos
  rw [vmUnmap, ← hround, ← vmUnmap] at hunmap
  rw [hunmap, ← hl, htail, Bool.true_or, ← htail]

theorem unmap_undoes_map_byte : ∃ s', (∃ r, s'.regions = [r]) ∧
    vmUnmap lpaeConfig Env.good s' (2 ^ 30) 1 = .ok (.empty, .ok ()) := by
  have hmap : vmMapPad lpaeConfig Env.good .empty 0 1 (some .prw) .none ⟨0, 2 ^ 13, false, true,
    some 1, 0⟩ 0 0 0 0
      = .ok (⟨[⟨⟨0, 2 ^ 13, false, true, some 1, 0⟩, 0, 2 ^ 30, smallPageSize, ⟨1, true, .prw⟩,
        .none⟩], true⟩, .ok (2 ^ 30)) := by decide +kernel
  exact ⟨_, ⟨_, rfl⟩, unmap_undoes_map Env.good Env.good SpaceOk.nil rfl (by decide)
    (by decide) hmap⟩

end Optee.Vm
