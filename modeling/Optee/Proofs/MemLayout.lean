import Mathlib.Order.Basic
import Mathlib.Tactic.Common
import Optee.MemLayout
import Optee.Result

/-!
# The virtual layout of the core

`assign_mem_va_dir` gives each entry an address beyond a cursor that moves away from the RAM of the
core, up or down. What is said about either loop is said once (`placeOthers_placed`,
`placeOthers_separate`).
-/

namespace Optee.MemMap

variable {cfg : LayoutConfig} {e f map : TeeMmapRegion} {l l' maps : List TeeMmapRegion}
  {c c' : Cursor} {va va' x y z g pa n : ℕ} {sec : Bool}

/-- The first address behind an entry. -/
def TeeMmapRegion.endVa (e : TeeMmapRegion) : ℕ := e.va + e.size

/-- The entry is of secure memory. -/
def mapIsSecure (cfg : LayoutConfig) (e : TeeMmapRegion) : Bool :=
  (coreMmuTypeToAttr cfg.extDtSecure e.type).any MapAttr.secure

/-- No page directory has addresses of both entries. -/
def PgdirsApart (cfg : LayoutConfig) (e f : TeeMmapRegion) : Prop :=
  ∀ x y, e.va ≤ x → x < e.endVa → f.va ≤ y → y < f.endVa → x / cfg.pgdirSize ≠ y / cfg.pgdirSize

/-- Entries do not overlap and, without LPAE, those of two worlds share no page directory. -/
def Separate (cfg : LayoutConfig) (e f : TeeMmapRegion) : Prop :=
  (e.endVa ≤ f.va ∨ f.endVa ≤ e.va) ∧
    (cfg.lpae = false → mapIsSecure cfg e ≠ mapIsSecure cfg f → PgdirsApart cfg e f)

theorem Separate.symm (h : Separate cfg e f) : Separate cfg f e :=
  ⟨h.1.symm, fun hl hne x y hx hx' hy hy' heq => h.2 hl hne.symm y x hy hy' hx hx' heq.symm⟩

/-- The granule of an entry divides its place and size in memory. -/
structure Granular (cfg : LayoutConfig) (e : TeeMmapRegion) : Prop where
  pos : 0 < e.regionSize
  dvd : e.regionSize ∣ cfg.pgdirSize
  pa : e.regionSize ∣ e.pa
  size : e.regionSize ∣ e.size

/-- The virtual address is one for the granule, and at the same place in a page directory if the
entry is large. -/
structure Aligned (cfg : LayoutConfig) (e : TeeMmapRegion) : Prop where
  va : e.regionSize ∣ e.va
  pgdir : 2 * cfg.pgdirSize < e.size → e.va % cfg.pgdirSize = e.pa % cfg.pgdirSize

/-! ### Page directories -/

theorem LayoutConfig.pgdirSize_pos (cfg : LayoutConfig) : 0 < cfg.pgdirSize := Nat.two_pow_pos _

theorem LayoutConfig.page_dvd_pgdirSize (cfg : LayoutConfig) : smallPageSize ∣ cfg.pgdirSize :=
  Nat.pow_dvd_pow 2 cfg.page_le

theorem div_lt_div_of_floor (hg : 0 < g) (h : y < z / g * g) (hz : z ≤ x) : y / g < x / g :=
  (Nat.div_lt_iff_lt_mul hg).2 (h.trans_le (Nat.mul_le_mul_right g (Nat.div_le_div_right hz)))

theorem div_lt_div_of_roundup (hg : 0 < g) (h : x < z) (hz : roundup g z ≤ y) : x / g < y / g := by
  rw [Nat.div_lt_iff_lt_mul hg]
  obtain ⟨k, hk⟩ := (dvd_roundup : g ∣ roundup g z)
  have hle : k ≤ y / g := (Nat.le_div_iff_mul_le hg).2 (by rw [Nat.mul_comm, ← hk]; exact hz)
  calc x < z := h
    _ ≤ roundup g z := le_roundup hg
    _ = k * g := by rw [hk, Nat.mul_comm]
    _ ≤ y / g * g := Nat.mul_le_mul_right g hle

theorem LayoutConfig.add_pgdirOffset (cfg : LayoutConfig) (pa : ℕ) (hva : va < 2 ^ cfg.bits) :
    cfg.pgdirOffset pa va < cfg.pgdirSize ∧ (va + cfg.pgdirOffset pa va) % cfg.pgdirSize
      = pa % cfg.pgdirSize := by
  refine ⟨Nat.mod_lt _ cfg.pgdirSize_pos, ?_⟩
  have hle : 2 ^ cfg.bits ≤ 2 ^ cfg.paddrBits := Nat.pow_le_pow_right (by decide) cfg.bits_le
  have hdvd : cfg.pgdirSize ∣ 2 ^ cfg.paddrBits :=
    Nat.pow_dvd_pow 2 (cfg.pgdir_lt.le.trans cfg.bits_le)
  rw [LayoutConfig.pgdirOffset, Nat.mod_mod_of_dvd _ hdvd, Nat.add_mod_mod,
    show va + (pa + (2 ^ cfg.paddrBits - va)) = pa + 2 ^ cfg.paddrBits by omega]
  obtain ⟨k, hk⟩ := hdvd
  rw [hk, Nat.add_mul_mod_self_left]

/-! ### Placing entries -/

/-- A way of placing one entry after the other: each is aligned and apart from what comes later. -/
def Places (cfg : LayoutConfig) (beyond : Cursor → TeeMmapRegion → Prop)
    (place : Cursor → TeeMmapRegion → Bool → Option (ℕ × Cursor)) : Prop :=
  ∀ c e va c', Granular cfg e → c.va < 2 ^ cfg.bits →
    place c e (mapIsSecure cfg e) = some (va, c') →
    c'.va < 2 ^ cfg.bits ∧ Aligned cfg { e with va } ∧ beyond c { e with va } ∧
    ∀ f, beyond c' f → beyond c f ∧ Separate cfg { e with va } f

/-- The entry had its address before, or got one beyond the cursor. -/
def Placed (cfg : LayoutConfig) (beyond : Cursor → TeeMmapRegion → Prop) (c : Cursor)
    (l : List TeeMmapRegion) (f : TeeMmapRegion) : Prop :=
  f ∈ l ∧ f.va ≠ 0 ∨ (∃ e ∈ l, e.va = 0 ∧ { f with va := 0 } = e) ∧ Aligned cfg f ∧ beyond c f

variable {place : Cursor → TeeMmapRegion → Bool → Option (ℕ × Cursor)}

theorem placeOthers_cons
    (h : placeOthers cfg place c (e :: l) = .ok (some l')) :
    e.va ≠ 0 ∧ (∃ rest, placeOthers cfg place c l = .ok (some rest) ∧ l' = e :: rest) ∨
    e.va = 0 ∧ ∃ va c' rest, place c e (mapIsSecure cfg e) = some (va, c') ∧
      placeOthers cfg place c' l = .ok (some rest) ∧ l' = { e with va } :: rest := by
  have hrest : ∀ {x : Except LayoutPanic (Option (List TeeMmapRegion))} {e' : TeeMmapRegion},
      (do let rest ← x; return rest.map fun maps' => e' :: maps') = .ok (some l') →
      ∃ rest, x = .ok (some rest) ∧ l' = e' :: rest := by
    intro x e' hx
    obtain ⟨o, ho, hx⟩ := bind_eq_ok.1 hx
    obtain ⟨rest, rfl, rfl⟩ := Option.map_eq_some_iff.1 (Except.ok.inj hx)
    exact ⟨rest, ho, rfl⟩
  rw [placeOthers] at h
  split at h
  · cases h
  next attr hattr =>
    have hsec : mapIsSecure cfg e = attr.secure := by
      rw [mapIsSecure, hattr]
      rfl
    split_ifs at h with hva
    · exact .inl ⟨hva, hrest h⟩
    · split at h
      · cases h
      next va c' hplace =>
        obtain ⟨rest, hr, rfl⟩ := hrest h
        exact .inr ⟨not_not.1 hva, va, c', rest, hsec ▸ hplace, hr, rfl⟩

section Loop

variable {beyond : Cursor → TeeMmapRegion → Prop}
  {place : Cursor → TeeMmapRegion → Bool → Option (ℕ × Cursor)} (hplace : Places cfg beyond place)
include hplace

theorem placeOthers_placed :
    ∀ {l l' : List TeeMmapRegion} {c : Cursor}, (∀ e ∈ l, e.va = 0 → Granular cfg e) →
    c.va < 2 ^ cfg.bits → placeOthers cfg place c l = .ok (some l') →
      ∀ f ∈ l', Placed cfg beyond c l f
  | [], l', c, _, _, h, f, hf => by
    cases h
    cases hf
  | e :: l, l', c, hgran, hc, h, f, hf => by
    have htail : ∀ e ∈ l, e.va = 0 → Granular cfg e :=
      fun a ha => hgran a (List.mem_cons_of_mem e ha)
    have hmono : ∀ {c₁ : Cursor}, (∀ a, beyond c₁ a → beyond c a) → Placed cfg beyond c₁ l f →
        Placed cfg beyond c (e :: l) f := by
      rintro c₁ hle (⟨hmem, hne⟩ | ⟨⟨a, ha, hzero, heq⟩, hal, hb⟩)
      · exact .inl ⟨List.mem_cons_of_mem e hmem, hne⟩
      · exact .inr ⟨⟨a, List.mem_cons_of_mem e ha, hzero, heq⟩, hal, hle f hb⟩
    rcases placeOthers_cons h with ⟨hva, rest, hrest, rfl⟩ | ⟨hva, va, c', rest, hp, hrest, rfl⟩
    · rcases List.mem_cons.1 hf with rfl | hf
      · exact .inl ⟨List.mem_cons_self, hva⟩
      · exact hmono (fun _ ha => ha) (placeOthers_placed htail hc hrest f hf)
    · obtain ⟨hc', hal, hb, hnext⟩ := hplace c e va c' (hgran e List.mem_cons_self hva) hc hp
      rcases List.mem_cons.1 hf with rfl | hf
      · exact .inr ⟨⟨e, List.mem_cons_self, hva, by rw [← hva]⟩, hal, hb⟩
      · exact hmono (fun a ha => (hnext a ha).1) (placeOthers_placed htail hc' hrest f hf)

theorem placeOthers_separate :
    ∀ {l l' : List TeeMmapRegion} {c : Cursor}, (∀ e ∈ l, e.va = 0 → Granular cfg e) →
    c.va < 2 ^ cfg.bits → (∀ e ∈ l, e.va ≠ 0 → ∀ f, beyond c f → Separate cfg e f) →
    (l.Pairwise fun e f => e.va ≠ 0 → f.va ≠ 0 → Separate cfg e f) →
    placeOthers cfg place c l = .ok (some l') → l'.Pairwise (Separate cfg)
  | [], l', c, _, _, _, _, h => by
    cases h
    exact .nil
  | e :: l, l', c, hgran, hc, hout, hpw, h => by
    have htail : ∀ e ∈ l, e.va = 0 → Granular cfg e :=
      fun a ha => hgran a (List.mem_cons_of_mem e ha)
    have hout' : ∀ a ∈ l, a.va ≠ 0 → ∀ f, beyond c f → Separate cfg a f :=
      fun a ha => hout a (List.mem_cons_of_mem e ha)
    obtain ⟨hhead, hpw⟩ := List.pairwise_cons.1 hpw
    rcases placeOthers_cons h with ⟨hva, rest, hrest, rfl⟩ | ⟨hva, va, c', rest, hp, hrest, rfl⟩
    · refine List.pairwise_cons.2 ⟨fun f hf => ?_, placeOthers_separate htail hc hout' hpw hrest⟩
      rcases placeOthers_placed hplace htail hc hrest f hf with ⟨hmem, hne⟩ | ⟨-, -, hb⟩
      · exact hhead f hmem hva hne
      · exact hout e List.mem_cons_self hva f hb
    · obtain ⟨hc', -, hb, hnext⟩ := hplace c e va c' (hgran e List.mem_cons_self hva) hc hp
      have hout'' : ∀ a ∈ l, a.va ≠ 0 → ∀ f, beyond c' f → Separate cfg a f :=
        fun a ha hne f hf => hout' a ha hne f (hnext f hf).1
      refine List.pairwise_cons.2 ⟨fun f hf => ?_, placeOthers_separate htail hc' hout'' hpw hrest⟩
      rcases placeOthers_placed hplace htail hc' hrest f hf with ⟨hmem, hne⟩ | ⟨-, -, hb'⟩
      · exact (hout' f hmem hne _ hb).symm
      · exact (hnext f hb').2

end Loop

/-! ### Upwards -/

/-- The entry lies above the cursor. -/
def AboveCursor (cfg : LayoutConfig) (c : Cursor) (f : TeeMmapRegion) : Prop :=
  (c.va ≤ f.va ∧ f.endVa < 2 ^ cfg.vaWidth) ∧
    (cfg.lpae = false → mapIsSecure cfg f ≠ c.secure → roundup cfg.pgdirSize c.va ≤ f.va)

theorem roundupOverflow_eq_some (h : roundupOverflow cfg.bits x g = some y) :
    y = roundup g x ∧ y < 2 ^ cfg.bits := by
  rw [roundupOverflow] at h
  split_ifs at h with hlt
  cases h
  exact ⟨rfl, (Nat.div_mul_le_self ..).trans_lt hlt⟩

theorem addOverflow_eq_some (h : addOverflow cfg.bits x z = some y) :
    y = x + z ∧ x + z < 2 ^ cfg.bits := by
  rw [addOverflow] at h
  split_ifs at h with hlt
  exact ⟨(Option.some.inj h).symm, hlt⟩

theorem Cursor.changes_iff : c.changes cfg sec = true ↔ cfg.lpae = false ∧ sec ≠ c.secure := by
  simp only [Cursor.changes, Bool.and_eq_true, Bool.not_eq_true', bne_iff_ne, ne_comm]

theorem le_changeAbove (h : changeAbove cfg c sec = some va) :
    c.va ≤ va ∧ (cfg.lpae = false → sec ≠ c.secure → roundup cfg.pgdirSize c.va ≤ va) := by
  rw [changeAbove] at h
  split_ifs at h with hch
  · rw [(roundupOverflow_eq_some h).1]
    exact ⟨le_roundup cfg.pgdirSize_pos, fun _ _ => le_rfl⟩
  · cases h
    exact ⟨le_rfl, fun hl hne => absurd (Cursor.changes_iff.2 ⟨hl, hne⟩) hch⟩

theorem Granular.dvd_of_mod_eq (hgran : Granular cfg e)
    (h : va % cfg.pgdirSize = e.pa % cfg.pgdirSize) :
    e.regionSize ∣ va :=
  (Nat.dvd_mod_iff hgran.dvd).1 (h ▸ (Nat.dvd_mod_iff hgran.dvd).2 hgran.pa)

theorem alignAbove_spec (hgran : Granular cfg e) (hdvd : e.regionSize ∣ va')
    (hlt : va' < 2 ^ cfg.bits) (h : alignAbove cfg e va' = some va) :
    va' ≤ va ∧ Aligned cfg { e with va } := by
  rw [alignAbove] at h
  split_ifs at h with hbig
  · obtain ⟨rfl, -⟩ := addOverflow_eq_some h
    obtain ⟨-, hmod⟩ := cfg.add_pgdirOffset e.pa hlt
    exact ⟨Nat.le_add_right .., hgran.dvd_of_mod_eq hmod, fun _ => hmod⟩
  · cases h
    exact ⟨le_rfl, hdvd, fun hsize => absurd hsize hbig⟩

theorem placeAbove_places : Places cfg (AboveCursor cfg) (placeAbove cfg) := by
  intro c e va c' hgran hc h
  simp only [placeAbove, Option.bind_eq_bind, Option.bind_eq_some_iff] at h
  obtain ⟨va₁, h₁, va₂, h₂, va₃, h₃, next, h₄, h⟩ := h
  split_ifs at h with hwide
  cases h
  obtain ⟨hle₁, hchange⟩ := le_changeAbove h₁
  obtain ⟨hva₂, hlt₂⟩ := roundupOverflow_eq_some h₂
  have hle₂ : va₁ ≤ va₂ := hva₂ ▸ le_roundup hgran.pos
  obtain ⟨hle₃, halign⟩ := alignAbove_spec hgran (hva₂ ▸ dvd_roundup) hlt₂ h₃
  obtain ⟨hnext, hlt⟩ := addOverflow_eq_some h₄
  have hend : TeeMmapRegion.endVa { e with va } = next := hnext.symm
  refine ⟨by rw [hnext]; exact hlt, halign,
    ⟨⟨(by omega : c.va ≤ va), by rw [hend]; omega⟩, fun hl hne => ?_⟩,
    fun f ⟨⟨hf, hfw⟩, hfch⟩ => ?_⟩
  · exact (hchange hl hne).trans (hle₂.trans hle₃)
  have hf : next ≤ f.va := hf
  have hfch : cfg.lpae = false → mapIsSecure cfg f ≠ mapIsSecure cfg e →
      roundup cfg.pgdirSize next ≤ f.va :=
    fun hl hne => hfch hl (by rw [Cursor.secureAfter, if_neg (by rw [hl]; decide)]; exact hne)
  refine ⟨⟨⟨by omega, hfw⟩, fun hl hne => ?_⟩, .inl (hend ▸ hf), fun hl hne x y _ hx hy _ => ?_⟩
  · -- what is beyond the next cursor has the security of the entry, or begins in another page
    -- directory
    by_cases hsame : mapIsSecure cfg e = c.secure
    · exact (roundup_mono (by omega)).trans (hfch hl (hsame ▸ hne))
    · exact (hchange hl hsame).trans (by omega)
  · rw [hend] at hx
    exact (div_lt_div_of_roundup cfg.pgdirSize_pos hx ((hfch hl (Ne.symm hne)).trans hy)).ne

/-! ### Downwards -/

/-- The entry lies below the cursor. -/
def BelowCursor (cfg : LayoutConfig) (c : Cursor) (f : TeeMmapRegion) : Prop :=
  f.endVa ≤ c.va ∧
    (cfg.lpae = false → mapIsSecure cfg f ≠ c.secure →
    f.endVa ≤ c.va / cfg.pgdirSize * cfg.pgdirSize)

theorem subOverflow_eq_some (h : subOverflow x z = some y) : z ≤ x ∧ y = x - z := by
  rw [subOverflow] at h
  split_ifs at h with hle
  exact ⟨hle, (Option.some.inj h).symm⟩

theorem alignBelow_spec (hgran : Granular cfg e) (hdvd : e.regionSize ∣ va')
    (hlt : va' < 2 ^ cfg.bits) (h : alignBelow cfg e va' = some va) :
    va ≤ va' ∧ Aligned cfg { e with va } := by
  rw [alignBelow] at h
  split_ifs at h with hbig
  · obtain ⟨va₁, h₁, rfl⟩ := Option.map_eq_some_iff.1 h
    obtain ⟨hle, rfl⟩ := subOverflow_eq_some h₁
    obtain ⟨hoff, hmod⟩ :=
      cfg.add_pgdirOffset e.pa (show va' - cfg.pgdirSize < 2 ^ cfg.bits by omega)
    exact ⟨by omega, hgran.dvd_of_mod_eq hmod, fun _ => hmod⟩
  · cases h
    exact ⟨le_rfl, hdvd, fun hsize => absurd hsize hbig⟩

theorem placeBelow_places : Places cfg (BelowCursor cfg) (placeBelow cfg) := by
  intro c e va c' hgran hc h
  simp only [placeBelow, Option.bind_eq_bind, Option.bind_eq_some_iff] at h
  obtain ⟨va₁, h₁, va₂, h₂, h⟩ := h
  cases h
  have hfloor : c.va / cfg.pgdirSize * cfg.pgdirSize ≤ c.va := Nat.div_mul_le_self ..
  obtain ⟨top, htop, hle, hchange⟩ : ∃ top,
      (if c.changes cfg (mapIsSecure cfg e) then c.va / cfg.pgdirSize * cfg.pgdirSize
      else c.va) = top ∧ top ≤ c.va ∧
      (cfg.lpae = false → mapIsSecure cfg e ≠ c.secure →
      top ≤ c.va / cfg.pgdirSize * cfg.pgdirSize) := by
    split_ifs with hch
    · exact ⟨_, rfl, hfloor, fun _ _ => le_rfl⟩
    · exact ⟨_, rfl, le_rfl, fun hl hne => absurd (Cursor.changes_iff.2 ⟨hl, hne⟩) hch⟩
  rw [htop] at h₁
  obtain ⟨hsize, hva₁⟩ := subOverflow_eq_some h₁
  have hdown : va₁ / e.regionSize * e.regionSize ≤ va₁ := Nat.div_mul_le_self ..
  obtain ⟨hle₂, halign⟩ := alignBelow_spec hgran (Nat.dvd_mul_left ..) (by omega) h₂
  have hend : TeeMmapRegion.endVa { e with va } ≤ top := by
    show va + e.size ≤ top
    omega
  refine ⟨by simp only []; omega, halign,
    ⟨hend.trans hle, fun hl hne => hend.trans (hchange hl hne)⟩, fun f ⟨hf, hfch⟩ => ?_⟩
  have hf : f.endVa ≤ va := hf
  have hva : va ≤ top := by omega
  have hfch : cfg.lpae = false → mapIsSecure cfg f ≠ mapIsSecure cfg e →
      f.endVa ≤ va / cfg.pgdirSize * cfg.pgdirSize :=
    fun hl hne => hfch hl (by rw [Cursor.secureAfter, if_neg (by rw [hl]; decide)]; exact hne)
  refine ⟨⟨by omega, fun hl hne => ?_⟩, .inr hf, fun hl hne x y hx _ _ hy => ?_⟩
  · -- what is beyond the next cursor has the security of the entry, or ends in another page
    -- directory
    by_cases hsame : mapIsSecure cfg e = c.secure
    · exact (hfch hl (hsame ▸ hne)).trans (Nat.mul_le_mul_right _ (Nat.div_le_div_right (by omega)))
    · exact (hf.trans hva).trans (hchange hl hsame)
  · exact (div_lt_div_of_floor cfg.pgdirSize_pos (hy.trans_le (hfch hl (Ne.symm hne))) hx).ne'

/-! ### The RAM of the core -/

/-- The entry is of RAM of the core and got its address between the two, or is as it was. -/
def RamPlaced (l : List TeeMmapRegion) (va va' : ℕ) (f : TeeMmapRegion) : Prop :=
  countsAsTeeRam f.type = false ∧ f ∈ l ∨
    countsAsTeeRam f.type = true ∧ (∃ e ∈ l, { f with va := e.va } = e) ∧ va ≤ f.va ∧ f.endVa ≤ va'
    ∧ f.regionSize ∣ f.va

theorem placeTeeRam_cons (h : placeTeeRam cfg va (e :: l) = .ok (some (va', l'))) :
    (countsAsTeeRam e.type = true ∧ e.regionSize ∣ va ∧ va + e.size < 2 ^ cfg.bits ∧ va + e.size
      < 2 ^ cfg.vaWidth ∧
      ∃ rest, placeTeeRam cfg (va + e.size) l = .ok (some (va', rest)) ∧
        l' = { e with va } :: rest) ∨
    countsAsTeeRam e.type = false ∧ ∃ rest, placeTeeRam cfg va l = .ok (some (va', rest))
      ∧ l' = e :: rest := by
  have hrest : ∀ {x : Except LayoutPanic (Option (ℕ × List TeeMmapRegion))} {e' : TeeMmapRegion},
      (do
        let rest ← x
        return rest.map fun ((v, maps') : ℕ × List TeeMmapRegion) => (v, e' :: maps'))
        = .ok (some (va', l')) →
      ∃ rest, x = .ok (some (va', rest)) ∧ l' = e' :: rest := by
    intro x e' hx
    obtain ⟨o, ho, hx⟩ := bind_eq_ok.1 hx
    obtain ⟨⟨va'', rest⟩, rfl, heq⟩ := Option.map_eq_some_iff.1 (Except.ok.inj hx)
    cases heq
    exact ⟨rest, ho, rfl⟩
  rw [placeTeeRam] at h
  split_ifs at h with hram hal
  · split at h
    · cases h
    next next hadd =>
      obtain ⟨rfl, hlt⟩ := addOverflow_eq_some hadd
      split_ifs at h with hwide
      · cases h
      · rw [not_or, not_not] at hal
        exact .inl ⟨hram, Nat.dvd_of_mod_eq_zero hal.1, hlt, by omega, hrest h⟩
  · exact .inr ⟨Bool.not_eq_true _ ▸ hram, hrest h⟩

theorem RamPlaced.mono (h : RamPlaced l x va' f) (hle : va ≤ x) : RamPlaced (e :: l) va va' f := by
  rcases h with ⟨hram, hf⟩ | ⟨hram, ⟨a, ha, heq⟩, hlo, hhi, hdvd⟩
  · exact .inl ⟨hram, List.mem_cons_of_mem e hf⟩
  · exact .inr ⟨hram, ⟨a, List.mem_cons_of_mem e ha, heq⟩, hle.trans hlo, hhi, hdvd⟩

theorem placeTeeRam_spec :
    ∀ {l l' : List TeeMmapRegion} {va va' : ℕ},
    placeTeeRam cfg va l = .ok (some (va', l')) →
    va ≤ va' ∧ (va < 2 ^ cfg.vaWidth ∨ (∃ e ∈ l, countsAsTeeRam e.type = true) →
      va' < 2 ^ cfg.vaWidth) ∧
    (va < 2 ^ cfg.bits → va' < 2 ^ cfg.bits) ∧ (∀ f ∈ l', RamPlaced l va va' f) ∧
    l'.Pairwise fun e f => countsAsTeeRam e.type = true → countsAsTeeRam f.type = true →
      e.endVa ≤ f.va
  | [], l', va, va', h => by
    cases h
    exact ⟨le_rfl, by simp, id, by simp, .nil⟩
  | e :: l, l', va, va', h => by
    rcases placeTeeRam_cons h with ⟨hram, hdvd, hlt, hwide, rest, hrest, rfl⟩
      | ⟨hram, rest, hrest, rfl⟩
    · obtain ⟨hle, hw, hb, hplaced, hpw⟩ := placeTeeRam_spec hrest
      refine ⟨by omega, fun _ => ?_, fun _ => hb hlt, fun f hf => ?_,
        List.pairwise_cons.2 ⟨fun f hf _ hf' => ?_, hpw⟩⟩
      · exact hw (.inl hwide)
      · rcases List.mem_cons.1 hf with rfl | hf
        · exact .inr ⟨hram, ⟨e, List.mem_cons_self, rfl⟩, le_rfl, hle, hdvd⟩
        · exact (hplaced f hf).mono (Nat.le_add_right ..)
      · rcases hplaced f hf with ⟨hno, -⟩ | ⟨-, -, hlo, -⟩
        · rw [hno] at hf'
          cases hf'
        · exact hlo
    · obtain ⟨hle, hw, hb, hplaced, hpw⟩ := placeTeeRam_spec hrest
      have hmem : (∃ a ∈ e :: l, countsAsTeeRam a.type = true) →
          ∃ a ∈ l, countsAsTeeRam a.type = true := by
        rintro ⟨a, ha, hta⟩
        refine ⟨a, (List.mem_cons.1 ha).resolve_left ?_, hta⟩
        rintro rfl
        rw [hram] at hta
        cases hta
      refine ⟨hle, fun h => hw (h.imp_right hmem), hb, fun f hf => ?_,
        List.pairwise_cons.2 ⟨fun f hf he => ?_, hpw⟩⟩
      · rcases List.mem_cons.1 hf with rfl | hf
        · exact .inl ⟨hram, List.mem_cons_self⟩
        · exact (hplaced f hf).mono le_rfl
      · rw [hram] at he
        cases he

/-! ### The layout -/

/-- The entry without its address. -/
def TeeMmapRegion.clear (e : TeeMmapRegion) : TeeMmapRegion := { e with va := 0 }

theorem placeTeeRam_clear :
    ∀ {l l' : List TeeMmapRegion} {va va' : ℕ},
    placeTeeRam cfg va l = .ok (some (va', l')) →
      l'.map TeeMmapRegion.clear = l.map TeeMmapRegion.clear
  | [], l', va, va', h => by
    cases h
    rfl
  | e :: l, l', va, va', h => by
    rcases placeTeeRam_cons h with ⟨-, -, -, -, rest, hrest, rfl⟩ | ⟨-, rest, hrest, rfl⟩
    · rw [List.map_cons, List.map_cons, placeTeeRam_clear hrest]
      rfl
    · rw [List.map_cons, List.map_cons, placeTeeRam_clear hrest]

theorem placeOthers_clear :
    ∀ {l l' : List TeeMmapRegion} {c : Cursor},
    placeOthers cfg place c l = .ok (some l') →
      l'.map TeeMmapRegion.clear = l.map TeeMmapRegion.clear
  | [], l', c, h => by
    cases h
    rfl
  | e :: l, l', c, h => by
    rcases placeOthers_cons h with ⟨-, rest, hrest, rfl⟩ | ⟨-, va, c', rest, -, hrest, rfl⟩
    · rw [List.map_cons, List.map_cons, placeOthers_clear hrest]
    · rw [List.map_cons, List.map_cons, placeOthers_clear hrest]
      rfl

theorem mapIsSecure_of_ram (h : countsAsTeeRam e.type = true) : mapIsSecure cfg e = true := by
  rw [mapIsSecure]
  cases ht : e.type <;> rw [ht] at h <;> first | rfl | cases h

/-- Entries are disjoint and aligned, and the two worlds share no page directory without LPAE. -/
structure LayoutSound (cfg : LayoutConfig) (l : List TeeMmapRegion) : Prop where
  disjoint : l.Pairwise fun e f => e.endVa ≤ f.va ∨ f.endVa ≤ e.va
  aligned : ∀ e ∈ l, e.regionSize ∣ e.va
  pgdir : ∀ e ∈ l, countsAsTeeRam e.type = false → 2 * cfg.pgdirSize < e.size →
    e.va % cfg.pgdirSize = e.pa % cfg.pgdirSize
  worlds : cfg.lpae = false → l.Pairwise fun e f => mapIsSecure cfg e ≠ mapIsSecure cfg f →
    PgdirsApart cfg e f

theorem layout_of_placeOthers {beyond : Cursor → TeeMmapRegion → Prop}
    (hplace : Places cfg beyond place) (hgran : ∀ e ∈ maps, Granular cfg e)
    (hc : c.va < 2 ^ cfg.bits) (hva : 0 < va)
    (hram : placeTeeRam cfg va (maps.map TeeMmapRegion.clear) = .ok (some (va', l)))
    (hout : ∀ e, countsAsTeeRam e.type = true → va ≤ e.va → e.endVa ≤ va' → ∀ f, beyond c f →
      Separate cfg e f)
    (h : placeOthers cfg place c l = .ok (some l')) :
    LayoutSound cfg l' ∧ l'.map TeeMmapRegion.clear = maps.map TeeMmapRegion.clear ∧
      ∀ f ∈ l', countsAsTeeRam f.type = true ∧ f.endVa ≤ va' ∨ beyond c f := by
  obtain ⟨-, -, -, hplaced, hpw⟩ := placeTeeRam_spec hram
  -- an address is 0 until the entry is placed
  have hzero : ∀ e ∈ l, e.va = 0 → Granular cfg e := by
    intro e he hva0
    rcases hplaced e he with ⟨-, hmem⟩ | ⟨-, -, hlo, -⟩
    · obtain ⟨a, ha, rfl⟩ := List.mem_map.1 hmem
      obtain ⟨hpos, hdvd, hpa, hsize⟩ := hgran a ha
      exact ⟨hpos, hdvd, hpa, hsize⟩
    · omega
  have hnonzero : ∀ e ∈ l, e.va ≠ 0 →
      countsAsTeeRam e.type = true ∧ va ≤ e.va ∧ e.endVa ≤ va' ∧ e.regionSize ∣ e.va := by
    intro e he hne
    rcases hplaced e he with ⟨-, hmem⟩ | ⟨hram, -, hfacts⟩
    · obtain ⟨a, -, rfl⟩ := List.mem_map.1 hmem
      exact absurd rfl hne
    · exact ⟨hram, hfacts⟩
  have hout' : ∀ e ∈ l, e.va ≠ 0 → ∀ f, beyond c f → Separate cfg e f := by
    intro e he hne
    obtain ⟨hram, hlo, hhi, -⟩ := hnonzero e he hne
    exact hout e hram hlo hhi
  have hpw' : l.Pairwise fun e f => e.va ≠ 0 → f.va ≠ 0 → Separate cfg e f := by
    refine hpw.imp_of_mem fun {e f} he hf hef hne hnf => ?_
    have hrame := (hnonzero e he hne).1
    have hramf := (hnonzero f hf hnf).1
    refine ⟨.inl (hef hrame hramf), fun _ hdiff => absurd ?_ hdiff⟩
    rw [mapIsSecure_of_ram hrame, mapIsSecure_of_ram hramf]
  have hsep := placeOthers_separate hplace hzero hc hout' hpw' h
  have hfinal := placeOthers_placed hplace hzero hc h
  refine ⟨⟨hsep.imp fun h => h.1, fun f hf => ?_, fun f hf hno hbig => ?_,
    fun hl => hsep.imp fun h => h.2 hl⟩, ?_, fun f hf => ?_⟩
  · rcases hfinal f hf with ⟨hmem, hne⟩ | ⟨-, hal, -⟩
    · exact (hnonzero f hmem hne).2.2.2
    · exact hal.va
  · rcases hfinal f hf with ⟨hmem, hne⟩ | ⟨-, hal, -⟩
    · rw [(hnonzero f hmem hne).1] at hno
      cases hno
    · exact hal.pgdir hbig
  · rw [placeOthers_clear h, placeTeeRam_clear hram, List.map_map]
    rfl
  · rcases hfinal f hf with ⟨hmem, hne⟩ | ⟨-, -, hb⟩
    · exact .inl ⟨(hnonzero f hmem hne).1, (hnonzero f hmem hne).2.2.1⟩
    · exact .inr hb

theorem Granular.of_assignGranule (h : assignGranule cfg map = .ok e) : Granular cfg e := by
  rw [assignGranule] at h
  split at h
  next hpgdir =>
    obtain rfl := Except.ok.inj h
    have hdvd : (if mapIsTeeRam map.type then smallPageSize
        else cfg.pgdirSize) ∣ cfg.pgdirSize := by
      split
      · exact cfg.page_dvd_pgdirSize
      · exact Nat.dvd_refl _
    exact ⟨Nat.pos_of_dvd_of_pos hdvd cfg.pgdirSize_pos, hdvd,
      Nat.dvd_trans hdvd (Nat.dvd_of_mod_eq_zero hpgdir.1),
      Nat.dvd_trans hdvd (Nat.dvd_of_mod_eq_zero hpgdir.2)⟩
  next =>
    split at h
    next hpage =>
      obtain rfl := Except.ok.inj h
      exact ⟨Nat.two_pow_pos 12, cfg.page_dvd_pgdirSize, Nat.dvd_of_mod_eq_zero hpage.1,
        Nat.dvd_of_mod_eq_zero hpage.2⟩
    next => cases h

theorem granular_of_assignMemGranularity : ∀ {given l : List TeeMmapRegion},
    assignMemGranularity cfg given = .ok l → ∀ e ∈ l, Granular cfg e
  | [], l, h, e, he => by
    obtain rfl := Except.ok.inj h
    cases he
  | map :: given, l, h, e, he => by
    rw [assignMemGranularity, List.mapM_cons] at h
    obtain ⟨f, hf, h⟩ := bind_eq_ok.1 h
    obtain ⟨fs, hfs, h⟩ := bind_eq_ok.1 h
    obtain rfl := Except.ok.inj h
    rcases List.mem_cons.1 he with rfl | he
    · exact .of_assignGranule hf
    · exact granular_of_assignMemGranularity hfs e he

/-- The layout that `assign_mem_va_dir` returns with true is sound, and inside the VA width unless
entries are mapped below an address that is not. -/
theorem memLayout_sound (cfg : LayoutConfig) (teeRamVa : ℕ) (given maps l : List TeeMmapRegion)
    (teeRamAtTop : Bool) (hva : teeRamVa < 2 ^ cfg.bits)
    (hgiven : assignMemGranularity cfg given = .ok maps)
    (h : assignMemVaDir cfg teeRamVa maps teeRamAtTop = .ok (some l)) :
    LayoutSound cfg l ∧ l.map TeeMmapRegion.clear = maps.map TeeMmapRegion.clear ∧
      ((teeRamAtTop = true → teeRamVa ≤ 2 ^ cfg.vaWidth
        ∨ ∃ e ∈ maps, countsAsTeeRam e.type = true) →
        ∀ e ∈ l, e.endVa ≤ 2 ^ cfg.vaWidth) := by
  have hgran : ∀ e ∈ maps, Granular cfg e := granular_of_assignMemGranularity hgiven
  rw [assignMemVaDir] at h
  by_cases hzero : teeRamVa = 0
  · rw [if_pos hzero] at h
    cases h
  rw [if_neg hzero] at h
  obtain ⟨o, hram, h⟩ := bind_eq_ok.1 h
  rcases o with _ | ⟨va, l₁⟩
  · cases h
  obtain ⟨hle, hwide, hbits, -⟩ := placeTeeRam_spec hram
  have hpos : 0 < teeRamVa := Nat.pos_of_ne_zero hzero
  -- RAM of the core in the layout was there before
  have hmem : l.map TeeMmapRegion.clear = maps.map TeeMmapRegion.clear →
    ∀ e ∈ l, countsAsTeeRam e.type = true →
      ∃ a ∈ maps, countsAsTeeRam a.type = true := by
    intro hclear e he hte
    obtain ⟨a, ha, hae⟩ :=
      List.mem_map.1 (hclear ▸ List.mem_map_of_mem he : e.clear ∈ maps.map TeeMmapRegion.clear)
    have htype : a.clear.type = e.clear.type := congrArg TeeMmapRegion.type hae
    exact ⟨a, ha, htype ▸ hte⟩
  have hram' : (∃ a ∈ maps, countsAsTeeRam a.type = true) →
      va < 2 ^ cfg.vaWidth := fun ⟨a, ha, hta⟩ =>
    hwide (.inr ⟨a.clear, List.mem_map_of_mem ha, hta⟩)
  cases teeRamAtTop with
  | true =>
    have hout : ∀ e, countsAsTeeRam e.type = true → teeRamVa ≤ e.va → e.endVa ≤ va →
        ∀ f, BelowCursor cfg ⟨teeRamVa, true⟩ f → Separate cfg e f := by
      intro e hte hlo _ f ⟨hf, hfch⟩
      refine ⟨.inr (hf.trans hlo), fun hl hne x y hx _ _ hy => ?_⟩
      rw [mapIsSecure_of_ram hte] at hne
      exact (div_lt_div_of_floor cfg.pgdirSize_pos (hy.trans_le (hfch hl hne.symm))
        (hlo.trans hx)).ne'
    obtain ⟨hsound, hclear, hwhere⟩ :=
      layout_of_placeOthers placeBelow_places hgran hva hpos hram hout h
    refine ⟨hsound, hclear, fun htop e he => ?_⟩
    rcases hwhere e he with ⟨hte, hend⟩ | ⟨hend, -⟩
    · exact hend.trans (hram' (hmem hclear e he hte)).le
    · rcases htop rfl with htop | hram
      · exact hend.trans htop
      · exact hend.trans (hle.trans (hram' hram).le)
  | false =>
    have hout : ∀ e, countsAsTeeRam e.type = true → teeRamVa ≤ e.va → e.endVa ≤ va →
        ∀ f, AboveCursor cfg ⟨va, true⟩ f → Separate cfg e f := by
      intro e hte _ hhi f ⟨⟨hf, _⟩, hfch⟩
      refine ⟨.inl (hhi.trans hf), fun hl hne x y _ hx hy _ => ?_⟩
      rw [mapIsSecure_of_ram hte] at hne
      exact (div_lt_div_of_roundup cfg.pgdirSize_pos (hx.trans_le hhi)
        ((hfch hl hne.symm).trans hy)).ne
    obtain ⟨hsound, hclear, hwhere⟩ :=
      layout_of_placeOthers placeAbove_places hgran (hbits hva) hpos hram hout h
    refine ⟨hsound, hclear, fun _ e he => ?_⟩
    rcases hwhere e he with ⟨hte, hend⟩ | ⟨⟨-, hend⟩, -⟩
    · exact hend.trans (hram' (hmem hclear e he hte)).le
    · exact hend.le

/-- A 32-bit core without LPAE. -/
def shortDescriptors : LayoutConfig where
  bits := 32
  paddrBits := 32
  vaWidth := 32
  pgdirShift := 20
  lpae := false
  extDtSecure := false
  page_le := by decide
  pgdir_lt := by decide
  bits_le := by decide

/-- A 64-bit core with a VA space of 4 GiB. -/
def fourGigabytes : LayoutConfig where
  bits := 64
  paddrBits := 64
  vaWidth := 32
  pgdirShift := 21
  lpae := true
  extDtSecure := false
  page_le := by decide
  pgdir_lt := by decide
  bits_le := by decide

/-- RAM of the core, shared memory and a device. -/
def threeAreas : List TeeMmapRegion :=
  [⟨.teeRamRw, 0, 0x0e101000, 0, 0x3000⟩, ⟨.nsecShm, 0, 0x42000000, 0, 0x600000⟩,
    ⟨.ioSec, 0, 0x09000000, 0, 0x1000⟩]

theorem memLayout_sound_threeAreas :
    (∃ maps l, assignMemGranularity shortDescriptors threeAreas = .ok maps ∧
      assignMemVaDir shortDescriptors 0x0e101000 maps true = .ok (some l) ∧
      LayoutSound shortDescriptors l ∧ ∀ e ∈ l, e.endVa ≤ 2 ^ 32) := by
  have hgran : ∃ maps l, assignMemGranularity shortDescriptors threeAreas = .ok maps ∧
      assignMemVaDir shortDescriptors 0x0e101000 maps true = .ok (some l) := ⟨_, _, rfl, rfl⟩
  obtain ⟨maps, l, hmaps, hl⟩ := hgran
  obtain ⟨hsound, -, hwidth⟩ :=
    memLayout_sound shortDescriptors 0x0e101000 threeAreas maps l true (by decide) hmaps hl
  exact ⟨maps, l, hmaps, hl, hsound, hwidth fun _ => .inl (by decide)⟩

/-- RAM of the core is mapped where it is told, whatever its size, and below an address outside of
the VA width are addresses outside of it. -/
theorem layout_ram_unaligned_above_width :
    (∃ given maps l, assignMemGranularity shortDescriptors given = .ok maps ∧
      assignMemVaDir shortDescriptors 0x0e102000 maps false = .ok (some l) ∧
      ¬ ∀ e ∈ l, 2 * shortDescriptors.pgdirSize < e.size →
        e.va % shortDescriptors.pgdirSize = e.pa % shortDescriptors.pgdirSize) ∧
    ∃ given maps l, assignMemGranularity fourGigabytes given = .ok maps ∧
      assignMemVaDir fourGigabytes 0x200000000 maps true = .ok (some l) ∧
      ¬ ∀ e ∈ l, e.endVa ≤ 2 ^ fourGigabytes.vaWidth :=
  ⟨⟨[⟨.teeRamRw, 0, 0x0e101000, 0, 0x600000⟩], _, _, rfl, rfl, by decide⟩,
    [⟨.ioSec, 0, 0x09000000, 0, 0x1000⟩], _, _, rfl, rfl, by decide⟩

end Optee.MemMap
