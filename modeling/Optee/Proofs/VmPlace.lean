import Mathlib.Tactic.Linarith
import Optee.Lib.Segments
import Optee.Vm

/-!
# Where a region is placed

`select_va_in_range` finds a place where a region fits between two others (`Fits`), and
`umap_add_region` takes the first such place. It then lies between its neighbours in the list, at a
distance.
-/

namespace Optee.Vm

open Segments

variable {cfg : Config} {s s' : VmInfo} {prev next reg r r' : VmRegion} {l l' l₁ l₂ : List VmRegion}
  {padBegin padEnd granul align va : ℕ}

theorem Config.page_dvd_bits (cfg : Config) : smallPageSize ∣ 2 ^ cfg.bits :=
  Nat.pow_dvd_pow 2 cfg.page_lt.le

theorem PageAligned.iff_dvd {x : ℕ} : PageAligned x ↔ smallPageSize ∣ x :=
  Nat.dvd_iff_mod_eq_zero.symm

/-! ### Fitting between two regions -/

/-- The lowest address behind a region. -/
def lowVa (cfg : Config) (prev reg : VmRegion) (padBegin granul : ℕ) : ℕ :=
  roundup (cfg.granule prev reg granul) (prev.endVa + padBegin + pad prev reg)

/-- The address that is asked for, or the lowest. -/
def beginVa (cfg : Config) (prev reg : VmRegion) (padBegin granul : ℕ) : ℕ :=
  if reg.va ≠ 0 then reg.va else lowVa cfg prev reg padBegin granul

/-- The region fits between the two. -/
@[mk_iff]
structure Fits (cfg : Config) (prev next reg : VmRegion) (padBegin padEnd granul : ℕ) : Prop where
  low_lt : prev.endVa + padBegin + pad prev reg + (cfg.granule prev reg granul - 1) < 2 ^ cfg.bits
  low_le : lowVa cfg prev reg padBegin granul ≤ beginVa cfg prev reg padBegin granul
  high_lt : beginVa cfg prev reg padBegin granul + reg.size + padEnd + pad next reg
    + (cfg.granule next reg (cfg.granule prev reg granul) - 1) < 2 ^ cfg.bits
  high_le : roundup (cfg.granule next reg (cfg.granule prev reg granul))
    (beginVa cfg prev reg padBegin granul + reg.size + padEnd + pad next reg) ≤ next.va
  begin_pos : 0 < beginVa cfg prev reg padBegin granul

instance : Decidable (Fits cfg prev next reg padBegin padEnd granul) :=
  decidable_of_iff' _ (fits_iff ..)

theorem addOverflow_chain {a b c d g : ℕ} :
    (do
      let va ← addOverflow cfg.bits a b
      let va ← addOverflow cfg.bits va c
      let va ← addOverflow cfg.bits va d
      roundupOverflow cfg.bits va g)
      = if a + b + c + d + (g - 1) < 2 ^ cfg.bits then some (roundup g (a + b + c + d))
        else none := by
  simp only [addOverflow, roundupOverflow, Option.bind_eq_bind]
  split_ifs <;> first
    | omega
    | rfl
    | skip
  all_goals simp only [Option.bind_some]
  all_goals split_ifs <;> first
    | omega
    | rfl
    | skip
  all_goals simp only [Option.bind_some]
  all_goals split_ifs <;> first
    | omega
    | rfl
    | skip
  all_goals simp only [Option.bind_some]
  all_goals split_ifs <;> first
    | omega
    | rfl

theorem selectVaInRange_eq : selectVaInRange cfg prev next reg padBegin padEnd granul
    = if Fits cfg prev next reg padBegin padEnd granul then
        beginVa cfg prev reg padBegin granul else 0 := by
  simp only [selectVaInRange, addOverflow_chain]
  by_cases hlow : prev.va + prev.size + padBegin + pad prev reg
      + (cfg.granule prev reg granul - 1) < 2 ^ cfg.bits
  swap
  · rw [if_neg hlow, if_neg fun h => hlow h.low_lt]
  rw [if_pos hlow]
  simp only []
  rw [show roundup (cfg.granule prev reg granul) (prev.va + prev.size + padBegin + pad prev reg)
    = lowVa cfg prev reg padBegin granul from rfl]
  by_cases hva : reg.va ≠ 0 ∧ reg.va < lowVa cfg prev reg padBegin granul
  · rw [if_pos hva, if_neg fun h => ?_]
    have := h.low_le
    rw [beginVa, if_pos hva.1] at this
    omega
  rw [if_neg hva, show (if reg.va ≠ 0 then reg.va else lowVa cfg prev reg padBegin granul)
    = beginVa cfg prev reg padBegin granul from rfl]
  by_cases hhigh : beginVa cfg prev reg padBegin granul + reg.size + padEnd + pad next reg
      + (cfg.granule next reg (cfg.granule prev reg granul) - 1) < 2 ^ cfg.bits
  swap
  · rw [if_neg hhigh, if_neg fun h => hhigh h.high_lt]
  rw [if_pos hhigh]
  simp only []
  by_cases hle : roundup (cfg.granule next reg (cfg.granule prev reg granul))
      (beginVa cfg prev reg padBegin granul + reg.size + padEnd + pad next reg) ≤ next.va
  swap
  · rw [if_neg hle, if_neg fun h => hle h.high_le]
  rw [if_pos hle]
  have hlowle : lowVa cfg prev reg padBegin granul ≤ beginVa cfg prev reg padBegin granul := by
    unfold beginVa
    split_ifs <;> omega
  by_cases hpos : 0 < beginVa cfg prev reg padBegin granul
  · rw [if_pos ⟨hlow, hlowle, hhigh, hle, hpos⟩]
  · rw [if_neg fun h => hpos h.begin_pos]
    exact Nat.eq_zero_of_not_pos hpos

/-- A granule of whole pages. -/
def GranuleOk (g : ℕ) : Prop := smallPageSize ∣ g ∧ 0 < g

theorem GranuleOk.granule (cfg : Config) (h : GranuleOk granul) :
    GranuleOk (cfg.granule r reg granul) := by
  unfold Config.granule
  split_ifs
  · exact ⟨cfg.page_dvd_pgdirSize, cfg.pgdirSize_pos⟩
  · exact h

theorem GranuleOk.of_powerOfTwo {a : ℕ} (h : isPowerOfTwo (max a smallPageSize) = true) :
    GranuleOk (max a smallPageSize) := by
  have hle : 2 ^ 12 ≤ max a smallPageSize := le_max_right ..
  refine ⟨show 2 ^ 12 ∣ _ from ?_, lt_of_lt_of_le (by decide) hle⟩
  rw [beq_iff_eq.1 h] at hle ⊢
  exact Nat.pow_dvd_pow 2 ((Nat.pow_le_pow_iff_right (by decide)).1 hle)

/-- The region lies between the two, with room for the page tables. -/
structure Between (prev next r : VmRegion) : Prop where
  low : prev.endVa + pad prev r ≤ r.va
  high : r.endVa + pad next r ≤ next.va

theorem Fits.between (h : Fits cfg prev next reg padBegin padEnd granul) (hg : GranuleOk granul)
    (hr : r = { reg with va := beginVa cfg prev reg padBegin granul }) : Between prev next r := by
  have h₁ := (le_roundup (hg.granule cfg).2).trans h.low_le
  have h₂ := (le_roundup ((hg.granule cfg).granule cfg).2).trans h.high_le
  have hp : ∀ q, pad q r = pad q reg := by rw [hr]; exact fun _ => rfl
  have hva : r.va = beginVa cfg prev reg padBegin granul := by rw [hr]
  have hs : r.size = reg.size := by rw [hr]
  refine ⟨?_, ?_⟩
  · rw [hp, hva]
    omega
  · rw [hp, VmRegion.endVa, hva, hs]
    omega

theorem PageAligned.beginVa (hva : PageAligned reg.va) (hg : GranuleOk granul) :
    PageAligned (beginVa cfg prev reg padBegin granul) := by
  unfold Vm.beginVa
  split_ifs
  · exact hva
  · exact PageAligned.iff_dvd.2 ((hg.granule cfg).1.trans dvd_roundup)

/-! ### The first place in the list -/

/-- All pairs of neighbours. -/
def gaps (cfg : Config) : VmRegion → List VmRegion → List (VmRegion × VmRegion)
  | prev, [] => [(prev, cfg.dummyLast)]
  | prev, r :: rs => (prev, r) :: gaps cfg r rs

theorem selectVaInRange_cases (cfg : Config) (prev next reg : VmRegion)
    (padBegin padEnd granul : ℕ) :
    (¬ Fits cfg prev next reg padBegin padEnd granul ∧
      selectVaInRange cfg prev next reg padBegin padEnd granul = 0) ∨
    (Fits cfg prev next reg padBegin padEnd granul ∧
      ∃ n, selectVaInRange cfg prev next reg padBegin padEnd granul = n + 1 ∧
        n + 1 = beginVa cfg prev reg padBegin granul) := by
  by_cases h : Fits cfg prev next reg padBegin padEnd granul
  · have hpos := h.begin_pos
    refine .inr ⟨h, beginVa cfg prev reg padBegin granul - 1, ?_, by omega⟩
    rw [selectVaInRange_eq, if_pos h]
    omega
  · exact .inl ⟨h, by rw [selectVaInRange_eq, if_neg h]⟩

theorem insertRegion_some {tail : Bool} (hg : GranuleOk granul) :
    ∀ {l prev l₁}, insertRegion cfg tail reg padBegin padEnd granul prev l
      = .ok (some (l₁, r, l₂)) →
      l = l₁ ++ l₂ ∧ r = { reg with va := beginVa cfg (l₁.getLastD prev) reg padBegin granul } ∧
        Between (l₁.getLastD prev) (l₂.headD cfg.dummyLast) r ∧ 0 < r.va ∧ (l₂ = [] → tail = true)
  | [], prev, l₁, h => by
    simp only [insertRegion] at h
    cases htail : tail
    · rw [htail] at h
      cases h
    rw [htail, if_pos rfl] at h
    obtain ⟨-, hsel⟩ | ⟨hf, n, hsel, hn⟩ :=
      selectVaInRange_cases cfg prev cfg.dummyLast reg padBegin padEnd granul
    · rw [hsel] at h
      cases h
    · rw [hsel] at h
      cases h
      have hr : { reg with va := n + 1 }
        = ({ reg with va := beginVa cfg prev reg padBegin granul } : VmRegion) := by rw [hn]
      exact ⟨rfl, hr, hf.between hg hr, n.succ_pos, fun _ => rfl⟩
  | q :: qs, prev, l₁, h => by
    rw [insertRegion] at h
    obtain ⟨-, hsel⟩ | ⟨hf, n, hsel, hn⟩ :=
      selectVaInRange_cases cfg prev q reg padBegin padEnd granul
    · rw [hsel] at h
      cases hrec : insertRegion cfg tail reg padBegin padEnd granul q qs with
      | error e =>
        rw [hrec] at h
        cases h
      | ok o =>
        rw [hrec] at h
        obtain ⟨⟨l₁', r', l₂'⟩, ho, heq⟩ := Option.map_eq_some_iff.1 (Except.ok.inj h)
        subst ho
        cases heq
        obtain ⟨rfl, hr, hb, hpos, ht⟩ := insertRegion_some hg hrec
        refine ⟨rfl, ?_, ?_, hpos, ht⟩
        · rwa [List.getLastD_cons]
        · rwa [List.getLastD_cons]
    · rw [hsel] at h
      cases h
      have hr : { reg with va := n + 1 }
        = ({ reg with va := beginVa cfg prev reg padBegin granul } : VmRegion) := by rw [hn]
      exact ⟨rfl, hr, hf.between hg hr, n.succ_pos, nofun⟩

theorem insertRegion_tail (cfg : Config) (reg : VmRegion) (padBegin padEnd granul : ℕ) :
    ∀ (l : List VmRegion) (prev : VmRegion), ∃ o,
      insertRegion cfg true reg padBegin padEnd granul prev l = .ok o ∧
      (o.isSome ↔ ∃ g ∈ gaps cfg prev l, Fits cfg g.1 g.2 reg padBegin padEnd granul)
  | [], prev => by
    simp only [insertRegion, if_true, gaps, List.mem_singleton, exists_eq_left]
    obtain ⟨hn, hsel⟩ | ⟨hf, n, hsel, -⟩ :=
      selectVaInRange_cases cfg prev cfg.dummyLast reg padBegin padEnd granul
    · rw [hsel]
      exact ⟨none, rfl, iff_of_false (by simp) hn⟩
    · rw [hsel]
      exact ⟨_, rfl, iff_of_true rfl hf⟩
  | q :: qs, prev => by
    obtain ⟨o, ho, hsome⟩ := insertRegion_tail cfg reg padBegin padEnd granul qs q
    simp only [insertRegion, gaps, List.mem_cons, exists_eq_or_imp]
    obtain ⟨hn, hsel⟩ | ⟨hf, n, hsel, -⟩ :=
      selectVaInRange_cases cfg prev q reg padBegin padEnd granul
    · rw [hsel, ho]
      exact ⟨_, rfl, by rw [Option.isSome_map, hsome, or_iff_right hn]⟩
    · rw [hsel]
      exact ⟨_, rfl, iff_of_true rfl (.inl hf)⟩

/-! ### `umap_add_region` -/

/-- What is asked of a region before a place is looked for. -/
structure Placeable (cfg : Config) (reg : VmRegion) (padBegin padEnd align : ℕ) : Prop where
  va : PageAligned reg.va
  size : PageAligned reg.size
  begins : PageAligned padBegin
  ends : PageAligned padEnd
  offset_lt : reg.offset + reg.size < 2 ^ cfg.bits
  inside : reg.offset + reg.size ≤ wrapRoundup cfg.bits smallPageSize reg.mobj.size
  align : isPowerOfTwo (max align smallPageSize) = true

theorem umapAddRegion_cases (cfg : Config) (s : VmInfo) (reg : VmRegion)
    (padBegin padEnd align : ℕ) :
    (¬ Placeable cfg reg padBegin padEnd align ∧
      ∃ e, umapAddRegion cfg s reg padBegin padEnd align = .ok (.error e)) ∨
    (Placeable cfg reg padBegin padEnd align ∧
      umapAddRegion cfg s reg padBegin padEnd align
        = (insertRegion cfg s.tail reg padBegin padEnd (max align smallPageSize) cfg.dummyFirst
            s.regions).map fun
          | none => .error .accessConflict
          | some place => .ok place) := by
  simp only [umapAddRegion]
  by_cases hal : PageAligned reg.va ∧ PageAligned reg.size ∧ PageAligned padBegin ∧
      PageAligned padEnd
  swap
  · exact .inl ⟨fun h => hal ⟨h.va, h.size, h.begins, h.ends⟩, _, if_pos hal⟩
  rw [if_neg (not_not.2 hal), addOverflow]
  by_cases hlt : reg.offset + reg.size < 2 ^ cfg.bits
  swap
  · rw [if_neg hlt]
    exact .inl ⟨fun h => hlt h.offset_lt, _, rfl⟩
  rw [if_pos hlt]
  by_cases hin : wrapRoundup cfg.bits smallPageSize reg.mobj.size < reg.offset + reg.size
  · exact .inl ⟨fun h => absurd h.inside (Nat.not_le.2 hin), _, if_pos hin⟩
  cases hpow : isPowerOfTwo (max align smallPageSize)
  · refine .inl ⟨fun h => by simp [h.align] at hpow, .badParameters, ?_⟩
    simp only [if_neg hin]
    rfl
  · obtain ⟨h₁, h₂, h₃, h₄⟩ := hal
    refine .inr ⟨⟨h₁, h₂, h₃, h₄, hlt, Nat.not_lt.1 hin, hpow⟩, ?_⟩
    simp only [if_neg hin]
    cases insertRegion cfg s.tail reg padBegin padEnd (max align smallPageSize) cfg.dummyFirst
        s.regions with
    | error e => rfl
    | ok o => cases o <;> rfl

/-- A region was put into the list between others. -/
structure Placed (cfg : Config) (reg : VmRegion) (padBegin align : ℕ) (r : VmRegion)
    (l₁ l₂ : List VmRegion) : Prop where
  same : r = { reg with va := r.va }
  begins : r.va = beginVa cfg (l₁.getLastD cfg.dummyFirst) reg padBegin (max align smallPageSize)
  between : Between (l₁.getLastD cfg.dummyFirst) (l₂.headD cfg.dummyLast) r
  va : PageAligned r.va
  pos : 0 < r.va
  size : PageAligned r.size
  offset_lt : r.offset + r.size < 2 ^ cfg.bits
  inside : r.offset + r.size ≤ wrapRoundup cfg.bits smallPageSize r.mobj.size

theorem umapAddRegion_ok
    (h : umapAddRegion cfg s reg padBegin padEnd align = .ok (.ok (l₁, r, l₂))) :
    s.regions = l₁ ++ l₂ ∧ Placed cfg reg padBegin align r l₁ l₂ ∧ (l₂ = [] → s.tail = true) := by
  obtain ⟨-, e, he⟩ | ⟨hp, heq⟩ := umapAddRegion_cases cfg s reg padBegin padEnd align
  · rw [he] at h
    cases h
  rw [heq] at h
  have hg := GranuleOk.of_powerOfTwo hp.align
  cases hins : insertRegion cfg s.tail reg padBegin padEnd (max align smallPageSize) cfg.dummyFirst
      s.regions with
  | error e =>
    rw [hins] at h
    cases h
  | ok o =>
    rw [hins] at h
    cases o with
    | none => cases h
    | some place =>
      cases h
      obtain ⟨hl, hr, hb, hpos, ht⟩ := insertRegion_some hg hins
      refine ⟨hl, ⟨?_, ?_, hb, ?_, hpos, ?_, ?_, ?_⟩, ht⟩
      all_goals rw [hr]
      · exact PageAligned.beginVa hp.va hg
      · exact hp.size
      · exact hp.offset_lt
      · exact hp.inside

/-- The region can be placed. -/
def HasPlace (cfg : Config) (s : VmInfo) (reg : VmRegion) (padBegin padEnd align : ℕ) : Prop :=
  Placeable cfg reg padBegin padEnd align ∧
    ∃ g ∈ gaps cfg cfg.dummyFirst s.regions,
    Fits cfg g.1 g.2 reg padBegin padEnd (max align smallPageSize)

theorem umapAddRegion_tail (cfg : Config) (reg : VmRegion) (padBegin padEnd align : ℕ)
    (ht : s.tail = true) :
    ∃ o, umapAddRegion cfg s reg padBegin padEnd align = .ok o ∧
      (o.toBool = true ↔ HasPlace cfg s reg padBegin padEnd align) := by
  obtain ⟨hn, e, he⟩ | ⟨hp, heq⟩ := umapAddRegion_cases cfg s reg padBegin padEnd align
  · exact ⟨_, he, iff_of_false (by simp [Except.toBool]) fun h => hn h.1⟩
  · obtain ⟨o, ho, hsome⟩ :=
      insertRegion_tail cfg reg padBegin padEnd (max align smallPageSize) s.regions cfg.dummyFirst
    rw [heq, ht, ho]
    refine ⟨_, rfl, ?_⟩
    rw [HasPlace, ← hsome, and_iff_right hp]
    cases o <;> simp [Except.toBool]

end Optee.Vm
