import Mathlib
import Optee.Ffa

/-!
# Page lists of shared memory

The entries of a memory object should be the pages that the ranges of the descriptor name, each a
whole page of non-secure memory (`PagesGood`). For that the ranges have to be at page boundaries and
of less than 4 GiB, which is not checked (`RangeSound`).
-/

namespace Optee.Ffa

variable {mem : Memory} {obj obj' : PageList} {idx idx' total : ℕ} {range : AddressRange}

theorem readMemTransaction_eq {version11 : Bool} {buf : Buffer} {blen : ℕ}
    {memTrans : MemTransaction} (h : readMemTransaction version11 buf blen = .ok memTrans) :
    memTrans = rawTransaction version11 buf := by
  simp only [readMemTransaction] at h
  split_ifs at h
  cases h
  rfl

theorem length_pagesOf (mem : Memory) (range : AddressRange) :
    (mem.pagesOf range).length = range.pageCount := by
  simp [Memory.pagesOf]

/-- The pages of all ranges. -/
def pageSum (ranges : List AddressRange) : ℕ := (ranges.map AddressRange.pageCount).sum

theorem length_flatMap_pagesOf (mem : Memory) (ranges : List AddressRange) :
    (ranges.flatMap mem.pagesOf).length = pageSum ranges := by
  simp [List.length_flatMap, length_pagesOf, pageSum]

theorem pageSum_append (l₁ l₂ : List AddressRange) :
    pageSum (l₁ ++ l₂) = pageSum l₁ + pageSum l₂ := by
  simp [pageSum]

/-- The list has the pages of its ranges up to the index, and nothing behind them. -/
structure Filled (mem : Memory) (obj : PageList) (idx : ℕ) : Prop where
  index : idx = pageSum obj.ranges
  room : idx ≤ obj.numPages
  pages : obj.pages = (obj.ranges.flatMap mem.pagesOf).map some
    ++ List.replicate (obj.numPages - idx) none
  checked : ∀ range ∈ obj.ranges, mem.pbufIsNonSec (range.address % 2 ^ mem.paddrBits)
    (range.pageCount * smallPageSize % 2 ^ 32) = true

theorem filled_new (mem : Memory) (n : ℕ) : Filled mem (.new n) 0 :=
  ⟨rfl, Nat.zero_le _, by simp [PageList.new], nofun⟩

theorem writePages_append (done new : List ℕ) (n : ℕ) :
    writePages (done.map some ++ List.replicate n none) done.length new
      = (done ++ new).map some ++ List.replicate (n - new.length) none := by
  rw [writePages, List.take_left' (by simp), List.drop_append, List.drop_eq_nil_of_le (by simp),
    List.nil_append, List.map_append, List.drop_replicate]
  simp

theorem Filled.addPages (h : Filled mem obj idx) (htotal : total ≤ obj.numPages)
    (hadd : obj.addPages mem total idx range = some (obj', idx')) :
    Filled mem obj' idx' ∧ obj'.numPages = obj.numPages ∧ obj'.ranges = obj.ranges ++ [range] := by
  rw [PageList.addPages] at hadd
  split_ifs at hadd with hroom hsec
  cases hadd
  have hlength := length_flatMap_pagesOf mem obj.ranges
  rw [← h.index] at hlength
  refine ⟨⟨?_, ?_, ?_, fun r hr => ?_⟩, rfl, rfl⟩
  · simp [h.index, pageSum]
  · change idx + range.pageCount ≤ obj.numPages
    omega
  · change writePages obj.pages idx (mem.pagesOf range) = _
    rw [h.pages, ← hlength, writePages_append, length_pagesOf, List.flatMap_append,
      List.flatMap_singleton, Nat.sub_sub]
  · rcases List.mem_append.1 hr with hr | hr
    · exact h.checked r hr
    · rw [List.mem_singleton.1 hr]
      simpa using hsec

variable {ranges : List AddressRange}

theorem Filled.foldRanges {count : PageList → ℕ} (hcount : ∀ obj, count obj ≤ obj.numPages)
    (h : Filled mem obj idx)
    (hadd : foldRanges (fun obj => obj.addPages mem (count obj)) obj idx ranges
      = some (obj', idx')) :
    Filled mem obj' idx' ∧ obj'.numPages = obj.numPages ∧ obj'.ranges = obj.ranges ++ ranges := by
  induction ranges generalizing obj idx with
  | nil =>
    cases hadd
    exact ⟨h, rfl, (List.append_nil _).symm⟩
  | cons range ranges ih =>
    obtain ⟨⟨obj₁, idx₁⟩, hfirst, hrest⟩ := Option.bind_eq_some_iff.1 hadd
    obtain ⟨h₁, hnum, hranges⟩ := h.addPages (hcount obj) hfirst
    obtain ⟨h', hnum', hranges'⟩ := ih h₁ hrest
    exact ⟨h', hnum'.trans hnum,
      by rw [hranges', hranges, List.append_assoc, List.singleton_append]⟩

theorem ffaPageCount_le (obj : PageList) : obj.ffaPageCount ≤ obj.numPages := by
  rw [PageList.ffaPageCount, smallPageSize]
  omega

theorem spPageCount_le (mem : Memory) (obj : PageList) : obj.spPageCount mem ≤ obj.numPages := by
  rw [PageList.spPageCount]
  exact Nat.div_le_of_le_mul ((Nat.mod_le _ _).trans (Nat.mul_comm _ _).le)

theorem foldRanges_append {add : PageList → ℕ → AddressRange → Option (PageList × ℕ)}
    (l₁ l₂ : List AddressRange) :
    foldRanges add obj idx (l₁ ++ l₂)
      = (foldRanges add obj idx l₁).bind fun x => foldRanges add x.1 x.2 l₂ := by
  induction l₁ generalizing obj idx with
  | nil => rfl
  | cons range l₁ ih =>
    simp only [List.cons_append, Ffa.foldRanges, Option.bind_eq_bind]
    cases add obj idx range with
    | none => rfl
    | some x => exact ih

/-! ## The pages that are named -/

/-- The pages that ranges name, in order. -/
def namedPages (ranges : List AddressRange) : List ℕ :=
  ranges.flatMap fun r => (List.range r.pageCount).map fun n => r.address + n * smallPageSize

/-- The whole page is in non-secure memory. -/
def NonSecPage (mem : Memory) (p : ℕ) : Prop :=
  ∃ area ∈ mem.nonSec, area.1 ≤ p ∧ p + smallPageSize ≤ area.1 + area.2

/-- Each entry of the list is a whole non-secure page that was named at its place. -/
def PagesGood (mem : Memory) (named : List AddressRange) (obj : PageList) : Prop :=
  ∀ i < obj.numPages, ∃ p, obj.pages[i]? = some (some p) ∧ (namedPages named)[i]? = some p ∧
    p % smallPageSize = 0 ∧ NonSecPage mem p

/-- A range is page aligned, fits in `paddr_t`, and is not longer than what is checked. -/
structure RangeSound (mem : Memory) (r : AddressRange) : Prop where
  aligned : r.address % smallPageSize = 0
  narrow : r.address < 2 ^ mem.paddrBits
  large : 2 ^ 20 ≤ r.pageCount → r.pageCount = 2 ^ 20 ∧
    ∀ n < r.pageCount, NonSecPage mem (r.address + n * smallPageSize)

theorem last_eq {N x xl : ℕ} (hpos : 0 < xl) (hfits : x + xl ≤ N) :
    (x + N - 1 + xl) % N = x + xl - 1 := by
  rw [show x + N - 1 + xl = x + xl - 1 + N by omega, Nat.add_mod_right, Nat.mod_eq_of_lt (by omega)]

theorem last_lt {N x xl : ℕ} (hx : x < N) (hxl : xl ≤ N)
    (hwraps : N < x + xl) : (x + N - 1 + xl) % N < x := by
  rw [show x + N - 1 + xl = x + xl - 1 - N + N + N by omega, Nat.add_mod_right, Nat.add_mod_right,
    Nat.mod_eq_of_lt (by omega)]
  omega

theorem pbufIsNonSec_iff {pa len : ℕ} (hpa : pa < 2 ^ mem.paddrBits) (hpos : 0 < len)
    (hlen : len ≤ 2 ^ mem.paddrBits) :
    mem.pbufIsNonSec pa len = true
      ↔ ∃ area ∈ mem.nonSec, area.1 ≤ pa ∧ pa + len ≤ area.1 + area.2 := by
  simp only [Memory.pbufIsNonSec, Bool.or_eq_true, decide_eq_true_eq, List.any_eq_true,
    hpos.ne', false_or]
  refine exists_congr fun area => and_congr_right fun harea => ?_
  have hinside := mem.inside area harea
  simp only [Memory.bufferInside, Bool.and_eq_true, decide_eq_true_eq]
  refine ⟨fun ⟨⟨⟨⟨⟨hbuf, _⟩, _⟩, hal⟩, hstart⟩, hend⟩ => ?_, fun ⟨hstart, hend⟩ => ?_⟩
  · have hfits : pa + len ≤ 2 ^ mem.paddrBits := by
      by_contra hwraps
      exact absurd (last_lt hpa hlen (Nat.not_le.1 hwraps)) (Nat.not_lt.2 hbuf)
    rw [last_eq hpos hfits, last_eq (Nat.pos_of_ne_zero hal) hinside] at hend
    omega
  · rw [last_eq hpos (by omega), last_eq (by omega) hinside]
    omega

theorem nonSecPage_of_checked {r : AddressRange} {n : ℕ} (hsmall : r.pageCount < 2 ^ 20)
    (hn : n < r.pageCount)
    (h : mem.pbufIsNonSec (r.address % 2 ^ mem.paddrBits) (r.pageCount * smallPageSize % 2 ^ 32)
      = true) :
    r.address % 2 ^ mem.paddrBits + n * smallPageSize + smallPageSize ≤ 2 ^ mem.paddrBits ∧
      NonSecPage mem (r.address % 2 ^ mem.paddrBits + n * smallPageSize) := by
  have hbits : 2 ^ 32 ≤ 2 ^ mem.paddrBits := Nat.pow_le_pow_right (by omega) mem.bits
  have hlen : r.pageCount * smallPageSize % 2 ^ 32 = r.pageCount * smallPageSize :=
    Nat.mod_eq_of_lt (by rw [smallPageSize]; omega)
  rw [hlen, pbufIsNonSec_iff (Nat.mod_lt _ (Nat.two_pow_pos _)) (by rw [smallPageSize]; omega)
    (by rw [smallPageSize]; omega)] at h
  obtain ⟨area, harea, hstart, hend⟩ := h
  have hinside := mem.inside area harea
  rw [smallPageSize] at *
  exact ⟨by omega, area, harea, by omega, by rw [smallPageSize]; omega⟩

theorem pagesOf_eq_iff {r : AddressRange}
    (h : mem.pbufIsNonSec (r.address % 2 ^ mem.paddrBits) (r.pageCount * smallPageSize % 2 ^ 32)
      = true) :
    (mem.pagesOf r = namedPages [r] ∧ ∀ p ∈ namedPages [r], p % smallPageSize = 0
      ∧ NonSecPage mem p) ↔
      (r.pageCount ≠ 0 → RangeSound mem r) := by
  have hnamed : ∀ p, p ∈ namedPages [r]
      ↔ ∃ n < r.pageCount, r.address + n * smallPageSize = p := fun p => by
    simp [namedPages]
  have heq : mem.pagesOf r = namedPages [r] ↔ ∀ n < r.pageCount,
      (r.address % 2 ^ mem.paddrBits + n * smallPageSize % 2 ^ 32) % 2 ^ mem.paddrBits
        = r.address + n * smallPageSize := by
    simp only [Memory.pagesOf, namedPages, List.flatMap_singleton, List.map_inj_left,
      List.mem_range]
  rw [heq]
  simp only [hnamed]
  constructor
  · rintro ⟨hpages, hgood⟩ hpos
    have hfirst := hpages 0 (Nat.pos_of_ne_zero hpos)
    rw [Nat.zero_mul, Nat.zero_mod, Nat.add_zero, Nat.mod_mod, Nat.add_zero] at hfirst
    refine ⟨?_, hfirst ▸ Nat.mod_lt _ (Nat.two_pow_pos _), fun hlarge => ⟨?_, fun n hn => ?_⟩⟩
    · have := (hgood r.address ⟨0, Nat.pos_of_ne_zero hpos, by omega⟩).1
      exact this
    · -- the entry after 4 GiB starts again at the first page
      by_contra hne
      have hwraps := hpages (2 ^ 20) (by omega)
      rw [hfirst, smallPageSize, show 2 ^ 20 * 4096 % 2 ^ 32 = 0 by decide, Nat.add_zero,
        hfirst] at hwraps
      omega
    · exact (hgood _ ⟨n, hn, rfl⟩).2
  · intro hsound
    have hpage : ∀ n < r.pageCount, r.address + n * smallPageSize + smallPageSize
      ≤ 2 ^ mem.paddrBits ∧
        NonSecPage mem (r.address + n * smallPageSize) ∧ n * smallPageSize < 2 ^ 32 := by
      intro n hn
      obtain ⟨-, hnarrow, hlarge⟩ := hsound (by omega)
      rcases Nat.lt_or_ge r.pageCount (2 ^ 20) with hsmall | hbig
      · have := nonSecPage_of_checked hsmall hn h
        rw [Nat.mod_eq_of_lt hnarrow] at this
        exact ⟨this.1, this.2, by rw [smallPageSize]; omega⟩
      · obtain ⟨hcount, hall⟩ := hlarge hbig
        obtain ⟨area, harea, hstart, hend⟩ := hall n hn
        exact ⟨hend.trans (mem.inside area harea), ⟨area, harea, hstart, hend⟩,
          by rw [smallPageSize]; omega⟩
    refine ⟨fun n hn => ?_, ?_⟩
    · obtain ⟨hfits, -, hindex⟩ := hpage n hn
      rw [Nat.mod_eq_of_lt (hsound (by omega)).narrow, Nat.mod_eq_of_lt hindex,
        Nat.mod_eq_of_lt (by rw [smallPageSize] at *; omega)]
    · rintro p ⟨n, hn, rfl⟩
      refine ⟨?_, (hpage n hn).2.1⟩
      rw [Nat.add_mul_mod_self_right]
      exact (hsound (by omega)).aligned

theorem length_namedPages (ranges : List AddressRange) :
    (namedPages ranges).length = pageSum ranges := by
  simp [namedPages, List.length_flatMap, pageSum]

theorem mem_namedPages {p : ℕ} : p ∈ namedPages ranges ↔ ∃ r ∈ ranges, p ∈ namedPages [r] := by
  simp [namedPages]

theorem flatMap_pagesOf_eq_iff :
    ranges.flatMap mem.pagesOf = namedPages ranges
      ↔ ∀ r ∈ ranges, mem.pagesOf r = namedPages [r] := by
  induction ranges with
  | nil => simp [namedPages]
  | cons r ranges ih =>
    have hcons : namedPages (r :: ranges) = namedPages [r] ++ namedPages ranges := by
      simp [namedPages]
    have hlen : (mem.pagesOf r).length = (namedPages [r]).length := by
      rw [length_pagesOf, length_namedPages]
      simp [pageSum]
    rw [List.flatMap_cons, hcons, List.forall_mem_cons, ← ih]
    refine ⟨fun h => List.append_inj h hlen, fun ⟨hfirst, hrest⟩ => ?_⟩
    rw [hfirst, hrest]

theorem pagesGood_iff_eq {named others : List AddressRange} (hfilled : Filled mem obj idx)
    (hranges : obj.ranges = named ++ others) :
    PagesGood mem named obj ↔ pageSum obj.ranges = obj.numPages ∧ pageSum others = 0 ∧
      named.flatMap mem.pagesOf = namedPages named ∧
      ∀ p ∈ namedPages named, p % smallPageSize = 0 ∧ NonSecPage mem p := by
  have hindex := hfilled.index
  have hroom := hfilled.room
  have hsum : pageSum obj.ranges = pageSum named + pageSum others := by rw [hranges, pageSum_append]
  have hlength := length_flatMap_pagesOf mem obj.ranges
  have hnamed := length_namedPages named
  constructor
  · intro hgood
    have hall : pageSum obj.ranges = obj.numPages := by
      by_contra hne
      obtain ⟨p, hp, -⟩ := hgood idx (by omega)
      rw [hfilled.pages, List.getElem?_append_right (by simp [hlength, hindex])] at hp
      simp [List.getElem?_replicate] at hp
    have hothers : pageSum others = 0 := by
      by_contra hne
      obtain ⟨p, -, hp, -⟩ := hgood (pageSum named) (by omega)
      rw [List.getElem?_eq_none (by omega)] at hp
      cases hp
    have hnil : others.flatMap mem.pagesOf = [] :=
      List.eq_nil_of_length_eq_zero ((length_flatMap_pagesOf mem others).trans hothers)
    have hentries : obj.pages = (named.flatMap mem.pagesOf).map some := by
      rw [hfilled.pages, hindex, hall, Nat.sub_self, List.replicate_zero, List.append_nil, hranges,
        List.flatMap_append, hnil, List.append_nil]
    refine ⟨hall, hothers, List.ext_getElem? fun i => ?_, fun p hp => ?_⟩
    · rcases Nat.lt_or_ge i obj.numPages with hi | hi
      · obtain ⟨p, hp, hp', -⟩ := hgood i hi
        rw [hentries, List.getElem?_map] at hp
        obtain ⟨q, hq, hqp⟩ := Option.map_eq_some_iff.1 hp
        rw [hq, hp', hqp]
      · rw [List.getElem?_eq_none (by rw [length_flatMap_pagesOf]; omega),
          List.getElem?_eq_none (by omega)]
    · obtain ⟨i, hi, rfl⟩ := List.mem_iff_getElem.1 hp
      obtain ⟨q, -, hq, hok⟩ := hgood i (by omega)
      rw [List.getElem?_eq_getElem hi] at hq
      exact Option.some.inj hq ▸ hok
  · rintro ⟨hall, hothers, hpages, hok⟩ i hi
    have hnil : others.flatMap mem.pagesOf = [] :=
      List.eq_nil_of_length_eq_zero ((length_flatMap_pagesOf mem others).trans hothers)
    have hlt : i < (namedPages named).length := by omega
    refine ⟨(namedPages named)[i], ?_, List.getElem?_eq_getElem hlt, hok _ (List.getElem_mem hlt)⟩
    rw [hfilled.pages, hranges, List.flatMap_append, hnil, List.append_nil, hpages,
      List.getElem?_append_left (by simpa using hlt), List.getElem?_map,
      List.getElem?_eq_getElem hlt, Option.map_some]

theorem pagesGood_iff {named others : List AddressRange} (hfilled : Filled mem obj idx)
    (hranges : obj.ranges = named ++ others) :
    PagesGood mem named obj ↔ pageSum obj.ranges = obj.numPages ∧ pageSum others = 0 ∧
      ∀ r ∈ obj.ranges, r.pageCount ≠ 0 → RangeSound mem r := by
  rw [pagesGood_iff_eq hfilled hranges, flatMap_pagesOf_eq_iff]
  refine and_congr_right fun _ => and_congr_right fun hothers => ?_
  have hmem : ∀ r ∈ named, r ∈ obj.ranges := fun r hr => hranges ▸ List.mem_append_left _ hr
  have heach : ∀ r ∈ named, ((mem.pagesOf r = namedPages [r] ∧
      ∀ p ∈ namedPages [r], p % smallPageSize = 0 ∧ NonSecPage mem p) ↔
      (r.pageCount ≠ 0 → RangeSound mem r)) := fun r hr =>
    pagesOf_eq_iff (hfilled.checked r (hmem r hr))
  constructor
  · rintro ⟨hpages, hok⟩ r hr
    rw [hranges] at hr
    rcases List.mem_append.1 hr with hr | hr
    · exact (heach r hr).1 ⟨hpages r hr, fun p hp => hok p (mem_namedPages.2 ⟨r, hr, hp⟩)⟩
    · have hzero : r.pageCount = 0 := List.sum_eq_zero_iff.1 hothers _ (List.mem_map_of_mem hr)
      exact fun hne => absurd hzero hne
  · intro hsound
    refine ⟨fun r hr => ((heach r hr).2 (hsound r (hmem r hr))).1, fun p hp => ?_⟩
    obtain ⟨r, hr, hp⟩ := mem_namedPages.1 hp
    exact ((heach r hr).2 (hsound r (hmem r hr))).2 p hp

end Optee.Ffa
