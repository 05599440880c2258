import Mathlib
import Optee.TaElf

/-!
# What the property segment enables

The two tests for a record of the feature, whose payload is four bytes of the descriptor, are joined
by `&&`, and `confine_array_index` turns the end of the descriptor into its start.
-/

namespace Optee.TaElf

variable (elf : Elf)

/-! ## The format -/

/-- The next multiple of the alignment. -/
def Elf.up (v : ℕ) : ℕ := roundup elf.propAlign v

def Elf.desc : ℕ := elf.up 16

def Elf.descsz : ℕ := elf.mem.u32 4

/-- The segment is a note of the type of properties, with its descriptor and the padding after
it. -/
def IsNote : Prop :=
  elf.propStart ≠ 0 ∧ 16 ≤ elf.propMemsz ∧ elf.mem.u32 8 = NT_GNU_PROPERTY_TYPE_0
    ∧ elf.mem.u32 0 = 4
    ∧ elf.mem.read 12 4 = ELF_NOTE_GNU ∧ elf.up (elf.desc + elf.descsz) ≤ elf.propMemsz

/-- From one property on, another is reached. -/
inductive From : ℕ → ℕ → Prop
  | here {o : ℕ} (h : o + 8 ≤ elf.descsz) : From o o
  | next {o x : ℕ} (h : o + 8 ≤ elf.descsz)
  (hx : From (o + elf.up (8 + prDatasz elf elf.desc o)) x) : From o x

/-- The property is about features. -/
abbrev Feature (o : ℕ) : Prop := prType elf elf.desc o = GNU_PROPERTY_AARCH64_FEATURE_1_AND

/-- The payload of a record is four bytes of the descriptor. -/
def Fits (o : ℕ) : Prop := prDatasz elf elf.desc o = 4 ∧ o + 12 ≤ elf.descsz

/-- A property that is reached says that BTI is enabled. -/
def Enabled : Prop :=
  ∃ o, From elf 0 o ∧ Feature elf o ∧ Fits elf o ∧ elf.mem.u32 (elf.desc + (o + 8)) % 2 = 1

/-- The parser ends, reads only the segment, and finds what is enabled. -/
def Correct : Prop :=
  ∃ p, parsePropertySegment elf = some p ∧ (∀ r ∈ p.reads, r.1 + r.2 ≤ elf.propMemsz)
    ∧ (p.btiEnabled = true ↔ IsNote elf ∧ Enabled elf)

/-! ## The loop -/

/-- The offset that is read for a property. -/
abbrev word (o : ℕ) : ℕ := confineArrayIndex (o + 8) elf.descsz

/-- A record has its payload read. -/
def Loads (o : ℕ) : Prop :=
  Feature elf o ∧ ¬ (elf.descsz < word elf o + 4 ∧ prDatasz elf elf.desc o ≠ 4)

/-- The word that is read has the bit. -/
abbrev Bit (o : ℕ) : Prop := elf.mem.u32 (elf.desc + word elf o) % 2 = 1

/-- A word that is read for a payload that is not four bytes of the descriptor is in the segment and
does not have the bit set, unless another record has. -/
def Tidy : Prop :=
  ∀ o, From elf 0 o → Loads elf o → ¬ Fits elf o →
    elf.desc + word elf o + 4 ≤ elf.propMemsz ∧ (Bit elf o → Enabled elf)

variable {elf}

theorem exists_from {o : ℕ} {P : ℕ → Prop} (h : o + 8 ≤ elf.descsz) :
    (∃ x, From elf o x ∧ P x) ↔ P o ∨ ∃ x, From elf (o + elf.up (8 + prDatasz elf elf.desc o)) x
      ∧ P x := by
  constructor
  · rintro ⟨x, hx, hP⟩
    cases hx with
    | here => exact .inl hP
    | next _ hx => exact .inr ⟨x, hx, hP⟩
  · rintro (hP | ⟨x, hx, hP⟩)
    · exact ⟨o, .here h, hP⟩
    · exact ⟨x, .next h hx, hP⟩

theorem From.le_start {o x : ℕ} (h : From elf o x) : o + 8 ≤ elf.descsz := by
  cases h <;> assumption

theorem not_from {o : ℕ} {P : ℕ → Prop} (h : elf.descsz < o + 8) : ¬ ∃ x, From elf o x ∧ P x := by
  rintro ⟨x, hx, -⟩
  have := hx.le_start
  omega

theorem From.le {o x : ℕ} (h : From elf o x) : x + 8 ≤ elf.descsz := by
  induction h with
  | here h => exact h
  | next _ _ ih => exact ih

theorem roundup_eq {v : ℕ} (h : v + elf.propAlign ≤ 2 ^ 64) (ha : 0 < elf.propAlign) :
    wrapRoundup 64 elf.propAlign v = elf.up v :=
  wrapRoundup_eq (by omega)

theorem u32_lt (m : ByteMem) (o : ℕ) : m.u32 o < 2 ^ 32 := by
  have h := ofLeBytes_lt (m.read o 4)
  rwa [ByteMem.length_read] at h

theorem loaded (f : Prop) [Decidable f] (p : Parsed) (b : Bool) (w x : ℕ × ℕ) :
    ((if f then ⟨p.btiEnabled || b, w :: x :: p.reads⟩
      else { p with reads := x :: p.reads } : Parsed).btiEnabled = true
      ↔ p.btiEnabled = true ∨ f ∧ b = true)
    ∧ ∀ r, r ∈ (if f then ⟨p.btiEnabled || b, w :: x :: p.reads⟩
      else { p with reads := x :: p.reads } : Parsed).reads
      ↔ r ∈ p.reads ∨ r = x ∨ f ∧ r = w := by
  split_ifs with hf
  · exact ⟨by simp [hf], fun r => by simp [hf]; tauto⟩
  · exact ⟨by simp [hf], fun r => by simp [hf, or_comm]⟩

theorem parseRecords_spec (ha : 0 < elf.propAlign) (halt : elf.propAlign < 2 ^ 63) :
    ∀ (rounds o : ℕ) (p : Parsed), elf.descsz < o + rounds → o ≤ elf.descsz →
      ∃ p', parseRecords elf elf.desc elf.descsz rounds o p = some p'
        ∧ (p'.btiEnabled = true ↔ p.btiEnabled = true ∨ ∃ x, From elf o x ∧ Loads elf x ∧ Bit elf x)
        ∧ ∀ r, r ∈ p'.reads ↔ r ∈ p.reads ∨ ∃ x, From elf o x ∧
          (r = (elf.desc + x, 8) ∨ Loads elf x ∧ r = (elf.desc + word elf x, 4))
  | 0, o, p, h, ho => by omega
  | rounds + 1, o, p, h, ho => by
    rw [parseRecords]
    by_cases hend : elf.descsz < o + 8
    · rw [if_pos hend]
      exact ⟨p, rfl, by simp [not_from hend], by simp [not_from hend]⟩
    have hin : o + 8 ≤ elf.descsz := Nat.not_lt.1 hend
    have hsz : elf.descsz < 2 ^ 32 := u32_lt _ _
    have hdata : prDatasz elf elf.desc o < 2 ^ 32 := u32_lt _ _
    have hup : 8 + prDatasz elf elf.desc o ≤ elf.up (8 + prDatasz elf elf.desc o) := le_roundup ha
    have hupper : elf.up (8 + prDatasz elf elf.desc o)
        ≤ 8 + prDatasz elf elf.desc o + (elf.propAlign - 1) :=
      Nat.div_mul_le_self _ _
    have hnext : (o + wrapRoundup 64 elf.propAlign (8 + prDatasz elf elf.desc o)) % 2 ^ 64
        = o + elf.up (8 + prDatasz elf elf.desc o) := by
      rw [roundup_eq (by omega) ha, Nat.mod_eq_of_lt (by omega)]
    have hword : word elf o = o + 8 ∨ word elf o = 0 := by
      unfold word confineArrayIndex
      split <;> simp
    rw [if_neg hend, exists_from hin]
    simp only [hnext, exists_from hin]
    by_cases hstop : Feature elf o ∧ elf.descsz < word elf o + 4 ∧ prDatasz elf elf.desc o ≠ 4
    · -- no record fits after one whose payload does not
      have hloads : ¬ Loads elf o := fun h => h.2 hstop.2
      have hnone : elf.descsz < o + elf.up (8 + prDatasz elf elf.desc o) + 8 := by omega
      rw [if_pos hstop]
      exact ⟨_, rfl, by simp [hloads, not_from hnone],
        fun r => by simp [hloads, not_from hnone, or_comm]⟩
    · have hloads : Loads elf o ↔ Feature elf o :=
        ⟨And.left, fun hf => ⟨hf, fun h => hstop ⟨hf, h⟩⟩⟩
      rw [if_neg hstop]
      obtain ⟨hbti, hreads⟩ := loaded (Feature elf o) p (decide (Bit elf o)) (elf.desc + word elf o,
        4) (elf.desc + o, 8)
      generalize (if Feature elf o then _ else _ : Parsed) = p₁ at hbti hreads ⊢
      rw [← hloads, decide_eq_true_eq] at hbti
      rw [← hloads] at hreads
      split_ifs with hmore
      · obtain ⟨p', hp', hbti', hreads'⟩ :=
          parseRecords_spec ha halt rounds _ p₁ (by omega) hmore.le
        exact ⟨p', hp', by rw [hbti', hbti, or_assoc], fun r => by rw [hreads', hreads, or_assoc]⟩
      · have hnone : elf.descsz < o + elf.up (8 + prDatasz elf elf.desc o) + 8 := by omega
        exact ⟨p₁, rfl, by simp [hbti, not_from hnone], fun r => by simp [hreads, not_from hnone]⟩

/-! ## The segment -/

section Segment

variable (hcheck : checkPhdrInRange elf = true) {a : ℕ} (ha : a < 64)
  (halign : elf.propAlign = 2 ^ a)

include halign in
theorem align_pos : 0 < elf.propAlign := halign ▸ Nat.two_pow_pos a

include hcheck in
theorem memsz_lt : elf.propMemsz < 2 ^ 63 := by
  have := elf.max_lt
  simp only [checkPhdrInRange, Bool.and_eq_true, decide_eq_true_eq] at hcheck
  omega

include ha halign in
theorem roundup_desc : wrapRoundup 64 elf.propAlign 16 = elf.desc := by
  have : 2 ^ a ≤ 2 ^ 63 := Nat.pow_le_pow_right (by decide) (by omega)
  exact roundup_eq (by omega) (align_pos halign)

include hcheck halign in
theorem align_le (h : elf.desc ≤ elf.propMemsz) : elf.propAlign ≤ 2 ^ 62 := by
  have hpos := align_pos halign
  have hle : elf.propAlign ≤ elf.desc :=
    Nat.le_mul_of_pos_left _ (Nat.div_pos (by omega) hpos)
  have hlt : 2 ^ a < 2 ^ 63 := by
    have := memsz_lt hcheck
    omega
  rw [halign]
  exact Nat.pow_le_pow_right (by decide)
    (Nat.le_of_lt_succ ((Nat.pow_lt_pow_iff_right (by decide)).1 hlt))

include hcheck halign in
theorem roundup_end (h : elf.desc ≤ elf.propMemsz) :
    wrapRoundup 64 elf.propAlign (elf.desc + elf.mem.u32 4) = elf.up (elf.desc + elf.descsz) := by
  have := memsz_lt hcheck
  have := align_le hcheck halign h
  have := u32_lt elf.mem 4
  exact roundup_eq (by omega) (align_pos halign)

theorem IsNote.desc_le (h : IsNote elf) (hpos : 0 < elf.propAlign) :
    elf.desc + elf.descsz ≤ elf.propMemsz :=
  (le_roundup hpos).trans h.2.2.2.2.2

include hcheck ha halign in
theorem parse_note (h : IsNote elf) : parsePropertySegment elf
    = parseRecords elf elf.desc elf.descsz (elf.descsz + 1) 0 ⟨false, [(0, 16)]⟩ := by
  have hdesc : elf.desc ≤ elf.propMemsz := Nat.le_of_add_right_le (h.desc_le (align_pos halign))
  obtain ⟨hstart, h16, htype, hname, hgnu, hend⟩ := h
  have hpow : isPowerOfTwo elf.propAlign = true := by simp [isPowerOfTwo, halign]
  rw [parsePropertySegment, if_neg (by omega)]
  simp only [htype, hname, hgnu, hpow, roundup_desc ha halign, roundup_end hcheck halign hdesc]
  rw [if_neg (by simp), if_neg (by omega)]
  rfl

include hcheck ha halign in
theorem parse_other (h : ¬ IsNote elf) :
    ∃ p, parsePropertySegment elf = some p ∧ p.btiEnabled = false
    ∧ ∀ r ∈ p.reads, r.1 + r.2 ≤ elf.propMemsz := by
  rw [parsePropertySegment]
  dsimp only
  split_ifs with hsmall hhead hdesc
  · exact ⟨_, rfl, rfl, by simp⟩
  · exact ⟨_, rfl, rfl, by simp; omega⟩
  · exact ⟨_, rfl, rfl, by simp; omega⟩
  · rw [not_or, Nat.not_lt, roundup_desc ha halign] at hdesc
    rw [roundup_end hcheck halign hdesc.1] at hdesc
    simp only [not_or, not_not] at hsmall hhead
    exact absurd ⟨hsmall.1, by omega, hhead.1, hhead.2.1, hhead.2.2.1, by omega⟩ h

end Segment

theorem Fits.word_eq {o : ℕ} (h : Fits elf o) : word elf o = o + 8 := if_pos (by have := h.2; omega)

theorem Fits.loads {o : ℕ} (h : Fits elf o) (hf : Feature elf o) : Loads elf o :=
  ⟨hf, fun hn => hn.2 h.1⟩

/-- The property segment is parsed as it should be exactly if a note leaves no word to be read for a
payload that is not in it or enables what no record does. -/
theorem property_parsed_iff (elf : Elf) (a : ℕ) (ha : a < 64) (halign : elf.propAlign = 2 ^ a)
    (hcheck : checkPhdrInRange elf = true) : Correct elf ↔ (IsNote elf → Tidy elf) := by
  by_cases hnote : IsNote elf
  swap
  · obtain ⟨p, hp, hbti, hreads⟩ := parse_other hcheck ha halign hnote
    exact ⟨fun _ h => absurd h hnote, fun _ => ⟨p, hp, hreads, by simp [hbti, hnote]⟩⟩
  have hend := hnote.desc_le (align_pos halign)
  have hal := align_le hcheck halign (Nat.le_of_add_right_le hend)
  have hsmall : elf.propAlign < 2 ^ 63 := by omega
  obtain ⟨p, hp, hbti, hreads⟩ :=
    parseRecords_spec (align_pos halign) hsmall (elf.descsz + 1) 0 ⟨false, [(0, 16)]⟩ (by omega)
      (Nat.zero_le _)
  rw [← parse_note hcheck ha halign hnote] at hp
  simp only [Bool.false_eq_true, false_or] at hbti
  constructor
  · rintro ⟨q, hq, hinside, henabled⟩ -
    cases hp.symm.trans hq
    intro o ho hl _
    refine ⟨hinside _ ((hreads _).2 (.inr ⟨o, ho, .inr ⟨hl, rfl⟩⟩)), fun hbit => ?_⟩
    exact (henabled.1 (hbti.2 ⟨o, ho, hl, hbit⟩)).2
  · intro htidy
    refine ⟨p, hp, fun r hr => ?_, hbti.trans ⟨?_, ?_⟩⟩
    · rcases (hreads r).1 hr with hr | ⟨o, ho, rfl | ⟨hl, rfl⟩⟩
      · have := hnote.2.1
        simp only [List.mem_singleton] at hr
        subst hr
        exact this
      · have := ho.le
        show elf.desc + o + 8 ≤ elf.propMemsz
        omega
      · by_cases hfits : Fits elf o
        · have := hfits.2
          show elf.desc + word elf o + 4 ≤ elf.propMemsz
          rw [hfits.word_eq]
          omega
        · exact (htidy hnote o ho hl hfits).1
    · rintro ⟨o, ho, hl, hbit⟩
      refine ⟨hnote, ?_⟩
      by_cases hfits : Fits elf o
      · exact ⟨o, ho, hl.1, hfits, by rwa [Bit, hfits.word_eq] at hbit⟩
      · exact (htidy hnote o ho hl hfits).2 hbit
    · rintro ⟨-, o, ho, hf, hfits, hbit⟩
      exact ⟨o, ho, hfits.loads hf, by rwa [Bit, hfits.word_eq]⟩

/-- A segment with one record, of the feature, with a payload of 8 bytes that the size in the record
may tell. -/
def segment (datasz : UInt8) : Elf :=
  ⟨0x10000, 0x20000, 0x1000, 32, 8, .ofList ([4, 0, 0, 0, 16, 0, 0, 0, 5, 0, 0, 0] ++ ELF_NOTE_GNU
    ++ [0, 0, 0, 0xc0, datasz, 0, 0, 0, 1, 0, 0, 0, 0, 0, 0, 0]) fun _ => 0,
    by decide, by decide⟩

theorem property_parsed_four : Correct (segment 4) := by
  refine (property_parsed_iff (segment 4) 3 (by decide) rfl (by decide)).2 fun _ o ho _ hfits => ?_
  cases ho with
  | here => exact absurd (show Fits (segment 4) 0 from ⟨by decide +kernel, by decide +kernel⟩) hfits
  | next _ hx => exact absurd hx.le_start (by decide +kernel)

/-- A payload of eight bytes enables the feature. -/
theorem property_misread : checkPhdrInRange (segment 8) = true ∧ ¬ Correct (segment 8) := by
  refine ⟨by decide, ?_⟩
  rintro ⟨p, hp, -, hbti⟩
  have hbti' : (parsePropertySegment (segment 8)).map Parsed.btiEnabled = some true := by
    decide +kernel
  rw [hp, Option.map_some, Option.some.injEq] at hbti'
  obtain ⟨-, o, ho, -, hfits, -⟩ := hbti.1 hbti'
  cases ho with
  | here => exact absurd hfits.1 (by decide +kernel)
  | next _ hx => exact absurd hx.le_start (by decide +kernel)

end Optee.TaElf
