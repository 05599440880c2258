import Mathlib
import Optee.Lib.Run
import Optee.Otp

/-!
# The anti-rollback counter is kept

Each copy of the counter is a string of ones after every register that is programmed (`Holds`), and
the copies are written in order, so that none is behind the next (`Inv`). So it is lost only where
the copies that can be read differ.
-/

namespace Optee.Otp

variable {mem mem' : Mem} {copies : ℕ → ℕ} {value v k : ℕ} {unreadable : Option (Fin 3)}

/-! ## Strings of ones -/

/-- The register `j` of a counter with the value `c`, a one for each step. -/
def regOf (c j : ℕ) : ℕ := 2 ^ min 32 (c - 32 * j) - 1

/-- The register `j` as it is when `count` of its bits were shifted out. -/
def shiftedReg (c count j : ℕ) : ℕ := 2 ^ (min 32 (c - 32 * j) - min 32 (count - 32 * j)) - 1

theorem shiftedReg_zero (c j : ℕ) : shiftedReg c 0 j = regOf c j := by simp [shiftedReg, regOf]

theorem or_ones (a b : ℕ) : (2 ^ a - 1) ||| (2 ^ b - 1) = 2 ^ max a b - 1 := by
  refine Nat.eq_of_testBit_eq fun i => ?_
  rw [Nat.testBit_or, Nat.testBit_two_pow_sub_one, Nat.testBit_two_pow_sub_one,
    Nat.testBit_two_pow_sub_one, ← Bool.decide_or]
  exact decide_eq_decide.2 (by omega)

theorem regOf_or (a b j : ℕ) : regOf a j ||| regOf b j = regOf (max a b) j := by
  rw [regOf, regOf, or_ones, regOf]
  congr 2
  omega

theorem half_ones {a : ℕ} (h : 0 < a) : (2 ^ a - 1) / 2 = 2 ^ (a - 1) - 1 := by
  obtain ⟨b, rfl⟩ := Nat.exists_eq_succ_of_ne_zero h.ne'
  rw [Nat.succ_sub_one, Nat.pow_succ]
  omega

/-- The nine registers of a copy. -/
def regsOf (f : ℕ → ℕ) : List ℕ := (List.range ROLLBACK_COUNTER_NUM_REGS).map f

theorem getD_regsOf {f : ℕ → ℕ} {j : ℕ} (h : j < 9) : (regsOf f).getD j 0 = f j := by
  rw [regsOf, List.getD_eq_getElem?_getD, List.getElem?_map, List.getElem?_range (by exact h)]
  rfl

theorem set_regsOf {f : ℕ → ℕ} (j x : ℕ) : (regsOf f).set j x = regsOf (Function.update f j x) := by
  refine List.ext_getElem? fun i => ?_
  rw [regsOf, regsOf, List.getElem?_set, List.getElem?_map, List.getElem?_map, List.length_map,
    List.length_range]
  by_cases hi : i < ROLLBACK_COUNTER_NUM_REGS
  · rw [List.getElem?_range hi, Option.map_some, Option.map_some, Function.update_apply]
    by_cases hij : j = i
    · subst hij
      rw [if_pos rfl, if_pos hi, if_pos rfl]
    · rw [if_neg hij, if_neg (Ne.symm hij)]
  · rw [List.getElem?_eq_none (by rwa [List.length_range, ← Nat.not_lt])]
    split_ifs <;> first | rfl | omega

theorem countLoop_eq {c : ℕ} (hc : c ≤ 256) : ∀ rounds count, count ≤ c → c - count < rounds →
    countLoop rounds (regsOf (shiftedReg c count)) count (count / 32) = c
  | 0, _, _, h => absurd h (Nat.not_lt_zero _)
  | rounds + 1, count, hle, hlt => by
    have hindex : count / 32 < 9 := by omega
    rw [countLoop, getD_regsOf hindex]
    have hexp : min 32 (c - 32 * (count / 32)) - min 32 (count - 32 * (count / 32))
        = min 32 (c - 32 * (count / 32)) - count % 32 := by omega
    by_cases hdone : count = c
    · rw [if_pos]
      · exact hdone
      · rw [shiftedReg, hdone]
        simp
    · have hpos : 0 < min 32 (c - 32 * (count / 32)) - min 32 (count - 32 * (count / 32)) := by
        omega
      have hne : shiftedReg c count (count / 32) ≠ 0 := by
        have := Nat.one_lt_two_pow hpos.ne'
        rw [shiftedReg]
        omega
      have hregs :
        (regsOf (shiftedReg c count)).set (count / 32) (shiftedReg c count (count / 32) / 2)
          = regsOf (shiftedReg c (count + 1)) := by
        rw [set_regsOf]
        congr 1
        funext j
        rw [Function.update_apply]
        split_ifs with hj
        · subst hj
          rw [shiftedReg, half_ones hpos, shiftedReg]
          congr 2
          omega
        · rw [shiftedReg, shiftedReg]
          congr 2
          omega
      have hnext : (if (count + 1) % BITS_PER_OTP_REGISTER = 0 then count / 32 + 1 else count / 32)
          = (count + 1) / 32 := by
        rw [BITS_PER_OTP_REGISTER]
        split_ifs <;> omega
      simp only [if_neg hne, hregs, hnext]
      rw [if_neg (by rw [ROLLBACK_COUNTER_NUM_REGS, ROLLBACK_COUNTER_MAX_VALUE,
        BITS_PER_OTP_REGISTER]; omega)]
      exact countLoop_eq hc rounds (count + 1) (by omega) (by omega)

theorem counterRegs_eq (h : value ≤ 256) : counterRegs value = regsOf (regOf value) := by
  have hloop : ∀ n ≤ 256, (List.range n).foldl (fun (x : List ℕ × ℕ) i =>
      (x.1.set x.2 ((x.1.getD x.2 0 * 2 + 1) % 2 ^ 32),
        if (i + 1) % BITS_PER_OTP_REGISTER = 0 then x.2 + 1 else x.2))
      (List.replicate ROLLBACK_COUNTER_NUM_REGS 0, 0) = (regsOf (regOf n), n / 32) := by
    intro n
    induction n with
    | zero => exact fun _ => by decide
    | succ n ih =>
      intro hn
      rw [List.range_succ, List.foldl_append, ih (by omega), List.foldl_cons, List.foldl_nil,
        getD_regsOf (by omega), set_regsOf]
      congr 1
      · congr 1
        funext j
        rw [Function.update_apply]
        split_ifs with hj
        · subst hj
          have hold : min 32 (n - 32 * (n / 32)) = n % 32 := by omega
          have hnew : min 32 (n + 1 - 32 * (n / 32)) = n % 32 + 1 := by omega
          have hlt : 2 ^ (n % 32 + 1) ≤ 2 ^ 32 := Nat.pow_le_pow_right (by decide) (by omega)
          have hpos := Nat.two_pow_pos (n % 32)
          rw [regOf, regOf, hold, hnew, Nat.pow_succ] at *
          omega
        · rw [regOf, regOf]
          congr 2
          omega
      · rw [BITS_PER_OTP_REGISTER]
        split_ifs <;> omega
  exact congrArg Prod.fst (hloop value h)

/-! ## Copies -/

/-- The memory has these three copies. -/
def Holds (mem : Mem) (copies : ℕ → ℕ) : Prop :=
  ∀ n < 3, ∀ j < 9, mem (counterAddr n + j) = regOf (copies n) j

theorem copyValue_eq {n : ℕ} (h : Holds mem copies) (hn : n < 3) (hle : copies n ≤ 256) :
    copyValue mem n = copies n := by
  have hregs : (List.range ROLLBACK_COUNTER_NUM_REGS).map (fun i => mem (counterAddr n + i))
      = regsOf (shiftedReg (copies n) 0) := by
    refine List.map_congr_left fun j hj => ?_
    rw [shiftedReg_zero]
    exact h n hn j (List.mem_range.1 hj)
  rw [copyValue, hregs]
  exact countLoop_eq hle _ 0 (Nat.zero_le _)
    (by rw [ROLLBACK_COUNTER_NUM_REGS, ROLLBACK_COUNTER_MAX_VALUE, BITS_PER_OTP_REGISTER]; omega)

/-- A copy after some of its registers were written. -/
def grown (c value regs : ℕ) : ℕ := max c (min value (32 * min 9 regs))

/-- The copies after the first `k` registers of all were written. -/
def grownCopies (copies : ℕ → ℕ) (value k n : ℕ) : ℕ := grown (copies n) value (k - 9 * n)

theorem counterWrites_eq (h : value ≤ 256) : counterWrites value
    = (List.range 27).map fun k => (counterAddr (k / 9) + k % 9, regOf value (k % 9)) := by
  have hregs : ∀ i < 9, (counterRegs value).getD i 0 = regOf value i := fun i hi => by
    rw [counterRegs_eq h, getD_regsOf hi]
  have hwrites : counterWrites value
      = (List.range 27).map fun k =>
      (counterAddr (k / 9) + k % 9, (counterRegs value).getD (k % 9) 0) := rfl
  rw [hwrites]
  refine List.map_congr_left fun k _ => ?_
  rw [hregs _ (Nat.mod_lt _ (by decide))]

theorem counterAddr_inj {n n' j j' : ℕ} (hj : j < 9) (hj' : j' < 9)
    (h : counterAddr n + j = counterAddr n' + j') : n = n' ∧ j = j' := by
  rw [counterAddr, counterAddr, ROLLBACK_COUNTER_NUM_REGS, ROLLBACK_COUNTER_MAX_VALUE,
    BITS_PER_OTP_REGISTER] at h
  omega

theorem regOf_grown_congr {c value j q q' : ℕ} (h : q ≤ j ∧ q' ≤ j ∨ j < q ∧ j < q') :
    regOf (max c (min value (32 * q))) j = regOf (max c (min value (32 * q'))) j := by
  rw [regOf, regOf]
  congr 2
  rcases h with ⟨hq, hq'⟩ | ⟨hq, hq'⟩
  · have : ∀ q ≤ j, max c (min value (32 * q)) - 32 * j = c - 32 * j := by omega
    rw [this q hq, this q' hq']
  · have : ∀ q, j < q → min 32 (max c (min value (32 * q)) - 32 * j)
      = min 32 (max c value - 32 * j) := by omega
    rw [this q hq, this q' hq']

theorem Holds.take (h : Holds mem copies) (hv : value ≤ 256) (hk : k ≤ 27) :
    Holds (((counterWrites value).take k).foldl program mem) (grownCopies copies value k) := by
  induction k with
  | zero =>
    intro n hn j hj
    rw [List.take_zero, List.foldl_nil, h n hn j hj, grownCopies, grown]
    simp
  | succ k ih =>
    have ih := ih (by omega)
    have hwrite : (counterWrites value)[k]? = some (counterAddr (k / 9) + k % 9,
        regOf value (k % 9)) := by
      rw [counterWrites_eq hv, List.getElem?_map, List.getElem?_range (by omega)]
      rfl
    rw [List.take_add_one, hwrite, Option.toList_some, List.foldl_append, List.foldl_cons,
      List.foldl_nil]
    intro n hn j hj
    have hold := ih n hn j hj
    rw [program, Function.update_apply]
    split_ifs with haddr
    · dsimp only at haddr ⊢
      obtain ⟨hn', hj'⟩ := counterAddr_inj hj (Nat.mod_lt k (by decide)) haddr
      have hq : min 9 (k - 9 * n) = j := by omega
      have hq' : min 9 (k + 1 - 9 * n) = j + 1 := by omega
      rw [← haddr, hold, ← hj', regOf_or, regOf, regOf, grownCopies, grownCopies, grown,
        grown, hq, hq']
      congr 2
      clear * -
      omega
    · have hne : n ≠ k / 9 ∨ j ≠ k % 9 := by
        by_contra hcon
        rw [not_or, not_not, not_not] at hcon
        exact haddr (by rw [hcon.1, hcon.2])
      rw [hold, grownCopies, grownCopies, grown, grown]
      exact regOf_grown_congr (by omega)

theorem Holds.programs (h : Holds mem copies) (hv : value ≤ 256) (k : ℕ) :
    Holds (((counterWrites value).take k).foldl program mem) (grownCopies copies value k) := by
  rcases Nat.le_total k 27 with hk | hk
  · exact h.take hv hk
  · have hlength : (counterWrites value).length = 27 := by rw [counterWrites_eq hv]; simp
    have htake : (counterWrites value).take k = (counterWrites value).take 27 := by
      rw [List.take_of_length_le (by omega), List.take_of_length_le (by omega)]
    have hgrown : ∀ n < 3, grownCopies copies value k n = grownCopies copies value 27 n := by
      intro n hn
      rw [grownCopies, grownCopies, grown, grown]
      omega
    intro n hn j hj
    rw [htake, hgrown n hn]
    exact h.take hv le_rfl n hn j hj

/-! ## The counter -/

/-- The copies are in the order they are written in, and two neighbours agree. -/
structure Inv (mem : Mem) (copies : ℕ → ℕ) : Prop where
  holds : Holds mem copies
  le : copies 0 ≤ 256
  first : copies 1 ≤ copies 0
  second : copies 2 ≤ copies 1
  agree : copies 0 = copies 1 ∨ copies 1 = copies 2

def agree (copies : ℕ → ℕ) : Bool :=
  copies 0 = copies 1 || copies 0 = copies 2 || copies 1 = copies 2

/-- The copies that can be read agree, if one cannot. -/
def readOk (copies : ℕ → ℕ) : Option (Fin 3) → Bool
  | none => true
  | some 0 => copies 1 = copies 2
  | some 1 => copies 0 = copies 2
  | some 2 => copies 0 = copies 1

theorem Inv.copyValue (h : Inv mem copies) {n : ℕ} (hn : n < 3) : copyValue mem n = copies n := by
  have := h.le
  have := h.first
  have := h.second
  refine copyValue_eq h.holds hn ?_
  rcases (by omega : n = 0 ∨ n = 1 ∨ n = 2) with rfl | rfl | rfl <;> omega

theorem mostCommon_three {a b c : ℕ} (h : a = b ∨ b = c) (hab : b ≤ a) (hbc : c ≤ b) :
    getMostCommonValue [a, b, c] = (b, true) := by
  simp only [getMostCommonValue, mostCommonFrom]
  rcases h with rfl | rfl
  · by_cases hc : c = a <;> simp [hc]
  · by_cases hc : a = b <;> simp [hc, eq_comm]

theorem mostCommon_two (a b : ℕ) : getMostCommonValue [a, b] = (a, decide (a = b)) := by
  simp only [getMostCommonValue, mostCommonFrom]
  by_cases h : a = b <;> simp [h, eq_comm]

theorem getRollbackCounter_two {a b : ℕ}
    (h : (List.range ROLLBACK_COUNTER_NUM_COPIES).filterMap (getRollbackCounterN mem unreadable)
      = [a, b]) :
    getRollbackCounter mem unreadable = if a = b then some a else none := by
  rw [getRollbackCounter, h, mostCommon_two]
  by_cases hab : a = b <;> simp [hab]

section

variable (h : Inv mem copies)
include h

theorem Inv.getRollbackCounter (unreadable : Option (Fin 3)) :
    getRollbackCounter mem unreadable = if readOk copies unreadable then some (copies 1)
      else none := by
  have h0 := h.copyValue (n := 0) (by decide)
  have h1 := h.copyValue (n := 1) (by decide)
  have h2 := h.copyValue (n := 2) (by decide)
  have hsecond := h.second
  have hfirst := h.first
  have hrange : List.range ROLLBACK_COUNTER_NUM_COPIES = [0, 1, 2] := rfl
  match unreadable with
  | none =>
    have hcounters :
      (List.range ROLLBACK_COUNTER_NUM_COPIES).filterMap (getRollbackCounterN mem none)
        = [copies 0, copies 1, copies 2] := by
      rw [hrange]
      simp [getRollbackCounterN, h0, h1, h2]
    rw [Otp.getRollbackCounter, hcounters, mostCommon_three h.agree hfirst hsecond]
    rfl
  | some 0 =>
    rw [getRollbackCounter_two (a := copies 1) (b := copies 2)
      (by rw [hrange]; simp [getRollbackCounterN, h1, h2])]
    simp [readOk]
  | some 1 =>
    rw [getRollbackCounter_two (a := copies 0) (b := copies 2)
      (by rw [hrange]; simp [getRollbackCounterN, h0, h2])]
    by_cases heq : copies 0 = copies 2
    · have : copies 0 = copies 1 := by omega
      simp [readOk, ← heq, this]
    · simp [readOk, heq]
  | some 2 =>
    rw [getRollbackCounter_two (a := copies 0) (b := copies 1)
      (by rw [hrange]; simp [getRollbackCounterN, h0, h1])]
    by_cases heq : copies 0 = copies 1 <;> simp [readOk, heq]

/-! ## Updates -/

/-- The copies that can be read differ when the counter is read, or three different values are
left. -/
def Sound (h : History) (event : Event) : Prop :=
  readOk (copyValue h.mem) event.unreadable = true ∧
    match event with
    | .update value unreadable (some k) =>
      ∀ current ∈ getRollbackCounter h.mem unreadable, current < value →
        value ≤ ROLLBACK_COUNTER_MAX_VALUE →
        agree (grownCopies (copyValue h.mem) value k) = true
    | _ => True

theorem Inv.programs (hv : value ≤ 256) (hlt : copies 1 < value)
    (hagree : Otp.agree (grownCopies copies value k) = true) :
    Inv (((counterWrites value).take k).foldl program mem) (grownCopies copies value k) ∧
      (grownCopies copies value k 1 = copies 1 ∨ grownCopies copies value k 1 = value) := by
  have hle := h.le
  have hfirst := h.first
  have hsecond := h.second
  have hholds := h.holds.programs hv k
  simp only [Otp.agree, Bool.or_eq_true, decide_eq_true_eq] at hagree
  have h0 : grownCopies copies value k 0 = max (copies 0) (min value (32 * min 9 k)) := rfl
  have h1 : grownCopies copies value k 1 = max (copies 1) (min value (32 * min 9 (k - 9))) := rfl
  have h2 : grownCopies copies value k 2 = max (copies 2) (min value (32 * min 9 (k - 18))) := rfl
  exact ⟨⟨hholds, by omega, by omega, by omega, by omega⟩, by omega⟩

theorem Inv.update (hv : value ≤ 256) (hlt : copies 1 < value) :
    ∃ copies', Inv ((counterWrites value).foldl program mem) copies' ∧ copies' 1 = value := by
  have hsecond := h.second
  have h1 : grownCopies copies value 27 1 = max (copies 1) (min value (32 * 9)) := rfl
  have h2 : grownCopies copies value 27 2 = max (copies 2) (min value (32 * 9)) := rfl
  have heq : grownCopies copies value 27 1 = grownCopies copies value 27 2 := by omega
  have htake : (counterWrites value).take 27 = counterWrites value :=
    List.take_of_length_le (by rw [counterWrites_eq hv]; simp)
  have hinv := (h.programs (k := 27) hv hlt (by simp [Otp.agree, heq])).1
  rw [htake] at hinv
  exact ⟨_, hinv, by omega⟩

/-- The counter reads as `v`, whichever copy cannot be read. -/
def Reads (mem : Mem) (v : ℕ) : Prop :=
  ∀ unreadable, readOk (copyValue mem) unreadable = true →
    getRollbackCounter mem unreadable = some v

theorem Inv.readOk_copyValue (unreadable : Option (Fin 3)) :
    readOk (Otp.copyValue mem) unreadable = readOk copies unreadable := by
  have h0 := h.copyValue (n := 0) (by decide)
  have h1 := h.copyValue (n := 1) (by decide)
  have h2 := h.copyValue (n := 2) (by decide)
  match unreadable with
  | none => rfl
  | some 0 => simp only [readOk, h1, h2]
  | some 1 => simp only [readOk, h0, h2]
  | some 2 => simp only [readOk, h0, h1]

theorem Inv.reads : Reads mem (copies 1) := by
  intro unreadable hread
  rw [h.readOk_copyValue] at hread
  rw [h.getRollbackCounter, if_pos hread]

theorem Inv.agree_copyValue :
    Otp.agree (grownCopies (Otp.copyValue mem) value k)
      = Otp.agree (grownCopies copies value k) := by
  have hgrown : ∀ n < 3, grownCopies (Otp.copyValue mem) value k n
      = grownCopies copies value k n := by
    intro n hn
    rw [grownCopies, grownCopies, h.copyValue hn]
  rw [Otp.agree, Otp.agree, hgrown 0 (by decide), hgrown 1 (by decide), hgrown 2 (by decide)]

theorem Inv.completed (hread : readOk (Otp.copyValue mem) unreadable = true)
    (hle : copies 1 ≤ value) (hv : value ≤ 256) :
    ∃ mem', platSetEnforcementCounter mem unreadable value none = (mem', .success) ∧
      ∃ copies', Inv mem' copies' ∧ copies' 1 = value := by
  rw [platSetEnforcementCounter, h.reads unreadable hread]
  dsimp only
  rw [if_neg (Nat.not_lt.2 hle)]
  by_cases heq : value = copies 1
  · rw [if_pos heq]
    exact ⟨mem, rfl, copies, h, heq.symm⟩
  · rw [if_neg heq, setRollbackCounter, if_neg (by rw [ROLLBACK_COUNTER_MAX_VALUE]; omega)]
    exact ⟨_, rfl, h.update hv (by omega)⟩

theorem Inv.cut (hread : readOk (Otp.copyValue mem) unreadable = true) (hlt : copies 1 < value)
    (hv : value ≤ 256) (hagree : Otp.agree (grownCopies (Otp.copyValue mem) value k) = true) :
    ∃ mem', platSetEnforcementCounter mem unreadable value (some k) = (mem', .powerCut) ∧
      ∃ copies', Inv mem' copies' ∧ (copies' 1 = copies 1 ∨ copies' 1 = value) := by
  rw [platSetEnforcementCounter, h.reads unreadable hread]
  dsimp only
  rw [if_neg (Nat.not_lt.2 hlt.le), if_neg hlt.ne', setRollbackCounter,
    if_neg (by rw [ROLLBACK_COUNTER_MAX_VALUE]; omega)]
  rw [h.agree_copyValue] at hagree
  exact ⟨_, rfl, _, h.programs hv hlt hagree⟩

theorem Inv.refused (hvalue : value < copies 1 ∨ 256 < value) (cut : Option ℕ) :
    platSetEnforcementCounter mem unreadable value cut = (mem, .error) := by
  have hle := h.le
  have hfirst := h.first
  rw [platSetEnforcementCounter, h.getRollbackCounter]
  split_ifs with hread
  · dsimp only
    rcases hvalue with hlt | hgt
    · rw [if_pos hlt]
    · rw [if_neg (by omega), if_neg (by omega)]
      unfold setRollbackCounter
      rw [if_pos (show ROLLBACK_COUNTER_MAX_VALUE < value from hgt)]
  · rfl

/-! ## Histories -/

theorem Inv.apply {event : Event} (reports : List ℕ) (hs : Sound ⟨mem, reports⟩ event) :
    ∃ copies', Inv (event.apply mem) copies' ∧ copies 1 ≤ copies' 1 := by
  obtain ⟨hread, hcut⟩ := hs
  cases event with
  | read => exact ⟨copies, h, le_rfl⟩
  | update value unreadable cut =>
    dsimp only [Event.unreadable, Event.apply] at hread hcut ⊢
    by_cases hvalue : value < copies 1 ∨ 256 < value
    · rw [h.refused hvalue]
      exact ⟨copies, h, le_rfl⟩
    rw [not_or, Nat.not_lt, Nat.not_lt] at hvalue
    cases cut with
    | none =>
      obtain ⟨mem', hplat, copies', h', heq⟩ := h.completed hread hvalue.1 hvalue.2
      rw [hplat]
      exact ⟨copies', h', heq ▸ hvalue.1⟩
    | some k =>
      by_cases heq : value = copies 1
      · have hsame : platSetEnforcementCounter mem unreadable value (some k) = (mem, .success) := by
          rw [platSetEnforcementCounter, h.reads unreadable hread]
          dsimp only
          rw [if_neg (by omega), if_pos heq]
        rw [hsame]
        exact ⟨copies, h, le_rfl⟩
      · have hlt : copies 1 < value := by omega
        obtain ⟨mem', hplat, copies', h', hor⟩ := h.cut hread hlt hvalue.2
          (hcut (copies 1) (h.reads unreadable hread) hlt hvalue.2)
        rw [hplat]
        exact ⟨copies', h', by omega⟩

end

/-- The counter after a history: what it reads as, what has been reported, and what updates do. -/
structure Kept (h : History) (v : ℕ) : Prop where
  reads : Reads h.mem v
  reports : (v :: h.reports).Pairwise (· ≥ ·)
  refused : ∀ value unreadable cut, value < v ∨ 256 < value →
    platSetEnforcementCounter h.mem unreadable value cut = (h.mem, .error)
  completed : ∀ value unreadable, readOk (copyValue h.mem) unreadable = true → v ≤ value →
    value ≤ 256 →
    ∃ mem', platSetEnforcementCounter h.mem unreadable value none = (mem', .success)
    ∧ Reads mem' value
  cut : ∀ value unreadable k, Sound h (.update value unreadable (some k)) → v < value →
    value ≤ 256 →
    ∃ mem', platSetEnforcementCounter h.mem unreadable value (some k) = (mem', .powerCut) ∧
      (Reads mem' v ∨ Reads mem' value) ∧
      ∀ unreadable', readOk (copyValue mem') unreadable' = true →
        ∃ mem'', platSetEnforcementCounter mem' unreadable' value none = (mem'', .success)
        ∧ Reads mem'' value

/-- The copies are in order, and what was reported never fell. -/
def HistoryInv (h : History) : Prop :=
  ∃ copies, Inv h.mem copies ∧ (copies 1 :: h.reports).Pairwise (· ≥ ·)

theorem HistoryInv.kept {h : History} (hinv : HistoryInv h) : ∃ v ≤ 256, Kept h v := by
  obtain ⟨copies, hinv, hreports⟩ := hinv
  refine ⟨copies 1, hinv.first.trans hinv.le, hinv.reads, hreports,
    fun value unreadable cut hvalue =>
    hinv.refused hvalue cut, fun value unreadable hread hle hv => ?_,
    fun value unreadable k hs hlt hv => ?_⟩
  · obtain ⟨mem', hplat, copies', h', heq⟩ := hinv.completed hread hle hv
    exact ⟨mem', hplat, heq ▸ h'.reads⟩
  · obtain ⟨hread, hcut⟩ := hs
    obtain ⟨mem', hplat, copies', h', hor⟩ := hinv.cut hread hlt hv
      (hcut (copies 1) (hinv.reads unreadable hread) hlt hv)
    refine ⟨mem', hplat, ?_, fun unreadable' hread' => ?_⟩
    · rcases hor with heq | heq
      · exact .inl (heq ▸ h'.reads)
      · exact .inr (heq ▸ h'.reads)
    · have hle : copies' 1 ≤ value := by omega
      obtain ⟨mem'', hplat', copies'', h'', heq⟩ := h'.completed hread' hle hv
      exact ⟨mem'', hplat', heq ▸ h''.reads⟩

theorem HistoryInv.step {h : History} (hinv : HistoryInv h) {event : Event} (hs : Sound h event) :
    ∃ h', Otp.step h event = .ok h' ∧ HistoryInv h' := by
  obtain ⟨copies, hinv, hreports⟩ := hinv
  obtain ⟨copies', h', hle⟩ := hinv.apply h.reports hs
  refine ⟨_, rfl, copies', h', ?_⟩
  have hmono : (copies' 1 :: copies 1 :: h.reports).Pairwise (· ≥ ·) :=
    List.pairwise_cons.2 ⟨List.forall_mem_cons.2 ⟨hle, fun r hr =>
      ((List.pairwise_cons.1 hreports).1 r hr).trans hle⟩, hreports⟩
  have hread : Otp.getRollbackCounter h.mem event.unreadable = some (copies 1) := hinv.reads _ hs.1
  rw [hread]
  exact hmono

theorem historyInv_blank : HistoryInv blank := by
  refine ⟨fun _ => 0, ⟨fun n _ j _ => ?_, by decide, le_rfl, le_rfl, .inl rfl⟩,
    List.pairwise_singleton _ _⟩
  simp [blank, regOf]

instance (h : History) (event : Event) : Decidable (Sound h event) :=
  match event with
  | .read _ => inferInstanceAs (Decidable (_ ∧ True))
  | .update _ _ none => inferInstanceAs (Decidable (_ ∧ True))
  | .update value unreadable (some k) =>
    inferInstanceAs (Decidable (_ ∧ ∀ current ∈ getRollbackCounter h.mem unreadable,
      current < value → value ≤ ROLLBACK_COUNTER_MAX_VALUE →
      agree (grownCopies (copyValue h.mem) value k) = true))

/-- After every history of sound updates and reads the counter is kept. -/
theorem counter_kept (events : List Event) (hsound : Guarded Sound step blank events) :
    ∃ h, exec step blank events = .ok h ∧ ∃ v ≤ 256, Kept h v := by
  obtain ⟨h, hexec, hinv⟩ := exists_exec_of_guarded (fun _ _ hinv hs => HistoryInv.step hinv hs)
    historyInv_blank hsound
  exact ⟨h, hexec, hinv.kept⟩

/-- Two updates that are cut off, and one that is not. -/
def cutTwice : List Event :=
  [.update 40 none (some 1), .read none, .update 40 none (some 19),
    .update 50 (some (Fin.last 2)) none, .read none]

theorem counter_kept_cutTwice :
    Guarded Sound step blank cutTwice ∧ ∃ h, exec step blank cutTwice = .ok h ∧ ∃ v ≤ 256,
      Kept h v := by
  have hsound : Guarded Sound step blank cutTwice := by decide +kernel
  exact ⟨hsound, counter_kept cutTwice hsound⟩

/-- A cut after the first register of the second copy leaves three different values, and one between
the first two copies a tie when the third cannot be read. -/
theorem counter_lost :
    (let mem := (platSetEnforcementCounter blank.mem none 64 (some 10)).1
     getRollbackCounter mem none = none ∧
       ∀ value cut, platSetEnforcementCounter mem none value cut = (mem, .error)) ∧
    (let mem := (platSetEnforcementCounter blank.mem none 1 (some 9)).1
     getRollbackCounter mem none = some 0 ∧ getRollbackCounter mem (some 2) = none) := by
  have hlost : getRollbackCounter (platSetEnforcementCounter blank.mem none 64 (some 10)).1 none
      = none := by
    decide +kernel
  refine ⟨⟨hlost, fun value cut => ?_⟩, by decide +kernel⟩
  rw [platSetEnforcementCounter, hlost]

end Optee.Otp
