import Mathlib.Tactic.Common
import Optee.TaTimeout

/-!
# The deadline of an invocation

The deadline is right where the milliseconds do not carry. Where they do, `set_invoke_timeout` adds
two seconds to the current time whatever the timeout, and a sum of exactly one second is left in the
milliseconds.
-/

namespace Optee.TaTimeout

/-- A time in milliseconds. -/
def TeeTime.ms (t : TeeTime) : ℕ := t.seconds.toNat * 1000 + t.millis.toNat

/-- The milliseconds are less than a second. -/
def TeeTime.Normal (t : TeeTime) : Prop := t.millis.toNat < 1000

instance : DecidablePred TeeTime.Normal :=
  fun t => inferInstanceAs (Decidable (t.millis.toNat < 1000))

/-- The session has the deadline `n` in milliseconds, or none if that is no time, and is cancelled
from then on. -/
structure Meets (s : Session) (n : ℕ) : Prop where
  stored : ∀ t : TeeTime, t.Normal → t.ms = n → s.cancelTime = t
  infinite : (∀ t : TeeTime, t.Normal → t.ms ≠ n) → s.cancelTime = .infinite
  cancelled : ∀ (sysTime currTime : Option TeeTime) (t : TeeTime), currTime.or sysTime = some t →
    t.Normal →
    (teeTaSessionIsCancelled sysTime s currTime = true ↔ n ≤ t.ms)

/-- The deadline does not fit, or seconds and milliseconds are added without a fault. -/
def Adds (now : TeeTime) (timeout : ℕ) : Prop :=
  2 ^ 32 ≤ now.seconds.toNat + timeout / 1000 ∨
    (now.millis.toNat + timeout % 1000 < 1000 ∧ now.seconds.toNat + timeout / 1000 ≠ 2 ^ 32 - 1) ∨
    (1000 < now.millis.toNat + timeout % 1000 ∧
      (now.seconds.toNat = 2 ^ 32 - 1 ∨ timeout / 1000 = 1 ∧ now.seconds.toNat + 3 < 2 ^ 32))

instance (now : TeeTime) (timeout : ℕ) : Decidable (Adds now timeout) :=
  inferInstanceAs (Decidable (_ ∨ _))

variable {now t u : TeeTime} {s : Session} {timeout : BitVec 32}

theorem TeeTime.eq_of_nat (hs : t.seconds.toNat = u.seconds.toNat)
    (hm : t.millis.toNat = u.millis.toNat) : t = u := by
  cases t
  cases u
  simp_all [BitVec.toNat_inj]

theorem TeeTime.eq_of_ms (ht : t.Normal) (hu : u.Normal) (h : t.ms = u.ms) : t = u := by
  unfold TeeTime.Normal at ht hu
  unfold TeeTime.ms at h
  exact eq_of_nat (by omega) (by omega)

theorem exists_ms {n : ℕ} (h : n < 2 ^ 32 * 1000) : ∃ t : TeeTime, t.Normal ∧ t.ms = n := by
  refine ⟨⟨.ofNat 32 (n / 1000), .ofNat 32 (n % 1000)⟩, ?_, ?_⟩
  all_goals simp only [TeeTime.Normal, TeeTime.ms, BitVec.toNat_ofNat]; omega

theorem TeeTime.ms_lt (ht : t.Normal) : t.ms < 2 ^ 32 * 1000 := by
  unfold TeeTime.Normal at ht
  unfold TeeTime.ms
  omega

theorem isCancelled_iff {sysTime currTime : Option TeeTime} (hc : s.cancel = false)
    (hm : s.cancelMask = false) (hlast : s.cancelTime.seconds.toNat ≠ 2 ^ 32 - 1)
    (hd : s.cancelTime.Normal) (ht : currTime.or sysTime = some t) (hn : t.Normal) :
    teeTaSessionIsCancelled sysTime s currTime = true ↔ s.cancelTime.ms ≤ t.ms := by
  unfold TeeTime.Normal at hd hn
  have hne : s.cancelTime.seconds ≠ 0xFFFFFFFF := fun h => hlast (by rw [h]; rfl)
  simp only [teeTaSessionIsCancelled, hc, hm, hne, ht, Bool.false_eq_true, if_false,
    Bool.or_eq_true, Bool.and_eq_true, decide_eq_true_eq, BitVec.lt_def, BitVec.le_def,
    ← BitVec.toNat_inj, TeeTime.ms]
  omega

theorem isCancelled_of_last {sysTime currTime : Option TeeTime} (hc : s.cancel = false)
    (hlast : s.cancelTime.seconds.toNat = 2 ^ 32 - 1) :
    teeTaSessionIsCancelled sysTime s currTime = false := by
  have heq : s.cancelTime.seconds = 0xFFFFFFFF := BitVec.eq_of_toNat_eq hlast
  simp [teeTaSessionIsCancelled, hc, heq]

theorem meets_iff {n : ℕ} (hc : s.cancel = false) (hm : s.cancelMask = false) :
    Meets s n ↔ 2 ^ 32 * 1000 ≤ n ∧ s.cancelTime = .infinite ∨
      s.cancelTime.Normal ∧ s.cancelTime.ms = n ∧ s.cancelTime.seconds.toNat ≠ 2 ^ 32 - 1 := by
  constructor
  · intro h
    rcases Nat.lt_or_ge n (2 ^ 32 * 1000) with hn | hn
    · obtain ⟨t, ht, rfl⟩ := exists_ms hn
      have heq := h.stored t ht rfl
      refine .inr ⟨heq ▸ ht, congrArg TeeTime.ms heq, fun hlast => ?_⟩
      have := (h.cancelled none (some t) t rfl ht).2 (Nat.le_refl _)
      rw [isCancelled_of_last hc hlast] at this
      cases this
    · refine .inl ⟨hn, h.infinite fun t ht heq => ?_⟩
      have := TeeTime.ms_lt ht
      omega
  · rintro (⟨hn, hinf⟩ | ⟨hd, rfl, hlast⟩)
    · refine ⟨fun t ht heq => ?_, fun _ => hinf, fun sysTime currTime t _ ht => ?_⟩
      · have := TeeTime.ms_lt ht
        omega
      · have := TeeTime.ms_lt ht
        rw [isCancelled_of_last hc (by rw [hinf]; rfl)]
        simp only [Bool.false_eq_true, false_iff]
        omega
    · exact ⟨fun t ht heq => TeeTime.eq_of_ms hd ht heq.symm, fun hno => absurd rfl (hno _ hd),
        fun _ _ _ ht hn => isCancelled_iff hc hm hlast hd ht hn⟩

theorem addOverflow32_eq (a b : BitVec 32) :
    addOverflow32 a b = if a.toNat + b.toNat < 2 ^ 32 then some (a + b) else none := by
  rw [addOverflow32, addOverflow]
  split_ifs <;> rfl

theorem cancelTime_cases (hnow : now.Normal) (hfinite : timeout ≠ TEE_TIMEOUT_INFINITE)
    {d : TeeTime} (hd : (setInvokeTimeout (some now) s timeout).cancelTime = d) :
    2 ^ 32 ≤ now.seconds.toNat + timeout.toNat / 1000 ∧ d = .infinite ∨
      now.seconds.toNat + timeout.toNat / 1000 < 2 ^ 32 ∧
        (now.millis.toNat + timeout.toNat % 1000 ≤ 1000 ∧
            d.seconds.toNat = now.seconds.toNat + timeout.toNat / 1000 ∧
            d.millis.toNat = now.millis.toNat + timeout.toNat % 1000 ∨
          1000 < now.millis.toNat + timeout.toNat % 1000 ∧
            (now.seconds.toNat = 2 ^ 32 - 1 ∧ d = .infinite ∨
              now.seconds.toNat < 2 ^ 32 - 1 ∧ d.seconds.toNat = (now.seconds.toNat + 2) % 2 ^ 32 ∧
                d.millis.toNat = now.millis.toNat + timeout.toNat % 1000 - 1000)) := by
  unfold TeeTime.Normal at hnow
  have hdiv : (timeout / 1000).toNat = timeout.toNat / 1000 := BitVec.toNat_udiv
  have hmillis : (now.millis + timeout % 1000).toNat = now.millis.toNat + timeout.toNat % 1000 := by
    rw [BitVec.toNat_add, BitVec.toNat_umod]
    exact Nat.mod_eq_of_lt (by change _ + _ % 1000 < _; omega)
  have hone : (1 : BitVec 32).toNat = 1 := rfl
  have hlt : 1000 < now.millis + timeout % 1000
      ↔ 1000 < now.millis.toNat + timeout.toNat % 1000 := by
    rw [BitVec.lt_def, hmillis]
    rfl
  simp only [setInvokeTimeout, hfinite, if_false, Option.bind_some, finiteTimeout, addOverflow32_eq,
    hdiv, hone, hlt] at hd
  by_cases hsum : now.seconds.toNat + timeout.toNat / 1000 < 2 ^ 32
  swap
  · rw [if_neg hsum] at hd
    exact .inl ⟨by omega, hd.symm⟩
  refine .inr ⟨hsum, ?_⟩
  simp only [if_pos hsum, Option.bind_eq_bind, Option.bind_some] at hd
  by_cases hcarry : 1000 < now.millis.toNat + timeout.toNat % 1000
  swap
  · rw [if_neg hcarry] at hd
    subst hd
    refine .inl ⟨by omega, ?_, hmillis⟩
    simp only [BitVec.toNat_add, hdiv, Option.pure_def, Option.getD_some]
    exact Nat.mod_eq_of_lt hsum
  refine .inr ⟨hcarry, ?_⟩
  rw [if_pos hcarry] at hd
  by_cases hlast : now.seconds.toNat + 1 < 2 ^ 32
  swap
  · rw [if_neg hlast] at hd
    exact .inl ⟨by omega, hd.symm⟩
  rw [if_pos hlast] at hd
  subst hd
  refine .inr ⟨by omega, ?_, ?_⟩
  · simp only [Option.bind_some, Option.pure_def, Option.getD_some, BitVec.toNat_add, hone]
    omega
  · simp only [Option.bind_some, Option.pure_def, Option.getD_some]
    rw [BitVec.toNat_sub_of_le (by rw [BitVec.le_def, hmillis]; exact Nat.le_of_lt hcarry), hmillis]
    rfl

/-- With cancellation neither masked nor requested, the deadline is the current time and the timeout
exactly where they add up. -/
theorem deadline_iff (hc : s.cancel = false) (hm : s.cancelMask = false) (hnow : now.Normal)
    (hfinite : timeout ≠ TEE_TIMEOUT_INFINITE) :
    Meets (setInvokeTimeout (some now) s timeout) (now.ms + timeout.toNat)
      ↔ Adds now timeout.toNat := by
  rw [meets_iff (by exact hc) (by exact hm)]
  have hcases := cancelTime_cases (s := s) hnow hfinite rfl
  generalize (setInvokeTimeout (some now) s timeout).cancelTime = d at hcases ⊢
  have hinf : d = .infinite → ¬d.Normal := by
    rintro rfl
    decide
  have hinf' : d.millis.toNat ≤ 1000 → d ≠ .infinite := by
    rintro h rfl
    exact absurd h (by decide)
  unfold TeeTime.Normal at hnow hinf ⊢
  simp only [Adds, TeeTime.ms]
  rcases hcases with ⟨hsum, hd⟩ | ⟨hsum, ⟨hcarry, hs, hm⟩ | ⟨hcarry, ⟨hlast, hd⟩ | ⟨hlast, hs, hm⟩⟩⟩
  · have := hinf hd
    simp only [hd, and_true]
    omega
  · have := hinf' (by omega)
    simp only [this, and_false, false_or]
    omega
  · have := hinf hd
    simp only [hd, and_true]
    omega
  · have := hinf' (by omega)
    simp only [this, and_false, false_or]
    omega

theorem deadline_of_short_timeout :
    Meets (setInvokeTimeout (some ⟨10, 600⟩) ⟨false, false, .infinite⟩ 5300) 15900 := by
  have hfinite : (5300 : BitVec 32) ≠ TEE_TIMEOUT_INFINITE := by decide
  have hadds : Adds ⟨10, 600⟩ (5300 : BitVec 32).toNat := by decide
  exact (deadline_iff rfl rfl (by decide) hfinite).2 hadds

/-- The deadline of five and a half seconds after 10.600 s is 12.100 s. -/
theorem deadline_early :
    (setInvokeTimeout (some ⟨10, 600⟩) ⟨false, false, .infinite⟩ 5500).cancelTime = ⟨12, 100⟩ ∧
      ¬Meets (setInvokeTimeout (some ⟨10, 600⟩) ⟨false, false, .infinite⟩ 5500) 16100 := by
  have hd : (setInvokeTimeout (some ⟨10, 600⟩) ⟨false, false, .infinite⟩ 5500).cancelTime
    = ⟨12, 100⟩ := by decide
  refine ⟨hd, fun h => ?_⟩
  have := h.stored ⟨16, 100⟩ (by decide) rfl
  rw [hd] at this
  cases this

end Optee.TaTimeout
