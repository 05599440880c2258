import Mathlib
import Optee.Lib.Threads
import Optee.TaBusy

/-!
# Exclusive contexts

A context that is not concurrent is busy exactly while one thread is inside it, and the
single-instance lock is with the thread inside the single-instance contexts (`Exclusive`).
-/

namespace Optee.TaManager

variable {n : ℕ} {κ : Type} [DecidableEq κ] {flags : κ → TaFlags} {busy : κ → Bool}
  {l l' : SingleInstance n} {inside : Fin n → List κ} {t u : Fin n} {c : κ} {fl : TaFlags}
  {b b' rc : Bool}

/-! ## The sections -/

/-- The lock, taken once more. -/
def SingleInstance.acquire (l : SingleInstance n) (t : Fin n) : SingleInstance n :=
  if l.thread = some t then { l with count := l.count + 1 } else ⟨some t, 1⟩

theorem SingleInstance.thread_acquire : (l.acquire t).thread = some t := by
  unfold SingleInstance.acquire
  split_ifs with ho
  · exact ho
  · rfl

theorem unlock_acquire (h : l.thread = some t ∧ 0 < l.count ∨ l.thread = none ∧ l.count = 0) :
    unlockSingleInstance (l.acquire t) t = .done l := by
  obtain ⟨owner, count⟩ := l
  obtain ⟨rfl, hc⟩ | ⟨rfl, rfl⟩ := h
  · simp [SingleInstance.acquire, unlockSingleInstance, hc.ne']
  · simp [SingleInstance.acquire, unlockSingleInstance]

theorem trySetBusy_ne_wait (h : l.thread = some t) : teeTaTrySetBusy fl b l t ≠ .wait := by
  rcases hc : fl.concurrent with - | - <;> rcases hs : fl.singleInstance with - | - <;>
    rcases b with - | - <;>
    simp [teeTaTrySetBusy, lockSingleInstance, trySetBusyLocked, hasSingleInstanceLock,
      unlockSingleInstance, h, hc, hs]
  split_ifs <;> simp

/-- The lock has an owner exactly if it is counted. -/
def SingleInstance.Ok (l : SingleInstance n) : Prop :=
  match l.thread with
  | some _ => 0 < l.count
  | none => l.count = 0

theorem trySetBusy_cases (fl : TaFlags) (b : Bool) (t : Fin n) (hl : l.Ok) :
    teeTaTrySetBusy fl b l t = .wait
      ∨ (fl.concurrent = true ∧ teeTaTrySetBusy fl b l t = .done (true, b, l))
      ∨ (fl.concurrent = false ∧ b = false ∧ teeTaTrySetBusy fl b l t
          = .done (true, true, if fl.singleInstance then l.acquire t else l)
        ∧ (fl.singleInstance = true → l.thread = some t ∨ l.thread = none))
      ∨ (fl.concurrent = false ∧ b = true ∧ teeTaTrySetBusy fl b l t = .done (false, true, l)
        ∧ (l.thread = some t ∨ fl.singleInstance = true ∧ l.thread = none)) := by
  rcases hc : fl.concurrent with - | -
  swap
  · exact .inr (.inl ⟨rfl, by simp [teeTaTrySetBusy, hc]⟩)
  have hkept : l.thread = some t ∨ l.thread = none →
      l.thread = some t ∧ 0 < l.count ∨ l.thread = none ∧ l.count = 0 := by
    rintro (ho | ho) <;> rw [SingleInstance.Ok, ho] at hl <;> simp [ho, hl]
  rcases hs : fl.singleInstance with - | -
  · by_cases ho : l.thread = some t <;> rcases b with - | - <;>
      simp [teeTaTrySetBusy, trySetBusyLocked, hasSingleInstanceLock, hc, hs, ho]
  · by_cases hw : l.thread = some t ∨ l.thread = none
    · have hlock : lockSingleInstance l t = .done (l.acquire t) := by
        obtain ⟨ho, -⟩ | ⟨ho, hz⟩ := hkept hw <;>
          simp [lockSingleInstance, SingleInstance.acquire, *]
      have hunlock := unlock_acquire (hkept hw)
      rcases b with - | - <;>
        simp [teeTaTrySetBusy, trySetBusyLocked, hasSingleInstanceLock, hc, hs, hlock,
          SingleInstance.thread_acquire, hunlock, hw]
    · push Not at hw
      simp [teeTaTrySetBusy, lockSingleInstance, hc, hs, hw.1, hw.2]

/-! ## What holds between sections -/

/-- The contexts that are single instance and not concurrent. -/
def singles (flags : κ → TaFlags) (cs : List κ) : ℕ :=
  cs.countP fun c => (flags c).singleInstance && !(flags c).concurrent

theorem singles_cons (c : κ) (cs : List κ) : singles flags (c :: cs)
    = singles flags cs + if (flags c).singleInstance && !(flags c).concurrent then 1 else 0 := by
  rw [singles, List.countP_cons]
  rfl

/-- The lock counts the contexts that its owner is inside. -/
structure Counts (flags : κ → TaFlags) (l : SingleInstance n) (inside : Fin n → List κ) : Prop where
  ok : l.Ok
  singles : ∀ t, singles flags (inside t) = if l.thread = some t then l.count else 0

theorem Counts.congr {inside' : Fin n → List κ} (h : Counts flags l inside)
    (hs : ∀ t, TaManager.singles flags (inside' t) = TaManager.singles flags (inside t)) :
    Counts flags l inside' :=
  ⟨h.ok, fun t => (hs t).trans (h.singles t)⟩

section Lock

variable (hs : (flags c).singleInstance = true) (hc : (flags c).concurrent = false)
include hs hc

theorem Counts.acquire (h : Counts flags l inside) (ho : l.thread = some t ∨ l.thread = none) :
    Counts flags (l.acquire t) (Function.update inside t (c :: inside t)) where
  ok := by
    rw [SingleInstance.Ok, SingleInstance.thread_acquire]
    unfold SingleInstance.acquire
    split_ifs
    · exact Nat.succ_pos _
    · exact Nat.one_pos
  singles u := by
    rw [SingleInstance.thread_acquire]
    by_cases hu : u = t
    · subst hu
      rw [Function.update_self, singles_cons, h.singles u, if_pos rfl]
      unfold SingleInstance.acquire
      split_ifs <;> simp_all
    · have hother : l.thread ≠ some u := by
        rcases ho with ho | ho <;> simp [ho, Ne.symm hu]
      rw [Function.update_of_ne hu, h.singles u, if_neg hother, if_neg (by simpa using Ne.symm hu)]

theorem Counts.release {cs : List κ} (h : Counts flags l inside) (hi : inside t = c :: cs) :
    ∃ l', unlockSingleInstance l t = .done l' ∧ Counts flags l' (Function.update inside t cs) := by
  have ht := h.singles t
  rw [hi, singles_cons, hs, hc, Bool.not_false, Bool.and_self, if_pos rfl] at ht
  have ho : l.thread = some t := by
    by_contra ho
    rw [if_neg ho] at ht
    cases ht
  rw [if_pos ho] at ht
  have hothers : ∀ u, u ≠ t → TaManager.singles flags (inside u) = 0 := fun u hu => by
    rw [h.singles u, ho, if_neg (by simpa using Ne.symm hu)]
  by_cases hlast : l.count - 1 = 0
  · have hone : l.count = 1 := by omega
    refine ⟨⟨none, 0⟩, by simp [unlockSingleInstance, ho, hone], rfl, fun u => ?_⟩
    by_cases hu : u = t
    · subst hu
      rw [Function.update_self, if_neg (by simp)]
      omega
    · rw [Function.update_of_ne hu, hothers u hu, if_neg (by simp)]
  · refine ⟨{ l with count := l.count - 1 }, ?_, ?_, fun u => ?_⟩
    · have hpos : l.count ≠ 0 := by omega
      simp [unlockSingleInstance, ho, hlast, hpos]
    · rw [SingleInstance.Ok, ho]
      exact Nat.pos_of_ne_zero hlast
    · by_cases hu : u = t
      · subst hu
        rw [Function.update_self, if_pos ho]
        show _ = l.count - 1
        omega
      · rw [Function.update_of_ne hu, hothers u hu, ho, if_neg (by simpa using Ne.symm hu)]

end Lock

/-- Also, a context that is not concurrent is busy exactly if a thread is inside it. -/
structure Exclusive (flags : κ → TaFlags) (busy : κ → Bool) (l : SingleInstance n)
    (inside : Fin n → List κ) : Prop extends Counts flags l inside where
  alone : ∀ c, (flags c).concurrent = false →
    total (fun d => if d = c then 1 else 0) inside = (busy c).toNat

theorem Exclusive.idle (h : ∀ c, busy c = false) :
    Exclusive flags busy (⟨none, 0⟩ : SingleInstance n) fun _ => [] where
  alone c _ := by rw [total_nil, h c]; rfl
  ok := rfl
  singles t := rfl

section

variable (h : Exclusive flags busy l inside)
include h

theorem Exclusive.busy_of_mem (hc : (flags c).concurrent = false)
    (hm : c ∈ inside t) : busy c = true := by
  have h1 := le_total (f := fun d => if d = c then 1 else 0) hm
  rw [h.alone c hc, if_pos rfl] at h1
  rcases hb : busy c with - | -
  · rw [hb] at h1
    cases h1
  · rfl

theorem Exclusive.exists_mem (hc : (flags c).concurrent = false)
    (hb : busy c = true) : ∃ t, c ∈ inside t := by
  by_contra hno
  push Not at hno
  have hz : total (fun d => if d = c then 1 else 0) inside = 0 := by
    refine total_eq_zero.2 fun t d hd => if_neg ?_
    rintro rfl
    exact hno t hd
  rw [h.alone c hc, hb] at hz
  cases hz

theorem Exclusive.busy_of_outside (hc : (flags c).concurrent = false)
    (hno : ∀ t, c ∉ inside t) : busy c = false := by
  by_contra hb
  obtain ⟨t, ht⟩ := h.exists_mem hc (by simpa using hb)
  exact hno t ht

theorem Exclusive.of_flags {flags' : κ → TaFlags}
    (hf : ∀ c, flags' c = flags c ∨ busy c = false ∧ ∀ t, c ∉ inside t) :
    Exclusive flags' busy l inside where
  ok := h.ok
  singles t := by
    rw [← h.singles t]
    refine List.countP_congr fun c hc => ?_
    rcases hf c with he | ⟨-, hno⟩
    · rw [he]
    · exact absurd hc (hno t)
  alone c hc := by
    rcases hf c with he | ⟨hb, hno⟩
    · exact h.alone c (he ▸ hc)
    · rw [hb]
      refine total_eq_zero.2 fun t d hd => if_neg ?_
      rintro rfl
      exact hno t hd

theorem Exclusive.thread_eq (hc : (flags c).concurrent = false) (ht : c ∈ inside t)
    (hu : c ∈ inside u) : t = u := by
  refine thread_eq_of_total_le_one (f := fun d => if d = c then 1 else 0) ?_ ht hu ?_ ?_
  · rw [h.alone c hc]
    exact Bool.toNat_le _
  · simp
  · simp

theorem Exclusive.owner_of_mem (hc : (flags c).concurrent = false)
    (hs : (flags c).singleInstance = true) (hm : c ∈ inside t) : l.thread = some t := by
  by_contra ho
  have hz := h.singles t
  rw [if_neg ho, TaManager.singles, List.countP_eq_zero] at hz
  exact hz c hm (by simp [hc, hs])

theorem Exclusive.enter
    (hb : teeTaTrySetBusy (flags c) (busy c) l t = .done (true, b', l')) :
    Exclusive flags (Function.update busy c b') l'
      (Function.update inside t (c :: inside t)) := by
  have halone : ∀ d, total (fun e => if e = d then 1 else 0)
      (Function.update inside t (c :: inside t))
        = total (fun e => if e = d then 1 else 0) inside + if c = d then 1 else 0 := by
    intro d
    have := total_update (fun e => if e = d then 1 else 0) inside t (c :: inside t)
    rw [List.map_cons, List.sum_cons] at this
    omega
  have hpush : ((flags c).singleInstance && !(flags c).concurrent) = false →
      Counts flags l (Function.update inside t (c :: inside t)) := by
    refine fun hno => h.toCounts.congr fun u => ?_
    by_cases hu : u = t
    · subst hu
      rw [Function.update_self, singles_cons, hno]
      rfl
    · rw [Function.update_of_ne hu]
  obtain hw | ⟨hc, he⟩ | ⟨hc, hbusy, he, hown⟩ | ⟨-, -, he, -⟩ :=
    trySetBusy_cases (flags c) (busy c) t h.ok
  · rw [hw] at hb
    cases hb
  · -- a concurrent context takes no lock
    cases he.symm.trans hb
    refine ⟨hpush (by simp [hc]), fun d hd => ?_⟩
    have hne : c ≠ d := fun he => by rw [he, hd] at hc; cases hc
    rw [halone, if_neg hne, Function.update_of_ne hne.symm, h.alone d hd, add_zero]
  · cases he.symm.trans hb
    refine ⟨?_, fun d hd => ?_⟩
    · split_ifs with hs
      · exact h.toCounts.acquire hs hc (hown hs)
      · exact hpush (by simp [hs])
    · rw [halone, h.alone d hd]
      by_cases hcd : c = d
      · subst hcd
        rw [if_pos rfl, Function.update_self, hbusy]
        rfl
      · rw [if_neg hcd, Function.update_of_ne (Ne.symm hcd), add_zero]
  · cases he.symm.trans hb

theorem Exclusive.leave {cs : List κ} (hi : inside t = c :: cs) :
    ∃ b' l', teeTaClearBusy (flags c) (busy c) l t = .done (b', l')
      ∧ Exclusive flags (Function.update busy c b') l' (Function.update inside t cs) := by
  have halone : ∀ d, total (fun e => if e = d then 1 else 0) (Function.update inside t cs)
      + (if c = d then 1 else 0) = total (fun e => if e = d then 1 else 0) inside := by
    intro d
    have := total_update (fun e => if e = d then 1 else 0) inside t cs
    rw [hi, List.map_cons, List.sum_cons] at this
    omega
  have hpop : ((flags c).singleInstance && !(flags c).concurrent) = false →
      Counts flags l (Function.update inside t cs) := by
    refine fun hno => h.toCounts.congr fun u => ?_
    by_cases hu : u = t
    · subst hu
      rw [Function.update_self, hi, singles_cons, hno]
      rfl
    · rw [Function.update_of_ne hu]
  rcases hc : (flags c).concurrent with - | -
  · have hbusy : busy c = true := h.busy_of_mem hc (by rw [hi]; exact List.mem_cons_self)
    have halone' : ∀ d, (flags d).concurrent = false →
        total (fun e => if e = d then 1 else 0) (Function.update inside t cs)
          = (Function.update busy c false d).toNat := by
      intro d hd
      have hd' := halone d
      rw [h.alone d hd] at hd'
      by_cases hcd : c = d
      · subst hcd
        rw [if_pos rfl, hbusy] at hd'
        rw [Function.update_self]
        exact Nat.succ.inj hd'
      · rw [Function.update_of_ne (Ne.symm hcd), ← hd', if_neg hcd, add_zero]
    rcases hs : (flags c).singleInstance with - | -
    · refine ⟨false, l, by simp [teeTaClearBusy, hc, hs, hbusy], hpop (by simp [hs]), halone'⟩
    · obtain ⟨l', hl', hcount⟩ := h.toCounts.release hs hc hi
      exact ⟨false, l', by simp [teeTaClearBusy, hc, hs, hbusy, hl'], hcount, halone'⟩
  · refine ⟨busy c, l, by simp [teeTaClearBusy, hc], hpop (by simp [hc]), fun d hd => ?_⟩
    have hne : c ≠ d := fun he => by rw [he, hd] at hc; cases hc
    have hd' := halone d
    rw [if_neg hne, add_zero] at hd'
    rw [hd', Function.update_of_ne hne.symm, h.alone d hd]

theorem Exclusive.refused
    (hb : teeTaTrySetBusy (flags c) (busy c) l t = .done (false, b', l')) :
    b' = busy c ∧ l' = l ∧ (flags c).concurrent = false ∧ busy c = true
      ∧ (l.thread = some t ∨ (flags c).singleInstance = true ∧ l.thread = none) := by
  obtain hw | ⟨-, he⟩ | ⟨-, -, he, -⟩ | ⟨hc, hbusy, he, ho⟩ :=
    trySetBusy_cases (flags c) (busy c) t h.ok
  · rw [hw] at hb
    cases hb
  · cases he.symm.trans hb
  · cases he.symm.trans hb
  · cases he.symm.trans hb
    exact ⟨hbusy.symm, rfl, hc, hbusy, ho⟩

theorem Exclusive.refused_owner
    (hb : teeTaTrySetBusy (flags c) (busy c) l t = .done (false, b', l')) :
    l.thread = some t ∧ ((flags c).singleInstance = true → c ∈ inside t) := by
  obtain ⟨-, -, hc, hbusy, ho⟩ := h.refused hb
  obtain ⟨u, hu⟩ := h.exists_mem hc hbusy
  obtain ho | ⟨hs, ho⟩ := ho
  · refine ⟨ho, fun hs => ?_⟩
    have := (h.owner_of_mem hc hs hu).symm.trans ho
    cases this
    exact hu
  · rw [h.owner_of_mem hc hs hu] at ho
    cases ho

theorem Exclusive.trySetBusy_ne_assert : teeTaTrySetBusy fl b l t ≠ .assert := by
  obtain hw | ⟨-, he⟩ | ⟨-, -, he, -⟩ | ⟨-, -, he, -⟩ :=
    trySetBusy_cases fl b t h.ok
  · rw [hw]; nofun
  · rw [he]; nofun
  · rw [he]; nofun
  · rw [he]; nofun

end

/-! ## Moves -/

variable {s s' : Entries n κ} {rank : κ → ℕ}

theorem Counts.owner_iff (h : Counts flags l inside) :
    l.thread = some t ↔ 0 < TaManager.singles flags (inside t) := by
  have ht := h.singles t
  have hok := h.ok
  constructor
  · intro ho
    rw [ho, if_pos rfl] at ht
    rw [SingleInstance.Ok, ho] at hok
    omega
  · intro hpos
    by_contra ho
    rw [if_neg ho] at ht
    omega

/-- All calls under way go upward. -/
def Upward (flags : κ → TaFlags) (rank : κ → ℕ) (s : Entries n κ) : Prop :=
  ∀ t c, s.want t = some c → CallsUpward flags rank s (.call t c)

theorem Upward.step_other (hx : Exclusive flags s.busy s.lock s.inside)
    (hx' : Exclusive flags s'.busy s'.lock s'.inside) (h : Upward flags rank s)
    (hi : ∀ u, u ≠ t → s'.inside u = s.inside u)
    (hw : ∀ u, s'.want u = if u = t then none else s.want u) : Upward flags rank s' := by
  intro u c hu
  rw [hw] at hu
  split_ifs at hu with hut
  have ho : s'.lock.thread = some u ↔ s.lock.thread = some u := by
    rw [hx'.owner_iff, hx.owner_iff, hi u hut]
  have hcall := h u c hu
  simp only [CallsUpward, ne_eq, ho, hi u hut] at hcall ⊢
  exact hcall

theorem Exclusive.step (rank : κ → ℕ) (h : Exclusive flags s.busy s.lock s.inside) (m : Move n κ) :
    ∃ s', s.step flags m = .ok s' ∧ Exclusive flags s'.busy s'.lock s'.inside
      ∧ (Upward flags rank s → CallsUpward flags rank s m → Upward flags rank s') := by
  cases m with
  | call t c =>
    rcases hw : s.want t with - | d
    · refine ⟨{ s with want := Function.update s.want t (some c) }, by simp [Entries.step, hw], h,
        fun hup hg u d hu => ?_⟩
      simp only [Function.update_apply] at hu
      split_ifs at hu with hut
      · cases hu
        exact hut ▸ hg
      · exact hup u d hu
    · exact ⟨s, by simp [Entries.step, hw], h, fun hup _ => hup⟩
  | enter t =>
    rcases hw : s.want t with - | c
    · exact ⟨s, by simp [Entries.step, hw], h, fun hup _ => hup⟩
    rcases hb : teeTaTrySetBusy (flags c) (s.busy c) s.lock t with - | - | ⟨rc, b', l'⟩
    · exact ⟨s, by simp [Entries.step, hw, hb], h, fun hup _ => hup⟩
    · exact absurd hb h.trySetBusy_ne_assert
    rcases rc with - | -
    · obtain ⟨rfl, rfl, -⟩ := h.refused hb
      exact ⟨{ s with want := Function.update s.want t none }, by simp [Entries.step, hw, hb], h,
        fun hup _ => hup.step_other (t := t) h h (fun _ _ => rfl) fun _ => Function.update_apply ..⟩
    · have hx' := h.enter hb
      exact ⟨⟨Function.update s.busy c b', l', Function.update s.inside t (c :: s.inside t),
        Function.update s.want t none⟩, by simp [Entries.step, hw, hb], hx',
        fun hup _ => hup.step_other (t := t) h hx' (fun _ hu => Function.update_of_ne hu ..)
          fun _ => Function.update_apply ..⟩
  | leave t =>
    rcases hw : s.want t with - | c
    · rcases hi : s.inside t with - | ⟨c, cs⟩
      · exact ⟨s, by simp [Entries.step, hw, hi], h, fun hup _ => hup⟩
      obtain ⟨b', l', hb, hx'⟩ := h.leave hi
      refine ⟨{ s with
        busy := Function.update s.busy c b', lock := l', inside := Function.update s.inside t cs },
        by simp [Entries.step, hw, hi, hb], hx', fun hup _ => hup.step_other (t := t) h hx'
          (fun _ hu => Function.update_of_ne hu ..) fun u => ?_⟩
      split_ifs with hut
      · rw [hut]
        exact hw
      · rfl
    · exact ⟨s, by simp [Entries.step, hw], h, fun hup _ => hup⟩

/-! ## Waiting -/

open Classical in
/-- Threads that wait for a context by its rank, below those that wait for the lock, below those
that do not wait. -/
noncomputable def waitRank (flags : κ → TaFlags) (rank : κ → ℕ) (s : Entries n κ) (t : Fin n) :
    WithTop (WithTop ℕ) :=
  match s.want t with
  | none => ⊤
  | some c =>
    if teeTaTrySetBusy (flags c) (s.busy c) s.lock t = .wait then
      if (flags c).singleInstance then ((⊤ : WithTop ℕ) : WithTop (WithTop ℕ))
      else ((rank c : WithTop ℕ) : WithTop (WithTop ℕ))
    else ⊤

theorem of_wait (h : teeTaTrySetBusy fl b l t = .wait) :
    fl.concurrent = false ∧ l.thread ≠ some t := by
  refine ⟨?_, fun ho => trySetBusy_ne_wait ho h⟩
  rcases hc : fl.concurrent with - | -
  · rfl
  · simp [teeTaTrySetBusy, hc] at h

theorem waitRank_lt (hup : Upward flags rank s) (hw : s.WaitsFor flags t u) :
    waitRank flags rank s t < waitRank flags rank s u := by
  obtain ⟨c, hc, hwait, hu⟩ := hw
  obtain ⟨hconc, hno⟩ := of_wait hwait
  rcases hd : s.want u with - | d
  · simp only [waitRank, hc, hd, if_pos hwait]
    split_ifs <;> exact WithTop.coe_lt_top _
  · by_cases hwait' : teeTaTrySetBusy (flags d) (s.busy d) s.lock u = .wait
    · obtain ⟨hconc', hno'⟩ := of_wait hwait'
      -- the owner of the lock does not wait, so it is for the context
      have hmulti : (flags c).singleInstance = false := by
        rcases hs : (flags c).singleInstance with - | -
        · rfl
        · rw [hs, if_pos rfl] at hu
          exact absurd hu hno'
      rw [hmulti, if_neg (by simp)] at hu
      simp only [waitRank, hc, hd, if_pos hwait, if_pos hwait', hmulti]
      rcases hs : (flags d).singleInstance with - | -
      · exact WithTop.coe_lt_coe.2 (WithTop.coe_lt_coe.2 (hup u d hd hno' hconc' hs c hu hconc))
      · exact WithTop.coe_lt_coe.2 (WithTop.coe_lt_top _)
    · simp only [waitRank, hc, hd, if_pos hwait, if_neg hwait']
      split_ifs <;> exact WithTop.coe_lt_top _

/-- No assertion fails, no two threads are inside a context that is not concurrent, and the lock is
with the thread that is inside single-instance contexts and counts those that are not concurrent.
Where the calls of threads without the lock into contexts that are neither concurrent nor single
instance go upward in some order, no threads wait in a cycle. -/
theorem instances_exclusive (flags : κ → TaFlags) (rank : κ → ℕ) (ms : List (Move n κ)) :
    ∃ s, exec (Entries.step flags) .idle ms = .ok s
      ∧ (∀ c, (flags c).concurrent = false → ∀ t u, c ∈ s.inside t → c ∈ s.inside u → t = u)
      ∧ (∀ t, s.lock.thread = some t → s.lock.count = singles flags (s.inside t))
      ∧ (s.lock.thread = none ↔ s.lock.count = 0)
      ∧ (s.lock.thread = none → ∀ t, singles flags (s.inside t) = 0)
      ∧ (Guarded (CallsUpward flags rank) (Entries.step flags) .idle ms →
        ∀ t, ¬ Relation.TransGen (s.WaitsFor flags) t t) := by
  have hidle : Exclusive flags (Entries.idle : Entries n κ).busy (Entries.idle : Entries n κ).lock
      (Entries.idle : Entries n κ).inside := .idle fun _ => rfl
  obtain ⟨s, hrun, h⟩ := exists_exec
    (P := fun s : Entries n κ => Exclusive flags s.busy s.lock s.inside) (fun s m h => by
      obtain ⟨s', hs, hx, -⟩ := h.step rank m
      exact ⟨s', hs, hx⟩) ms hidle
  refine ⟨s, hrun, fun c hc t u => h.thread_eq hc, fun t ho => ?_, ?_, fun ho t => ?_,
    fun hg => ?_⟩
  · rw [h.singles t, if_pos ho]
  · have hok := h.ok
    unfold SingleInstance.Ok at hok
    rcases ho : s.lock.thread with - | t <;> rw [ho] at hok
    · simpa using hok
    · simpa using hok.ne'
  · rw [h.singles t, ho, if_neg (by simp)]
  · have hup := (exec_invariant
      (P := fun s : Entries n κ => Exclusive flags s.busy s.lock s.inside ∧ Upward flags rank s)
      (fun s m s' hp hg hs => by
        obtain ⟨s₁, hs₁, hx, hup⟩ := hp.1.step rank m
        cases hs₁.symm.trans hs
        exact ⟨hx, hup hp.2 hg⟩) ⟨hidle, nofun⟩ hg hrun).2
    exact acyclic_of_rank (waitRank flags rank s) fun _ _ => waitRank_lt hup

/-- One thread calls from a context into one of a higher rank that another is inside, and waits. -/
theorem instances_exclusive_waiting :
    ∃ s, exec (Entries.step fun _ : Bool => (⟨false, false, false, false, false⟩ : TaFlags))
        (.idle : Entries 2 Bool)
        [.call 0 false, .enter 0, .call 1 true, .enter 1, .call 0 true, .enter 0] = .ok s
      ∧ Guarded (CallsUpward (fun _ => ⟨false, false, false, false, false⟩) Bool.toNat)
        (Entries.step fun _ => ⟨false, false, false, false, false⟩) (.idle : Entries 2 Bool)
        [.call 0 false, .enter 0, .call 1 true, .enter 1, .call 0 true, .enter 0]
      ∧ ∀ t, ¬ Relation.TransGen (s.WaitsFor fun _ => ⟨false, false, false, false, false⟩) t t := by
  obtain ⟨s, hrun, -, -, -, -, hno⟩ := instances_exclusive (n := 2)
    (fun _ : Bool => ⟨false, false, false, false, false⟩) Bool.toNat
    [.call 0 false, .enter 0, .call 1 true, .enter 1, .call 0 true, .enter 0]
  have hg : Guarded (CallsUpward (fun _ => ⟨false, false, false, false, false⟩) Bool.toNat)
      (Entries.step fun _ => ⟨false, false, false, false, false⟩) (.idle : Entries 2 Bool)
      [.call 0 false, .enter 0, .call 1 true, .enter 1, .call 0 true, .enter 0] := by decide
  exact ⟨s, hrun, hg, hno hg⟩

/-- Two contexts that are not single instance, and two threads that each call from one into the
other. A context that is single instance and concurrent is not counted. -/
theorem multi_instance_deadlock :
    (∃ s, exec (Entries.step fun _ : Bool => (⟨false, false, false, false, false⟩ : TaFlags))
      (.idle : Entries 2 Bool) [.call 0 true, .enter 0, .call 1 false, .enter 1, .call 0 false,
        .enter 0, .call 1 true, .enter 1] = .ok s
      ∧ s.WaitsFor (fun _ => ⟨false, false, false, false, false⟩) 0 1
      ∧ s.WaitsFor (fun _ => ⟨false, false, false, false, false⟩) 1 0)
    ∧ ∃ s, exec (Entries.step fun _ : Unit => (⟨true, false, false, true, false⟩ : TaFlags))
        (.idle : Entries 1 Unit) [.call 0 (), .enter 0] = .ok s
      ∧ s.inside 0 = [()] ∧ s.lock = ⟨none, 0⟩ :=
  ⟨⟨_, rfl, ⟨false, rfl, rfl, by decide⟩, ⟨true, rfl, rfl, by decide⟩⟩, _, rfl, rfl, rfl⟩

end Optee.TaManager
