import Mathlib
import Optee.Lib.Threads
import Optee.Mutex

/-!
# A mutex excludes and loses no waiter

The state of a mutex counts the locks on it (`Counted`), and its queue has an element for each
thread that waits (`Queued`). A free mutex with a waiter has a thread that is yet to wake one, or to
try again (`Awake`).
-/

namespace Optee.Mutex

variable {n : ℕ} {s s' : State n} {t u : Fin n} {wq wq' : List (Wqe n)} {e : Wqe n}
  {state state' : ℤ} {th : Fin n → Thread} {x : Thread} {pc : Pc} {read : Bool}

/-! ## Locks -/

/-- The read locks that threads have. -/
def readers (th : Fin n → Thread) : ℕ := ∑ t, (th t).reads

/-- The write locks that threads have. -/
def writers (th : Fin n → Thread) : ℕ := ∑ t, (th t).writes

/-- The state is the number of read locks, or -1 for one write lock. -/
def Counted (state : ℤ) (th : Fin n → Thread) : Prop :=
  state = -1 ∧ writers th = 1 ∧ readers th = 0 ∨ state = readers th ∧ writers th = 0

theorem readers_update (th : Fin n → Thread) (t : Fin n) (x : Thread) :
    readers (Function.update th t x) + (th t).reads = readers th + x.reads :=
  sum_update Thread.reads th t x

theorem writers_update (th : Fin n → Thread) (t : Fin n) (x : Thread) :
    writers (Function.update th t x) + (th t).writes = writers th + x.writes :=
  sum_update Thread.writes th t x

theorem reads_le (th : Fin n → Thread) (t : Fin n) : (th t).reads ≤ readers th :=
  le_sum Thread.reads th t

theorem writes_le (th : Fin n → Thread) (t : Fin n) : (th t).writes ≤ writers th :=
  le_sum Thread.writes th t

theorem short_eq {z : ℤ} (h : 0 ≤ z) (hlt : z < 2 ^ 15) : short z = z := by
  rw [short, Int.bmod_def]
  omega

theorem Counted.move (h : Counted state th) (hr : x.reads = (th t).reads)
    (hw : x.writes = (th t).writes) : Counted state (Function.update th t x) := by
  have hreaders := readers_update th t x
  have hwriters := writers_update th t x
  rw [Counted] at h ⊢
  omega

theorem Counted.readLock (h : Counted state th) (hfree : state ≠ -1)
    (hr : x.reads = (th t).reads + 1) (hw : x.writes = (th t).writes) :
    Counted (state + 1) (Function.update th t x) := by
  have hreaders := readers_update th t x
  have hwriters := writers_update th t x
  rw [Counted] at h ⊢
  omega

theorem Counted.lock (h : Counted 0 th) (hr : x.reads = (th t).reads)
    (hw : x.writes = (th t).writes + 1) : Counted (-1) (Function.update th t x) := by
  have hreaders := readers_update th t x
  have hwriters := writers_update th t x
  rw [Counted] at h ⊢
  omega

section

variable (h : Counted state th)
include h

theorem Counted.state_of_writes (ht : 0 < (th t).writes) : state = -1 := by
  have := writes_le th t
  rw [Counted] at h
  omega

theorem Counted.state_of_reads (ht : 0 < (th t).reads) : 0 < state := by
  have := reads_le th t
  rw [Counted] at h
  omega

theorem Counted.state_le : state ≤ readers th := by
  rw [Counted] at h
  omega

theorem Counted.unlock (ht : 0 < (th t).writes) :
    Counted 0 (Function.update th t ((th t).release false pc)) := by
  have hreaders := readers_update th t ((th t).release false pc)
  have hwriters := writers_update th t ((th t).release false pc)
  have := writes_le th t
  simp only [Thread.release, Bool.false_eq_true, ↓reduceIte] at hreaders hwriters ⊢
  rw [Counted] at h ⊢
  omega

theorem Counted.readUnlock (ht : 0 < (th t).reads) :
    Counted (state - 1) (Function.update th t ((th t).release true pc)) := by
  have hreaders := readers_update th t ((th t).release true pc)
  have hwriters := writers_update th t ((th t).release true pc)
  have := reads_le th t
  simp only [Thread.release, ↓reduceIte] at hreaders hwriters ⊢
  rw [Counted] at h ⊢
  omega

end

/-! ## Places -/

/-- What a thread has where it is. -/
def Thread.Holds (th : Thread) : Prop :=
  match th.pc with
  | .unlock false => 0 < th.writes
  | .unlock true => 0 < th.reads
  | .waitLink _ | .waitRelease _ | .signal _ _ | .promote _ _ => 0 < th.writes ∨ 0 < th.reads
  | .idle | .lock _ _ | .trylock _ | .wakeNext _ _ | .waitFinal _ => True

/-- The thread is in the queue, and as a reader or not. -/
def Pc.waits : Pc → Option Bool
  | .waitFinal read => some read
  | .wakeNext _ final => final
  | .idle | .lock _ _ | .trylock _ | .unlock _ | .waitLink _ | .waitRelease _ | .signal _ _
  | .promote _ _ => none

/-- The queue has one element for each thread that waits. -/
structure Queued (wq : List (Wqe n)) (th : Fin n → Thread) : Prop where
  nodup : (wq.map Wqe.handle).Nodup
  mem : ∀ t read, (th t).pc.waits = some read ↔ ∃ e ∈ wq, e.handle = t ∧ e.waitRead = read

theorem Queued.move (h : Queued wq th) (hw : x.pc.waits = (th t).pc.waits) :
    Queued wq (Function.update th t x) := by
  refine ⟨h.nodup, fun u read => ?_⟩
  by_cases hu : u = t
  · subst hu
    rw [Function.update_self, hw]
    exact h.mem u read
  · rw [Function.update_of_ne hu]
    exact h.mem u read

theorem Queued.congr (h : Queued wq th)
    (hwq : wq'.map (fun e => (e.handle, e.waitRead)) = wq.map fun e => (e.handle, e.waitRead)) :
    Queued wq' th where
  nodup := by
    have hhandles := congrArg (List.map Prod.fst) hwq
    simp only [List.map_map] at hhandles
    exact (show wq'.map Wqe.handle = wq.map Wqe.handle from hhandles) ▸ h.nodup
  mem t read := by
    have hmem : ∀ wq : List (Wqe n), (∃ e ∈ wq, e.handle = t ∧ e.waitRead = read) ↔
        (t, read) ∈ wq.map fun e => (e.handle, e.waitRead) := fun wq => by simp [Prod.ext_iff]
    rw [hmem, hwq, ← hmem]
    exact h.mem t read

theorem Queued.push (h : Queued wq th) (hw : (th t).pc.waits = none) (cv : Option ℕ)
    (hx : x.pc.waits = some read) :
    Queued (wq ++ [Wqe.new t read cv]) (Function.update th t x) := by
  have hnot : ∀ e ∈ wq, e.handle ≠ t := by
    rintro e he rfl
    have := (h.mem e.handle e.waitRead).2 ⟨e, he, rfl, rfl⟩
    rw [hw] at this
    cases this
  refine ⟨?_, fun u r => ?_⟩
  · rw [List.map_append, List.nodup_append]
    refine ⟨h.nodup, by simp, ?_⟩
    simpa [Wqe.new] using hnot
  · by_cases hu : u = t
    · subst hu
      rw [Function.update_self, hx]
      constructor
      · rintro ⟨rfl⟩
        exact ⟨_, List.mem_append_right _ List.mem_cons_self, rfl, rfl⟩
      · rintro ⟨e, he, heu, her⟩
        rcases List.mem_append.1 he with he | he
        · exact absurd heu (hnot e he)
        · rw [List.mem_singleton.1 he] at her
          exact congrArg some her
    · rw [Function.update_of_ne hu, h.mem]
      constructor
      · rintro ⟨e, he, heu⟩
        exact ⟨e, List.mem_append_left _ he, heu⟩
      · rintro ⟨e, he, heu, her⟩
        rcases List.mem_append.1 he with he | he
        · exact ⟨e, he, heu, her⟩
        · rw [List.mem_singleton.1 he] at heu
          exact absurd heu.symm hu

theorem mem_eraseP_handle (h : (wq.map Wqe.handle).Nodup) :
    e ∈ wq.eraseP (fun e => e.handle = t) ↔ e ∈ wq ∧ e.handle ≠ t := by
  induction wq with
  | nil => simp
  | cons a wq ih =>
    obtain ⟨hnot, hnodup⟩ := List.nodup_cons.1 h
    by_cases ha : a.handle = t
    · rw [List.eraseP_cons_of_pos (by simpa using ha)]
      constructor
      · intro he
        refine ⟨List.mem_cons_of_mem _ he, fun het => hnot ?_⟩
        rw [ha, ← het]
        exact List.mem_map_of_mem he
      · rintro ⟨he, het⟩
        rcases List.mem_cons.1 he with rfl | he
        · exact absurd ha het
        · exact he
    · rw [List.eraseP_cons_of_neg (by simpa using ha), List.mem_cons, ih hnodup, List.mem_cons]
      constructor
      · rintro (rfl | ⟨he, het⟩)
        · exact ⟨.inl rfl, ha⟩
        · exact ⟨.inr he, het⟩
      · rintro ⟨rfl | he, het⟩
        · exact .inl rfl
        · exact .inr ⟨he, het⟩

theorem Queued.erase (h : Queued wq th) (hx : x.pc.waits = none) :
    Queued (wq.eraseP fun e => e.handle = t) (Function.update th t x) := by
  refine ⟨h.nodup.sublist ((List.eraseP_sublist).map _), fun u r => ?_⟩
  simp only [mem_eraseP_handle h.nodup]
  by_cases hu : u = t
  · subst hu
    rw [Function.update_self, hx]
    simp only [reduceCtorEq, false_iff, not_exists]
    rintro e ⟨⟨-, hne⟩, heq, -⟩
    exact hne heq
  · rw [Function.update_of_ne hu, h.mem]
    refine exists_congr fun e => ⟨?_, ?_⟩
    · rintro ⟨he, heu, her⟩
      exact ⟨⟨he, fun het => hu (heu.symm.trans het)⟩, heu, her⟩
    · rintro ⟨⟨he, -⟩, heu, her⟩
      exact ⟨he, heu, her⟩

/-! ## Waiters -/

/-- The element waits for the mutex and was not woken. -/
def Wqe.Stuck (e : Wqe n) : Prop := e.done = false ∧ e.cv = none

/-- The thread is about to wake the next one. -/
def Thread.Wakes (x : Thread) : Prop := ∃ final, x.pc = .wakeNext none final

/-- The thread was woken, and does not have the lock yet. -/
def Woken (wq : List (Wqe n)) (th : Fin n → Thread) (t : Fin n) : Prop :=
  (∃ e ∈ wq, e.handle = t ∧ e.done) ∨ ∃ read, (th t).pc = .lock read true

/-- If the mutex is free and a thread waits for it, one was woken or is about to be. -/
def Awake (state : ℤ) (wq : List (Wqe n)) (th : Fin n → Thread) : Prop :=
  state = 0 → (∃ e ∈ wq, e.Stuck) → ∃ t, (th t).Wakes ∨ Woken wq th t

theorem Awake.of_locked (h : state ≠ 0) : Awake state wq th := fun h0 => absurd h0 h

theorem Awake.of_wakes (h : x.Wakes) : Awake state wq (Function.update th t x) := fun _ _ =>
  ⟨t, .inl (by rwa [Function.update_self])⟩

theorem Awake.move (h : Awake state wq th) (hwakes : ¬ (th t).Wakes)
    (hwoken : ∀ read, (th t).pc ≠ .lock read true) : Awake state wq (Function.update th t x) := by
  intro h0 hstuck
  obtain ⟨u, hu⟩ := h h0 hstuck
  refine ⟨u, ?_⟩
  by_cases hut : u = t
  · subst hut
    rcases hu with hu | hu | ⟨read, hu⟩
    · exact absurd hu hwakes
    · exact .inr (.inl hu)
    · exact absurd hu (hwoken read)
  · rw [Woken, Function.update_of_ne hut]
    exact hu

theorem wakeFirst_eq_none {wakeRead : Option Bool} :
    ∀ {wq : List (Wqe n)}, wakeFirst wakeRead wq = none →
      ∀ e ∈ wq, e.Stuck → e.waitRead ≠ wakeRead.getD e.waitRead
  | e :: wq, h, a, ha, hs => by
    rw [wakeFirst] at h
    split_ifs at h with hc
    rcases List.mem_cons.1 ha with rfl | ha
    · exact fun heq => hc ⟨hs.2, hs.1, heq⟩
    · exact wakeFirst_eq_none (Option.map_eq_none_iff.1 h) a ha hs

theorem wakeFirst_eq_some {wakeRead : Option Bool} :
    ∀ {wq wq' : List (Wqe n)} {e : Wqe n}, wakeFirst wakeRead wq = some (e, wq') →
      wq'.map (fun e => (e.handle, e.waitRead)) = wq.map (fun e => (e.handle, e.waitRead)) ∧
        ∃ a ∈ wq', a.done
  | a :: wq, wq', e, h => by
    rw [wakeFirst] at h
    split_ifs at h with hc
    · cases h
      exact ⟨rfl, _, List.mem_cons_self, rfl⟩
    · obtain ⟨⟨e', wq₁⟩, hw, heq⟩ := Option.map_eq_some_iff.1 h
      cases heq
      obtain ⟨hmap, b, hb, hd⟩ := wakeFirst_eq_some hw
      exact ⟨by rw [List.map_cons, List.map_cons, hmap], b, List.mem_cons_of_mem _ hb, hd⟩

theorem map_promote (cv : ℕ) (onlyOne : Bool) : ∀ wq : List (Wqe n),
    (promote cv onlyOne wq).map (fun e => (e.handle, e.waitRead))
      = wq.map fun e => (e.handle, e.waitRead)
  | [] => rfl
  | e :: wq => by
    have ih := map_promote cv onlyOne wq
    rw [promote]
    split_ifs <;> simp_all

/-! ## Steps -/

structure Inv (s : State n) : Prop where
  counted : Counted s.state s.threads
  fits : readers s.threads < 2 ^ 15
  holds : ∀ t, (s.threads t).Holds
  queued : Queued s.wq s.threads
  awake : Awake s.state s.wq s.threads

theorem Inv.init : Inv (State.init : State n) where
  counted := .inr ⟨by simp [State.init, readers], by simp [State.init, writers]⟩
  fits := by simp [State.init, readers]
  holds _ := trivial
  queued := ⟨by simp [State.init], fun t read => by simp [State.init, Pc.waits]⟩
  awake _ := by simp [State.init]

theorem fits_update (h : readers th < 2 ^ 15) (hr : x.reads ≤ (th t).reads) :
    readers (Function.update th t x) < 2 ^ 15 := by
  have := readers_update th t x
  omega

theorem release_reads_le : (x.release read pc).reads ≤ x.reads := by
  cases read <;> simp [Thread.release]

theorem holds_update (h : ∀ t, (th t).Holds) (hx : x.Holds) (u : Fin n) :
    (Function.update th t x u).Holds := by
  by_cases hu : u = t
  · subst hu
    rwa [Function.update_self]
  · rw [Function.update_of_ne hu]
    exact h u

section Sections

variable (h : Inv s)
include h

theorem Inv.setPc (hholds : Thread.Holds { s.threads t with pc := pc })
    (hwaits : pc.waits = (s.threads t).pc.waits) (hwakes : ¬ (s.threads t).Wakes)
    (hwoken : ∀ read, (s.threads t).pc ≠ .lock read true) : Inv (s.setPc t pc) where
  counted := h.counted.move rfl rfl
  fits := fits_update h.fits le_rfl
  holds := holds_update h.holds hholds
  queued := h.queued.move hwaits
  awake := h.awake.move hwakes hwoken

theorem Inv.acquire (hfree : canLock read s.state) (hw : (s.threads t).pc.waits = none)
    (hfit : read = true → readers s.threads + 1 < 2 ^ 15) : Inv (s.acquire t read) := by
  have hle := h.counted.state_le
  cases read with
  | true =>
    have hne : s.state ≠ -1 := by simpa [canLock] using hfree
    have hcounted : Counted (s.state + 1)
        (Function.update s.threads t ⟨.idle, (s.threads t).reads + 1, (s.threads t).writes⟩) :=
      h.counted.readLock hne rfl rfl
    have hpos : 0 ≤ s.state := by
      rcases h.counted with ⟨hs, -⟩ | ⟨hs, -⟩ <;> omega
    have hshort : short (s.state + 1) = s.state + 1 := by
      have := hfit rfl
      exact short_eq (by omega) (by omega)
    have hfits : readers (Function.update s.threads t
        ⟨.idle, (s.threads t).reads + 1, (s.threads t).writes⟩) < 2 ^ 15 := by
      have := hcounted.state_le
      have := hfit rfl
      have := readers_update s.threads t ⟨.idle, (s.threads t).reads + 1, (s.threads t).writes⟩
      simp only at this
      omega
    rw [State.acquire, hshort]
    exact ⟨hcounted, hfits, holds_update h.holds trivial, h.queued.move hw.symm,
      .of_locked (by change s.state + 1 ≠ 0; omega)⟩
  | false =>
    have h0 : s.state = 0 := by simpa [canLock] using hfree
    have hcounted := h.counted
    rw [h0] at hcounted
    exact ⟨hcounted.lock rfl rfl, fits_update h.fits le_rfl, holds_update h.holds trivial,
      h.queued.move hw.symm, .of_locked (show (-1 : ℤ) ≠ 0 by decide)⟩

theorem Inv.lock {woken : Bool} (hpc : (s.threads t).pc = .lock read woken)
    (hfit : read = true → readers s.threads + 1 < 2 ^ 15) : Inv (s.lock t read) := by
  have hw : (s.threads t).pc.waits = none := by rw [hpc]; rfl
  rw [State.lock]
  split_ifs with hfree
  · exact h.acquire hfree hw hfit
  · have hlocked : s.state ≠ 0 := by
      rintro h0
      cases read <;> simp [canLock, h0] at hfree
    exact ⟨h.counted.move rfl rfl, fits_update h.fits le_rfl, holds_update h.holds trivial,
      h.queued.push hw none rfl, .of_locked hlocked⟩

theorem Inv.trylock (hpc : (s.threads t).pc = .trylock read)
    (hfit : read = true → readers s.threads + 1 < 2 ^ 15) : Inv (s.trylock t read) := by
  have hw : (s.threads t).pc.waits = none := by rw [hpc]; rfl
  rw [State.trylock]
  split_ifs with hfree
  · exact h.acquire hfree hw hfit
  · refine h.setPc trivial hw.symm ?_ ?_ <;> simp [Thread.Wakes, hpc]

theorem Inv.unlock (hpc : (s.threads t).pc = .unlock false) :
    ∃ s', s.unlock t = .ok s' ∧ Inv s' := by
  have hholds := h.holds t
  rw [Thread.Holds, hpc] at hholds
  have hstate := h.counted.state_of_writes hholds
  refine ⟨_, if_neg (by omega), h.counted.unlock hholds, fits_update h.fits release_reads_le,
    holds_update h.holds trivial, h.queued.move ?_, .of_wakes ⟨none, rfl⟩⟩
  rw [hpc]
  rfl

theorem Inv.readUnlock (hpc : (s.threads t).pc = .unlock true) :
    ∃ s', s.readUnlock t = .ok s' ∧ Inv s' := by
  have hholds := h.holds t
  rw [Thread.Holds, hpc] at hholds
  have hstate := h.counted.state_of_reads hholds
  have hle := h.counted.state_le
  have hfits := h.fits
  have hshort : short (s.state - 1) = s.state - 1 := short_eq (by omega) (by omega)
  refine ⟨_, if_neg (by omega), ?_⟩
  rw [hshort]
  by_cases h0 : s.state - 1 = 0
  · rw [if_pos h0]
    refine ⟨h.counted.readUnlock hholds, fits_update h.fits release_reads_le,
      holds_update h.holds trivial, h.queued.move ?_, .of_wakes ⟨none, rfl⟩⟩
    rw [hpc]
    rfl
  · rw [if_neg h0]
    refine ⟨h.counted.readUnlock hholds, fits_update h.fits release_reads_le,
      holds_update h.holds trivial, h.queued.move ?_, .of_locked h0⟩
    rw [hpc]
    rfl

theorem Inv.waitRelease {cv : ℕ} (hpc : (s.threads t).pc = .waitRelease cv) :
    ∃ s', s.waitRelease t cv = .ok s' ∧ Inv s' := by
  have hw : (s.threads t).pc.waits = none := by rw [hpc]; rfl
  have hholds := h.holds t
  rw [Thread.Holds, hpc] at hholds
  have hle := h.counted.state_le
  have hfits := h.fits
  have hlocked : s.state ≠ 0 ∧ (s.state < 0 → 0 < (s.threads t).writes ∧ s.state = -1) ∧
      (0 < s.state → 0 < (s.threads t).reads) := by
    rcases hholds with hh | hh
    · have := h.counted.state_of_writes hh
      exact ⟨by omega, fun _ => ⟨hh, this⟩, by omega⟩
    · have := h.counted.state_of_reads hh
      exact ⟨by omega, by omega, fun _ => hh⟩
  have hcounted : ∀ pc, Counted (if 1 < s.state then short (s.state - 1) else 0)
      (Function.update s.threads t ((s.threads t).release (decide (0 < s.state)) pc)) := by
    intro pc
    by_cases hpos : 0 < s.state
    · have hstate : (if 1 < s.state then short (s.state - 1) else 0) = s.state - 1 := by
        split_ifs
        · exact short_eq (by omega) (by omega)
        · omega
      rw [hstate, decide_eq_true hpos]
      exact h.counted.readUnlock (hlocked.2.2 hpos)
    · rw [if_neg (by omega), decide_eq_false hpos]
      exact h.counted.unlock (hlocked.2.1 (by omega)).1
  refine ⟨_, if_neg hlocked.1, hcounted _, fits_update hfits release_reads_le, ?_, ?_, ?_⟩
  · refine holds_update h.holds ?_
    cases decide (0 < s.state) <;> split_ifs <;> trivial
  · refine h.queued.push hw (some cv) ?_
    cases decide (0 < s.state) <;> split_ifs <;> rfl
  · by_cases h0 : (if 1 < s.state then short (s.state - 1) else 0) = 0
    · refine .of_wakes ⟨some (decide (0 < s.state)), ?_⟩
      rw [if_pos h0]
      cases decide (0 < s.state) <;> rfl
    · exact .of_locked h0

theorem Inv.wakeNext {wakeRead final : Option Bool}
    (hpc : (s.threads t).pc = .wakeNext wakeRead final) : Inv (s.wakeNext t wakeRead final) := by
  have hafter : ∀ {a : Pc}, a = afterWake final ∨ a = .wakeNext (some true) final →
      a.waits = (s.threads t).pc.waits ∧ Thread.Holds { s.threads t with pc := a } := by
    rintro a (rfl | rfl) <;> rw [hpc]
    · cases final <;> exact ⟨rfl, trivial⟩
    · exact ⟨rfl, trivial⟩
  rw [State.wakeNext]
  cases hwake : wakeFirst wakeRead s.wq with
  | none =>
    obtain ⟨hwaits, hholds⟩ := hafter (.inl rfl)
    refine ⟨h.counted.move rfl rfl, fits_update h.fits le_rfl, holds_update h.holds hholds,
      h.queued.move hwaits, ?_⟩
    cases wakeRead with
    | none =>
      rintro - ⟨e, he, hs⟩
      exact absurd rfl (wakeFirst_eq_none hwake e he hs)
    | some r =>
      refine h.awake.move ?_ ?_ <;> simp [Thread.Wakes, hpc]
  | some p =>
    obtain ⟨e, wq'⟩ := p
    obtain ⟨hmap, a, ha, hd⟩ := wakeFirst_eq_some hwake
    obtain ⟨hwaits, hholds⟩ := @hafter (if wakeRead.getD e.waitRead then .wakeNext (some true) final
      else afterWake final) (by split_ifs <;> simp)
    exact ⟨h.counted.move rfl rfl, fits_update h.fits le_rfl, holds_update h.holds hholds,
      (h.queued.congr hmap).move hwaits, fun _ _ => ⟨a.handle, .inr (.inl ⟨a, ha, rfl, hd⟩)⟩⟩

theorem Inv.waitFinal : Inv (s.waitFinal t read) := by
  rw [State.waitFinal]
  split_ifs with hdone
  · refine ⟨h.counted.move rfl rfl, fits_update h.fits le_rfl, holds_update h.holds trivial,
      h.queued.erase rfl, fun _ _ => ⟨t, .inr (.inr ⟨read, ?_⟩)⟩⟩
    simp [State.setPc, State.setThread]
  · exact h

theorem Inv.promote {cv : ℕ} {onlyOne : Bool} (hpc : (s.threads t).pc = .promote cv onlyOne) :
    Inv (State.setPc { s with wq := promote cv onlyOne s.wq } t .idle) := by
  have hholds := h.holds t
  rw [Thread.Holds, hpc] at hholds
  have hlocked : s.state ≠ 0 := by
    rcases hholds with hh | hh
    · have := h.counted.state_of_writes hh
      omega
    · have := h.counted.state_of_reads hh
      omega
  refine ⟨h.counted.move rfl rfl, fits_update h.fits le_rfl, holds_update h.holds trivial,
    (h.queued.congr (map_promote cv onlyOne s.wq)).move ?_, .of_locked hlocked⟩
  rw [hpc]
  rfl

end Sections

/-! ## Runs -/

/-- A thread unlocks what it has, and has the mutex where it waits or signals. -/
def Op.Allowed (x : Thread) : Op → Prop
  | .unlock => 0 < x.writes
  | .readUnlock => 0 < x.reads
  | .wait _ | .signal _ _ => 0 < x.writes ∨ 0 < x.reads
  | .lock | .trylock | .readLock | .readTrylock => True

/-- The thread is about to take a read lock. -/
def Pc.locksRead : Pc → Bool
  | .lock read _ | .trylock read => read
  | .idle | .unlock _ | .wakeNext _ _ | .waitFinal _ | .waitLink _ | .waitRelease _ | .signal _ _
  | .promote _ _ => false

/-- Calls are allowed, and there are not too many readers. -/
def Move.Allowed (s : State n) : Move n → Prop
  | .call t op => (s.threads t).pc = .idle → op.Allowed (s.threads t)
  | .run t => (s.threads t).pc.locksRead → readers s.threads + 1 < 2 ^ 15

instance (x : Thread) : ∀ op : Op, Decidable (op.Allowed x)
  | .unlock => inferInstanceAs (Decidable (_ < _))
  | .readUnlock => inferInstanceAs (Decidable (_ < _))
  | .wait _ => inferInstanceAs (Decidable (_ ∨ _))
  | .signal _ _ => inferInstanceAs (Decidable (_ ∨ _))
  | .lock => isTrue trivial
  | .trylock => isTrue trivial
  | .readLock => isTrue trivial
  | .readTrylock => isTrue trivial

instance (s : State n) : ∀ m : Move n, Decidable (m.Allowed s)
  | .call _ _ => inferInstanceAs (Decidable (_ → _))
  | .run _ => inferInstanceAs (Decidable (_ → _))

theorem Inv.call (h : Inv s) {op : Op} (hidle : (s.threads t).pc = .idle)
    (hop : op.Allowed (s.threads t)) : Inv (s.setPc t op.start) := by
  refine h.setPc ?_ ?_ ?_ ?_
  · cases op <;> exact hop
  · rw [hidle]
    cases op <;> rfl
  · simp [Thread.Wakes, hidle]
  · simp [hidle]

theorem Inv.run (h : Inv s) (t : Fin n)
    (hfit : (s.threads t).pc.locksRead → readers s.threads + 1 < 2 ^ 15) :
    ∃ s', s.run t = .ok s' ∧ Inv s' := by
  have hholds := h.holds t
  rw [Thread.Holds] at hholds
  rw [State.run]
  cases hpc : (s.threads t).pc <;> rw [hpc] at hholds hfit
  case idle => exact ⟨s, rfl, h⟩
  case lock read woken => exact ⟨_, rfl, h.lock hpc hfit⟩
  case trylock read => exact ⟨_, rfl, h.trylock hpc hfit⟩
  case unlock read =>
    cases read with
    | false => exact h.unlock hpc
    | true => exact h.readUnlock hpc
  case wakeNext wakeRead final => exact ⟨_, rfl, h.wakeNext hpc⟩
  case waitFinal read => exact ⟨_, rfl, h.waitFinal⟩
  case waitLink cv =>
    have hmove : Inv (s.setPc t (.waitRelease cv)) := by
      refine h.setPc hholds ?_ ?_ ?_ <;> simp [Thread.Wakes, Pc.waits, hpc]
    exact ⟨_, rfl, hmove.counted, hmove.fits, hmove.holds, hmove.queued, hmove.awake⟩
  case waitRelease cv => exact h.waitRelease hpc
  case signal cv onlyOne =>
    refine ⟨_, rfl, ?_⟩
    split_ifs
    · refine h.setPc hholds ?_ ?_ ?_ <;> simp [Thread.Wakes, Pc.waits, hpc]
    · refine h.setPc trivial ?_ ?_ ?_ <;> simp [Thread.Wakes, Pc.waits, hpc]
  case promote cv onlyOne => exact ⟨_, rfl, h.promote hpc⟩

/-- A move that is allowed does not stop the core and keeps the invariant. -/
theorem Inv.step (h : Inv s) (m : Move n) (hm : m.Allowed s) :
    ∃ s', step s m = .ok s' ∧ Inv s' := by
  cases m with
  | run t => exact h.run t hm
  | call t op =>
    refine ⟨_, rfl, ?_⟩
    split_ifs with hidle
    · exact h.call hidle (hm hidle)
    · exact h

/-- No section panics, a write lock is the only lock there is, and the state tells the locks. While
the mutex is free, a waiter that is neither done nor waiting for a condition variable has a thread
that is about to wake it or another, or one that was woken and is about to try again. -/
theorem waiters_awake (moves : List (Move n))
    (h : Guarded (fun s m => m.Allowed s) step (State.init : State n) moves) :
    ∃ s, exec step (State.init : State n) moves = .ok s ∧ Counted s.state s.threads ∧
      Queued s.wq s.threads ∧ Awake s.state s.wq s.threads := by
  obtain ⟨s, hs, hinv⟩ := exists_exec_of_guarded (fun s m hs hm => hs.step m hm) Inv.init h
  exact ⟨s, hs, hinv.counted, hinv.queued, hinv.awake⟩

/-- Three threads want the mutex, and one of them waits for a condition. -/
def contended (a b c : Fin n) : List (Move n) :=
  [.call a .lock, .run a, .call b .readLock, .run b, .call c .lock, .run c,
    .call a (.wait 7), .run a, .run a, .run a]

theorem waiters_awake_contended :
    Guarded (fun s m => m.Allowed s) step (State.init : State 3) (contended 0 1 2) ∧
      ∃ s, exec step (State.init : State 3) (contended 0 1 2) = .ok s ∧ Counted s.state s.threads ∧
        Queued s.wq s.threads ∧ Awake s.state s.wq s.threads := by
  have h : Guarded (fun s m => m.Allowed s) step (State.init : State 3) (contended 0 1 2) := by
    decide +kernel
  exact ⟨h, waiters_awake (contended 0 1 2) h⟩

example :
    (exec step (State.init : State 3) (contended 0 1 2)).map (fun s => (s.state, s.wq.map Wqe.done))
    = .ok (0, [true, false, false]) := by decide +kernel

end Optee.Mutex
