import Optee.Proofs.HtreeRun

/-!
# Opening by the monotonic counter

A new file starts to count at 1, whatever the monotonic counter was. The headers in storage and the
monotonic counter are determined by its value and the number of headers written since (`Counted`).
-/

namespace Optee.Htree

variable {C : Crypto} {blockSize : ℕ} {s s' : CountedRun blockSize} {op : Op blockSize}

@[simp]
theorem toNat_nvCounterIncrReeFsTo (nvCounter value : BitVec 32) :
    (nvCounterIncrReeFsTo nvCounter value).toNat = max nvCounter.toNat value.toNat := by
  rw [nvCounterIncrReeFsTo]
  split <;> bv_omega

/-- The counter that is not volatile after some commits. -/
def nvAfter (minCounter commits : ℕ) : ℕ :=
  if commits = 0 then minCounter
  else if commits + 1 < 2 ^ 32 then max minCounter (commits + 1)
  else 2 ^ 32 - 1

theorem nvAfter_succ {minCounter commits : ℕ} (h : minCounter < 2 ^ 32) :
    nvAfter minCounter (commits + 1)
      = max (nvAfter minCounter commits) ((commits + 1 + 1) % 2 ^ 32) := by
  simp only [nvAfter, Nat.add_eq_zero_iff, one_ne_zero, and_false, if_false]
  split_ifs <;> omega

/-- The counters of the handle, of both headers and of the TEE after some commits. -/
structure Counted (C : Crypto) (minCounter : BitVec 32) (s : CountedRun blockSize) : Prop where
  inv : Inv C s.run
  counter : s.run.handle.head.counter = BitVec.ofNat 32 (s.commits + 1)
  nvCounter : s.nvCounter.toNat = nvAfter minCounter.toNat s.commits
  head : ∃ hd, s.run.storage.head s.run.handle.vers = some hd
    ∧ hd.counter = s.run.handle.head.counter
  other : ∃ hd, s.run.storage.head (!s.run.handle.vers) = some hd
    ∧ hd.counter = if s.commits = 0 then minCounter else BitVec.ofNat 32 s.commits

theorem Counted.create (uuid : Option Uuid) (minCounter : BitVec 32) (fek rnd : ByteVec 16) :
    Counted C minCounter (CountedRun.create C blockSize uuid minCounter fek rnd) := by
  obtain ⟨s, hcr⟩ : ∃ s, RunState.create C blockSize uuid minCounter fek rnd = s := ⟨_, rfl⟩
  obtain ⟨hcount, hvers, hcur, hother⟩ := create_heads hcr
  have hinv : Inv C s := hcr ▸ Inv.create uuid minCounter fek rnd
  rw [CountedRun.create, hcr]
  exact ⟨hinv, hcount, rfl, ⟨_, by rw [hvers]; exact hcur, rfl⟩,
    ⟨_, by rw [hvers]; exact hother, rfl⟩⟩

theorem CountedRun.step_eq_ok (hs : s.step C op = .ok s') : s.run.step C op = .ok s'.run
      ∧ (¬ Commits s.run op → s'.nvCounter = s.nvCounter ∧ s'.commits = s.commits)
      ∧ (Commits s.run op → s'.commits = s.commits + 1
        ∧ s'.nvCounter = nvCounterIncrReeFsTo s.nvCounter s'.run.handle.head.counter) := by
  obtain ⟨run, hrun, he⟩ := bind_eq_ok.1 hs
  cases op with
  | sync rnd =>
    cases he
    refine ⟨hrun, fun hc => ?_, fun hc => ?_⟩
    · have hd : s.run.handle.dirty = false := by simpa [Commits] using hc
      simp [hd, nvCounterIncrReeFsTo]
    · have hd : s.run.handle.dirty = true := hc
      simp [hd]
  | writeBlock b data rnd =>
    cases he
    exact ⟨hrun, fun _ => ⟨rfl, rfl⟩, False.elim⟩
  | truncate b =>
    cases he
    exact ⟨hrun, fun _ => ⟨rfl, rfl⟩, False.elim⟩
  | setMeta m =>
    cases he
    exact ⟨hrun, fun _ => ⟨rfl, rfl⟩, False.elim⟩

variable {minCounter : BitVec 32}

theorem Counted.step (h : Counted C minCounter s) (ho : WritesInOrder s.run op)
    (ht : TruncatesDirty s.run op) (hs : s.step C op = .ok s') : Counted C minCounter s' := by
  obtain ⟨hrun, hsame, hnext⟩ := CountedRun.step_eq_ok hs
  have hinv := (h.inv.step ho ht hrun).1
  obtain ⟨hno, hst, hhead⟩ | ⟨hyes, hcount, hprev, hcur⟩ := h.inv.head_step ho hrun
  · obtain ⟨hnv, hk⟩ := hsame hno
    have hvers : s'.run.handle.vers = s.run.handle.vers := by
      rw [TeeFsHtree.vers, hhead, TeeFsHtree.vers]
    refine ⟨hinv, ?_, ?_, ?_, ?_⟩
    · rw [hhead, hk, h.counter]
    · rw [hnv, hk, h.nvCounter]
    · rw [hst, hvers, hhead]
      exact h.head
    · rw [hst, hvers, hk]
      exact h.other
  · obtain ⟨hk, hnv⟩ := hnext hyes
    have hcounter : s'.run.handle.head.counter = BitVec.ofNat 32 (s'.commits + 1) := by
      rw [hcount, h.counter, hk, BitVec.ofNat_add (s.commits + 1) 1]
      rfl
    refine ⟨hinv, hcounter, ?_, ⟨_, hcur, rfl⟩, ?_⟩
    · rw [hnv, toNat_nvCounterIncrReeFsTo, hcounter, hk, h.nvCounter, BitVec.toNat_ofNat,
        nvAfter_succ minCounter.isLt]
    · obtain ⟨hd, hcur', hcount'⟩ := h.head
      refine ⟨hd, hprev.trans hcur', ?_⟩
      rw [hcount', h.counter, hk, if_neg (Nat.succ_ne_zero _)]

theorem Counted.selects_new (h : Counted C minCounter s) (hd : s.run.handle.dirty = false)
    (hk : s.commits = 0) (hmin : minCounter.toNat ≤ 1) : Selects s.run.storage s.run.handle := by
  have hcount := h.counter
  have hhead := (h.inv.current hd).2
  obtain ⟨other, hother, hcount'⟩ := h.other
  rw [hk] at hcount
  rw [if_pos hk] at hcount'
  have hvers : s.run.handle.vers = true := by
    rw [TeeFsHtree.vers, hcount]
    decide
  rw [hvers] at hhead hother
  refine ⟨other, s.run.handle.head, hother, hhead, ?_⟩
  have hcases : minCounter = 0 ∨ minCounter = 1 := by bv_omega
  rw [hvers, hcount, hcount']
  obtain rfl | rfl := hcases <;> decide

theorem Counted.selects_iff (h : Counted C minCounter s) (hd : s.run.handle.dirty = false) :
    Selects s.run.storage s.run.handle ∧ s.nvCounter ≤ s.run.handle.head.counter
      ↔ minCounter.toNat ≤ s.commits + 1 ∧ s.commits + 1 < 2 ^ 32
        ∨ 2 ^ 32 ≤ s.commits + 1 ∧ (s.commits + 2) % 2 ^ 32 = 0 := by
  have hmin := minCounter.isLt
  rw [BitVec.le_def, h.nvCounter, h.counter, BitVec.toNat_ofNat]
  by_cases hk : s.commits = 0
  · have hnv : nvAfter minCounter.toNat s.commits = minCounter.toNat := by rw [nvAfter, if_pos hk]
    rw [hnv]
    constructor
    · rintro ⟨-, hle⟩
      omega
    · intro hle
      exact ⟨h.selects_new hd hk (by omega), by omega⟩
  · obtain ⟨other, hother, hcount⟩ := h.other
    rw [if_neg hk] at hcount
    have hnext : s.run.handle.head.counter = other.counter + 1 := by
      rw [h.counter, hcount, BitVec.ofNat_add s.commits 1]
      rfl
    have hzero : s.run.handle.head.counter ≠ 0 ↔ (s.commits + 1) % 2 ^ 32 ≠ 0 := by
      rw [h.counter, ne_eq, ← BitVec.toNat_inj, BitVec.toNat_ofNat]
      rfl
    rw [selects_next_iff (h.inv.current hd).2 hother hnext, hzero, nvAfter, if_neg hk]
    split_ifs <;> omega

/-- An open without a hash finds what was synchronised last. -/
def OpensLast (C : Crypto) (s : CountedRun blockSize) : Prop :=
  initHeadFromData s.run.storage none s.nvCounter = .ok (s.run.handle.rootNode, s.run.handle.head)
    ∧ OpensAs C s.run.storage none s.nvCounter s.run.handle s.run.contents

/-- A file that was just synchronised is opened by the monotonic counter exactly where, with the one
of its creation, at least `minCounter` headers were written and its counter did not wrap around, or
is at its largest value again. -/
theorem opensLast_iff {uuid : Option Uuid} {minCounter : BitVec 32} {fek rnd : ByteVec 16}
    {ops : List (Op blockSize)}
    (hrun : exec (CountedRun.step C) (.create C blockSize uuid minCounter fek rnd) ops = .ok s)
    (hg : Guarded (fun s op => WritesInOrder s.run op ∧ TruncatesDirty s.run op) (CountedRun.step C)
      (.create C blockSize uuid minCounter fek rnd) ops)
    (hd : s.run.handle.dirty = false) :
    OpensLast C s ↔ minCounter.toNat ≤ s.commits + 1 ∧ s.commits + 1 < 2 ^ 32
      ∨ 2 ^ 32 ≤ s.commits + 1 ∧ (s.commits + 2) % 2 ^ 32 = 0 := by
  have h := exec_invariant (P := Counted C minCounter)
    (g := fun s op => WritesInOrder s.run op ∧ TruncatesDirty s.run op)
    (fun _ _ _ h hg hs => h.step hg.1 hg.2 hs) (.create uuid minCounter fek rnd) hg hrun
  have hin := h.inv.inPlace hd
  rw [← h.selects_iff hd, ← hin.initHead_none_iff]
  exact ⟨fun ho => ho.1, fun hinit => ⟨hinit, hin.opensAs hin.synced.alike hinit⟩⟩

/-- A file that was created at 2 is opened after one more sync. -/
theorem opensLast_two : ∃ s, exec (CountedRun.step .plain) (createPlainAt 2) touchOps = .ok s
    ∧ Guarded (fun s op => WritesInOrder s.run op ∧ TruncatesDirty s.run op)
      (CountedRun.step .plain) (createPlainAt 2) touchOps
    ∧ s.run.handle.dirty = false ∧ OpensLast .plain s := by
  have hg : Guarded (fun s op => WritesInOrder s.run op ∧ TruncatesDirty s.run op)
      (CountedRun.step .plain) (createPlainAt 2) touchOps := by decide +kernel
  obtain ⟨s, hrun, hd, hk⟩ := exists_ok_of_decide
    (r := exec (CountedRun.step .plain) (createPlainAt 2) touchOps)
    (P := fun s => s.run.handle.dirty = false ∧ s.commits = 1) (by decide +kernel)
  exact ⟨s, hrun, hg, hd, (opensLast_iff hrun hg hd).2 (.inl ⟨by rw [hk]; decide, by omega⟩)⟩

/-- A file that was created at 3 is not opened, neither when it is new nor after the next sync. -/
theorem create_at_three_rejected :
    teeFsHtreeOpen .plain (createPlainAt 3).run.storage none (createPlainAt 3).nvCounter none
        = .error .security
      ∧ ∃ s, exec (CountedRun.step .plain) (createPlainAt 3) touchOps = .ok s
        ∧ teeFsHtreeOpen .plain s.run.storage none s.nvCounter none = .error .security := by
  refine ⟨by decide +kernel, ?_⟩
  exact exists_ok_of_decide
    (r := exec (CountedRun.step .plain) (createPlainAt 3) touchOps)
    (P := fun s => teeFsHtreeOpen .plain s.run.storage none s.nvCounter none = .error .security)
    (by decide +kernel)

end Optee.Htree
