import Mathlib.Data.List.Basic
import Mathlib.Tactic.Common
import Optee.Lib.Run
import Optee.Result
import Optee.RxTx

/-!
# Who owns the TX buffer

`spmc_handle_partition_info_get` gives the TX buffer to the caller at its only exit, also where it
answers with an error. Without such an error the owner is always right (`ownership_kept`).
-/

namespace Optee.RxTx

/-- A request that gives the buffer back. -/
def Request.GivesBack : Request → Prop
  | .rxtxMap .. | .rxRelease => True
  | .rxtxUnmap | .partitionInfoGet .. => False

/-- A request that fills the buffer. -/
def Request.Passes : Request → Prop
  | .partitionInfoGet _ countOnly _ => countOnly = false
  | .rxtxMap .. | .rxtxUnmap | .rxRelease => False

/-- The buffer changes hands where it should, and is written only while it is the core's. -/
structure Lawful (s : State) (req : Request) (out : Outcome) : Prop where
  passes : s.txIsMine = true ∧ out.state.txIsMine = false ↔ req.Passes ∧ out.reply.isOk
  comesBack : req.GivesBack → out.reply.isOk → out.state.txIsMine = true
  onlyBack : s.txIsMine = false → out.state.txIsMine = true → req.GivesBack ∧ out.reply.isOk
  writes : out.writes ≠ [] → s.size ≠ 0 ∧ s.txIsMine = true
  failed : out.reply.isOk = false → out.state = s

/-- The answer fits in the buffer. -/
def Fits (cfg : Config) (s : State) (uuid : Uuid) (sps : List SpSession) : Prop :=
  if uuid = (0, 0, 0, 0) then
    (1 + if cfg.securePartition then sps.countP (SpSession.asked none)
      else 0) * fpiSize s.ffaVers11 ≤ s.size
  else if uuid = myUuidWords then fpiSize s.ffaVers11 ≤ s.size
  else cfg.securePartition ∧ sps.countP (SpSession.asked (some uuid)) * fpiSize s.ffaVers11 ≤ s.size

/-- What is asked for can be answered. -/
def Answerable (cfg : Config) (s : State) : Request → Prop
  | .partitionInfoGet uuid false sps => s.txIsMine = true → s.size ≠ 0 ∧ Fits cfg s uuid sps
  | .partitionInfoGet _ true _ | .rxtxMap .. | .rxtxUnmap | .rxRelease => True

instance (cfg : Config) (s : State) (uuid : Uuid) (sps : List SpSession) :
  Decidable (Fits cfg s uuid sps) := by
  unfold Fits
  infer_instance

instance (cfg : Config) (s : State) : (req : Request) → Decidable (Answerable cfg s req)
  | .partitionInfoGet _ false _ => inferInstanceAs (Decidable (_ → _))
  | .partitionInfoGet _ true _ | .rxtxMap .. | .rxtxUnmap | .rxRelease => isTrue trivial

variable {cfg : Config} {s s' : State} {uuid : Uuid} {asked : Option Uuid} {sps : List SpSession}
  {out : Outcome}

theorem infoGet_count (cfg : Config) (s : State) (asked : Option Uuid) :
    ∀ (sps : List SpSession) (count : ℕ) (entries : List Entry),
    ∃ n, spPartitionInfoGet cfg s asked true sps (true, count, entries) = (true, n, entries)
  | [], count, _ => ⟨count, rfl⟩
  | p :: _, _, _ => by
    simp only [spPartitionInfoGet, Bool.not_true, Bool.false_and, Bool.false_eq_true, if_false]
    split <;> exact infoGet_count ..

theorem infoGet_fits : ∀ {sps : List SpSession} {count : ℕ} {entries : List Entry},
    (count + sps.countP (SpSession.asked asked)) * fpiSize s.ffaVers11 ≤ s.size →
    (spPartitionInfoGet cfg s asked false sps (true, count, entries)).1 = true
  | [], _, _, _ => rfl
  | p :: sps, count, entries, h => by
    rw [spPartitionInfoGet]
    by_cases hp : p.asked asked = true
    · rw [List.countP_cons_of_pos hp, ← Nat.add_assoc, Nat.add_right_comm] at h
      have hfit : (count + 1) * fpiSize s.ffaVers11 ≤ s.size :=
        Nat.le_trans (Nat.mul_le_mul_right _ (Nat.le_add_right ..)) h
      simp only [hp, if_true, Bool.not_false, Bool.and_self, spmcFillPartitionEntry,
        if_neg (Nat.not_lt.2 hfit)]
      exact infoGet_fits h
    · rw [List.countP_cons_of_neg hp] at h
      rw [if_neg hp]
      exact infoGet_fits h

theorem myEntries_fits (cfg : Config) (h : fpiSize s.ffaVers11 ≤ s.size) :
    ∃ mine, myEntries cfg s false = some mine := by
  simp [myEntries, spmcFillPartitionEntry, Nat.not_lt.2 h]

theorem partitionInfo_ok (hmine : s.txIsMine = true) (hsize : s.size ≠ 0)
    (hfits : Fits cfg s uuid sps) :
    (partitionInfo cfg s uuid false sps).1.isOk := by
  have hbusy : (s.size = 0 || !s.txIsMine) = false := by simp [hmine, hsize]
  simp only [partitionInfo, hbusy, Bool.and_false, Bool.false_eq_true, if_false]
  unfold Fits at hfits
  by_cases hnil : uuid = (0, 0, 0, 0)
  · rw [if_pos hnil] at hfits ⊢
    obtain ⟨mine, hm⟩ := myEntries_fits cfg (s := s)
      (Nat.le_trans (Nat.le_mul_of_pos_left _
      (Nat.lt_of_lt_of_le Nat.one_pos (Nat.le_add_right ..))) hfits)
    simp only [handlePartitionInfoGetAll, hm]
    by_cases hsp : cfg.securePartition = true
    · rw [if_pos hsp] at hfits ⊢
      simp [infoReply, infoGet_fits hfits, Except.isOk, Except.toBool]
    · rw [if_neg hsp]
      rfl
  rw [if_neg hnil] at hfits ⊢
  by_cases hmy : uuid = myUuidWords
  · rw [if_pos hmy] at hfits ⊢
    obtain ⟨mine, hm⟩ := myEntries_fits cfg hfits
    rw [hm]
    rfl
  · rw [if_neg hmy] at hfits ⊢
    rw [if_pos hfits.1]
    have hloop : (spPartitionInfoGet cfg s (some uuid) false sps (true, 0, [])).1 = true :=
      infoGet_fits (by rw [Nat.zero_add]; exact hfits.2)
    simp [infoReply, hloop, Except.isOk, Except.toBool]

theorem partitionInfo_count : (partitionInfo cfg s uuid true sps).2 = [] := by
  obtain ⟨n, hall⟩ := infoGet_count cfg s none sps 1 []
  obtain ⟨m, hone⟩ := infoGet_count cfg s (some uuid) sps 0 []
  have hmine : myEntries cfg s true = some [] := rfl
  simp only [partitionInfo, handlePartitionInfoGetAll, hmine, hall, hone, infoReply]
  split_ifs <;> rfl

theorem partitionInfo_busy (h : s.size = 0 ∨ s.txIsMine = false) :
    partitionInfo cfg s uuid false sps = (.error .busy, []) := by
  have hbusy : (s.size = 0 || !s.txIsMine) = true := by simpa using h
  simp [partitionInfo, hbusy]

theorem infoGet_lawful (h : Answerable cfg s (.partitionInfoGet uuid countOnly sps)) :
    Lawful s (.partitionInfoGet uuid countOnly sps)
      (spmcHandlePartitionInfoGet cfg s uuid countOnly sps) := by
  cases countOnly with
  | true =>
    simp only [spmcHandlePartitionInfoGet, if_true]
    refine ⟨?_, nofun, ?_, fun hw => absurd partitionInfo_count hw, fun _ => rfl⟩
    · simp [Request.Passes]
    · intro h0 h1
      exact absurd (h0.symm.trans h1) nofun
  | false =>
    simp only [spmcHandlePartitionInfoGet, Bool.false_eq_true, if_false]
    cases hmine : s.txIsMine with
    | true =>
      obtain ⟨hsize, hfits⟩ := h hmine
      have hok := partitionInfo_ok hmine hsize hfits
      refine ⟨?_, nofun, nofun, fun _ => ⟨hsize, hmine⟩, fun herr => ?_⟩
      · simp [Request.Passes, hok, hmine]
      · exact absurd (hok.symm.trans herr) nofun
    | false =>
      rw [partitionInfo_busy (.inr hmine)]
      refine ⟨?_, nofun, nofun, nofun, fun _ => ?_⟩
      · simp [hmine, Except.isOk, Except.toBool]
      · rw [← hmine]

theorem Lawful.of_givesBack {req : Request} (hback : req.GivesBack) (hpass : ¬req.Passes)
    (hw : out.writes = []) (hok : out.reply.isOk → out.state.txIsMine = true)
    (herr : out.reply.isOk = false → out.state = s) :
    Lawful s req out where
  passes := by
    refine iff_of_false (fun h => ?_) fun h => hpass h.1
    cases hr : out.reply.isOk with
    | true => exact absurd ((hok hr).symm.trans h.2) nofun
    | false => exact absurd ((herr hr ▸ h.1).symm.trans h.2) nofun
  comesBack _ := hok
  onlyBack h0 h1 := by
    refine ⟨hback, ?_⟩
    cases hr : out.reply.isOk with
    | true => rfl
    | false => exact absurd ((herr hr ▸ h0).symm.trans h1) nofun
  writes h := absurd hw h
  failed := herr

variable {sz : ℕ} {txEnv rxEnv : MapEnv}

theorem unmapBuf_mine {va : ℕ} (h : unmapBuf va sz s = .ok s') : s'.txIsMine = s.txIsMine := by
  unfold unmapBuf at h
  split_ifs at h
  cases h
  rfl

theorem mapBuf_ok {env : MapEnv} {va : ℕ} (h : mapBuf env sz s = .ok (va, s')) :
    s' = { s with shm := (va, sz) :: s.shm } := by
  unfold mapBuf at h
  cases ha : env.alloc with
  | none =>
    simp only [ha] at h
    split_ifs at h
  | some va' =>
    simp only [ha] at h
    split_ifs at h
    cases h
    rfl

theorem mapNw_error {err : Err}
    (h : mapNw cfg txEnv rxEnv sz s = .ok (.error err, s')) : s' = s := by
  unfold mapNw at h
  by_cases hv : cfg.nsVirtualization = true
  · simp only [hv, if_true, mapNexus] at h
    cases hm : txEnv.mapped <;> cases ha : txEnv.alloc <;> cases hm' : rxEnv.mapped <;> cases ha' :
      rxEnv.alloc <;> simp [hm, ha, hm', ha'] at h <;> exact h.2.symm
  · simp only [hv, Bool.false_eq_true, if_false] at h
    cases htx : mapBuf txEnv sz s with
    | error e => rw [htx] at h; cases h; rfl
    | ok r =>
      obtain ⟨tx, s₁⟩ := r
      simp only [htx] at h
      cases hrx : mapBuf rxEnv sz s₁ with
      | ok r => rw [hrx] at h; cases h
      | error e =>
        have hun : unmapBuf tx sz s₁ = .ok s := by
          rw [mapBuf_ok htx]
          simp [unmapBuf]
        rw [hrx, hun] at h
        cases h
        rfl

theorem endMap_lawful {a1 a2 a3 : ℕ} {r : Except Err (ℕ × ℕ) × State}
    (h : ∀ err, r.1 = .error err → r.2 = s) :
    Lawful s (.rxtxMap a1 a2 a3 txEnv rxEnv) (endMap sz r) := by
  obtain ⟨reply, s'⟩ := r
  cases reply with
  | error err => exact .of_givesBack trivial id rfl nofun fun _ => h err rfl
  | ok p => exact .of_givesBack trivial id rfl (fun _ => rfl) nofun

theorem map_lawful {a1 a2 a3 : ℕ} (h : spmcHandleRxtxMap cfg s a1 a2 a3 txEnv rxEnv = .ok out)
    : Lawful s (.rxtxMap a1 a2 a3 txEnv rxEnv) out := by
  unfold spmcHandleRxtxMap at h
  simp only at h
  split_ifs at h with hargs hsize hnw
  · cases h
    exact endMap_lawful fun _ _ => rfl
  · cases h
    exact endMap_lawful fun _ _ => rfl
  · cases hmap : mapNw cfg txEnv rxEnv (a3 * smallPageSize) s with
    | error fault => rw [hmap] at h; cases h
    | ok r =>
      rw [hmap] at h
      cases h
      exact endMap_lawful fun err herr => mapNw_error (hmap.trans (by rw [← herr]))
  · cases h
    refine endMap_lawful fun _ _ => ?_
    unfold mapSp
    split_ifs <;> rfl

theorem unmap_lawful (h : spmcHandleRxtxUnmap cfg s = .ok out) : Lawful s .rxtxUnmap out := by
  suffices hout : out.writes = [] ∧ out.state.txIsMine = s.txIsMine
      ∧ (out.reply.isOk = false → out.state = s) by
    refine ⟨iff_of_false (fun h => ?_) nofun, nofun, fun h0 h1 => ?_,
      fun hw => absurd hout.1 hw, hout.2.2⟩
    · exact absurd (h.1.symm.trans (hout.2.1.symm.trans h.2)) nofun
    · exact absurd (h0.symm.trans (hout.2.1.symm.trans h1)) nofun
  unfold spmcHandleRxtxUnmap at h
  split_ifs at h with hsize hnw
  · cases h
    exact ⟨rfl, rfl, fun _ => rfl⟩
  · obtain ⟨s₂, hs, h⟩ := bind_eq_ok.1 h
    obtain ⟨s₁, hrx, htx⟩ := bind_eq_ok.1 hs
    cases h
    exact ⟨rfl, (unmapBuf_mine htx).trans (unmapBuf_mine hrx), nofun⟩
  · cases h
    exact ⟨rfl, rfl, nofun⟩

theorem release_lawful : Lawful s .rxRelease (spmcHandleRxRelease s) := by
  unfold spmcHandleRxRelease
  split
  · exact .of_givesBack trivial id rfl nofun fun _ => rfl
  · exact .of_givesBack trivial id rfl (fun _ => rfl) nofun

theorem respond_lawful {req : Request} (h : Answerable cfg s req)
    (hout : respond cfg s req = .ok out) :
    Lawful s req out := by
  cases req with
  | rxtxMap a1 a2 a3 txEnv rxEnv => exact map_lawful hout
  | rxtxUnmap => exact unmap_lawful hout
  | rxRelease =>
    cases hout
    exact release_lawful
  | partitionInfoGet uuid countOnly sps =>
    cases hout
    exact infoGet_lawful h

/-- In a run where each request for information can be answered or finds the buffer with the caller,
every request is lawful. -/
theorem ownership_kept {reqs : List Request} (h : Guarded (Answerable cfg) (step cfg) s reqs) :
    Guarded (fun s req => ∀ out, respond cfg s req = .ok out →
      Lawful s req out) (step cfg) s reqs :=
  h.imp fun _ _ h _ hout => respond_lawful h hout

def plainConfig : Config := ⟨true, false, false, 0x8000, 1, 0, 0⟩

def unmapped : State := ⟨0, 0, 0, true, false, [], []⟩

def pageAt (va : ℕ) : MapEnv := ⟨true, some va, true, none⟩

/-- Buffers are mapped, used once and unmapped. -/
def mapAndGet : List Request :=
  [.rxtxMap 0x1000 0x2000 1 (pageAt 0x10000) (pageAt 0x20000),
    .partitionInfoGet myUuidWords false [], .rxRelease, .rxtxUnmap]

theorem ownership_kept_mapAndGet :
    Guarded (fun s req => ∀ out, respond plainConfig s req = .ok out → Lawful s req out)
      (step plainConfig) unmapped mapAndGet :=
  ownership_kept (by decide +kernel)

def mapped : State := ⟨0x20000, 0x10000, 4096, true, true, [(0x20000, 4096), (0x10000, 4096)], []⟩

/-- A request with a UUID that no partition has is answered with an error, and the buffer is with
the caller. -/
theorem ownership_lost :
    exec (step plainConfig) unmapped [.rxtxMap 0x1000 0x2000 1 (pageAt 0x10000) (pageAt 0x20000)]
      = .ok mapped ∧
      ∃ out, respond plainConfig mapped (.partitionInfoGet (1, 2, 3, 4) false []) = .ok out ∧
        out.reply = .error .invalidParameters ∧ out.state.txIsMine = false ∧
        ¬Lawful mapped (.partitionInfoGet (1, 2, 3, 4) false []) out :=
  ⟨rfl, _, rfl, rfl, rfl, fun h => absurd ((congrArg State.txIsMine (h.failed rfl)).symm)
    (by decide)⟩

end Optee.RxTx
