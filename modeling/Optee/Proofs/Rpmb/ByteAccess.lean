import Optee.Lib.Blocks
import Optee.Rpmb.Device
import Mathlib.Tactic.Common
import Mathlib.Algebra.Order.Group.Nat

/-!
# Byte access to the RPMB device

With a core that is synchronised with its device, reading returns the bytes at an address and
writing changes those bytes and no other, as decrypted under the key of the access.
-/

namespace Optee.Rpmb

open RpmbM

/-! ## Steps that do not fail -/

section Steps

variable {W : Type} {C : Crypto} {s : State W} {ctx : Ctx} {fek : Option Fek} {uuid : Option Uuid}

theorem tickAlloc_calm {o : Oracle} (h : o.faults = []) : tickAlloc o = (.ok (), o) := by
  have htick : tick o = (.ok (), o) := by
    rw [tick, h]
    exact congrArg _ (congrArg (fun f => Oracle.mk f o.rnd) h.symm)
  rw [tickAlloc, Prog.bind_ok (Prog.attempt_ok htick)]
  rfl

theorem alloc_calm (h : s.oracle.faults = []) :
    (liftOracle tickAlloc : RpmbM W Unit) s = (.ok (), s) := by
  rw [liftOracle, Prog.zoom_ok (tickAlloc_calm h)]

theorem getCtx_eq (h : s.ctx = some ctx) : (getCtx : RpmbM W Ctx) s = (.ok ctx, s) := by
  rw [getCtx, Prog.bind_ok (show Prog.get s = (.ok s, s) from rfl), h]
  rfl

variable {n idx off len addr i rel : ℕ} {data : List UInt8}

variable (C fek uuid) in
theorem reqPack_eq (raw : RawReq) (hctx : s.ctx = some ctx) (hcalm : s.oracle.faults = [])
    (hn : n ≠ 0) (hrel : raw.msgType = .reqAuthDataWrite → n ≤ ctx.relWrBlkcnt)
    (hidx : ∀ idx ∈ raw.blkIdx, idx + n - 1 ≤ ctx.maxBlkIdx) :
    reqPack C raw n fek uuid s
      = (.ok (if raw.msgType = .reqAuthDataWrite then
          packMac C ctx.key ((List.range n).map (packFrame C raw fek uuid))
        else (List.range n).map (packFrame C raw fek uuid)), s) := by
  have hin : ¬(raw.blkIdx.any fun idx => ctx.maxBlkIdx < idx + n - 1) = true := by
    cases hraw : raw.blkIdx with
    | none => simp
    | some idx => simpa using hidx idx hraw
  have hle : ¬(raw.msgType = .reqAuthDataWrite ∧ ctx.relWrBlkcnt < n) :=
    fun h => (hrel h.1).not_gt h.2
  rw [reqPack, Prog.bind_ok (getCtx_eq hctx), if_neg hn, if_neg hle,
    Prog.bind_ok (alloc_calm hcalm), if_neg hin]
  by_cases hw : raw.msgType = .reqAuthDataWrite
  · rw [if_pos hw, if_pos hw, Prog.bind_ok (alloc_calm hcalm)]
    rfl
  · rw [if_neg hw, if_neg hw]
    rfl

/-- A block, decrypted if there is a key. -/
def plain (C : Crypto) (fek : Option Fek) (uuid : Option Uuid) (idx : ℕ) (b : Block) : Block :=
  match fek with
  | none => b
  | some fek => C.decryptBlock uuid idx fek b

theorem decrypt_eq {frm : Block} {size offset : ℕ} (hcalm : s.oracle.faults = [])
    (hfek : fek ≠ some (ByteVec.zero _)) (hsize : size + offset ≤ dataSize) (hidx : idx < 2 ^ 16) :
    decrypt C frm size offset idx fek uuid s
      = (.ok (((plain C fek uuid idx frm).toList.drop offset).take size), s) := by
  unfold decrypt
  rw [if_neg (Nat.not_lt.2 hsize)]
  cases fek with
  | none => rfl
  | some fek =>
    have hne : fek ≠ ByteVec.zero _ := fun h => hfek (congrArg some h)
    dsimp only
    rw [if_neg hne]
    have hwhen : Prog.when (size < dataSize) (liftOracle tickAlloc : RpmbM W Unit) s
        = (.ok (), s) := by
      rw [Prog.when]
      split_ifs
      · exact alloc_calm hcalm
      · rfl
    rw [Prog.bind_ok hwhen, u16, Nat.mod_eq_of_lt hidx]
    rfl

/-! ## Copying out -/

/-- Frames have the blocks from `start` on. -/
def Holds (frames : ℕ → Frame) (blocks : ℕ → Block) (start count : ℕ) : Prop :=
  ∀ i < count, (frames i).data = blocks (start + i)

theorem dataCpyLoop_eq {frames : ℕ → Frame} {blocks : ℕ → Block} {start : ℕ}
    (hcalm : s.oracle.faults = []) (hfek : fek ≠ some (ByteVec.zero _)) (hoff : off < dataSize)
    (hstart : start + n ≤ 2 ^ 16) (hframes : Holds frames blocks start n) :
    ∀ {count i : ℕ}, i + count ≤ n →
      dataCpyLoop C frames off start fek uuid count i s
        = (.ok (slice (byteAt fun j => plain C fek uuid j (blocks j))
            (dataSize * (start + i) + if i = 0 then off else 0)
            (dataSize * count - if i = 0 then off else 0)), s)
  | 0, i, _ => by
    rw [dataCpyLoop, Nat.mul_zero, Nat.zero_sub]
    rfl
  | count + 1, i, h => by
    have hi : (if i = 0 then off else 0) < dataSize := by split_ifs <;> [exact hoff; decide]
    unfold dataCpyLoop
    generalize (if i = 0 then off else 0) = o at hi
    have hle : dataSize - o + o ≤ dataSize := by omega
    rw [Prog.bind_ok (decrypt_eq hcalm hfek hle (by omega)),
      Prog.bind_ok (dataCpyLoop_eq hcalm hfek hoff hstart hframes (by omega)),
      if_neg (Nat.succ_ne_zero i), hframes i (by omega)]
    have hblock := slice_block (f := fun j => plain C fek uuid j (blocks j)) (i := start + i)
      ((Nat.add_comm _ _).trans_le hle)
    refine congrArg (fun l => (Outcome.ok l, s)) ?_
    rw [hblock]
    have hnext : dataSize * (start + (i + 1)) + 0
        = dataSize * (start + i) + o + (dataSize - o) := by
      rw [← Nat.add_assoc start, Nat.mul_succ]
      omega
    rw [hnext, slice_append]
    refine congrArg _ ?_
    rw [Nat.mul_succ]
    omega

/-- The number of blocks that a range touches. -/
def covered (len off : ℕ) : ℕ := (len + off + (dataSize - 1)) / dataSize

theorem covered_spec (off : ℕ) (hlen : 0 < len) :
    0 < covered len off ∧ dataSize * (covered len off - 1) < len + off
      ∧ len + off ≤ dataSize * covered len off := by
  simp only [covered, dataSize]
  omega

theorem last_size {total : ℕ} (hpos : 0 < n) (hlo : dataSize * (n - 1) < total)
    (hhi : total ≤ dataSize * n) :
    dataSize * (n - 1) + (if total % dataSize = 0 then dataSize else total % dataSize) = total
      ∧ (if total % dataSize = 0 then dataSize else total % dataSize) ≤ dataSize := by
  obtain ⟨m, rfl⟩ : ∃ m, n = m + 1 := ⟨n - 1, by omega⟩
  rw [Nat.add_sub_cancel] at *
  by_cases hzero : total % dataSize = 0
  · rw [if_pos hzero]
    simp only [dataSize] at *
    omega
  · rw [if_neg hzero]
    simp only [dataSize] at *
    omega

variable (C uuid) in
theorem dataCpyMacCalc_eq (key : Key) {frames : ℕ → Frame} {blocks : ℕ → Block} {start : ℕ}
    (hcalm : s.oracle.faults = []) (hfek : fek ≠ some (ByteVec.zero _)) (hlen : 0 < len)
    (hoff : off < dataSize) (hstart : start + covered len off ≤ 2 ^ 16)
    (hframes : Holds frames blocks start (covered len off))
    (haddr : (frames (covered len off - 1)).address = start) :
    dataCpyMacCalc C key frames len off (covered len off) fek uuid s
      = (.ok (slice (byteAt fun j => plain C fek uuid j (blocks j)) (dataSize * start + off) len,
          C.hmac key ((List.range (covered len off)).map fun i => (frames i).toBody)), s) := by
  obtain ⟨hpos, hlo, hhi⟩ := covered_spec off hlen
  generalize covered len off = n at *
  have hsmall : u32 (len + off) = len + off := by
    refine Nat.mod_eq_of_lt ?_
    have : dataSize * n ≤ dataSize * 2 ^ 16 := Nat.mul_le_mul_left _ (by omega)
    simp only [dataSize] at *
    omega
  unfold dataCpyMacCalc
  dsimp only
  rw [hsmall, haddr]
  by_cases hone : n = 1
  · subst hone
    have hle : len + off ≤ dataSize := by simpa using hhi
    rw [if_pos rfl, if_neg (Nat.not_lt.2 hle), Prog.bind_ok (alloc_calm hcalm),
      Prog.bind_ok (decrypt_eq hcalm hfek hle (by omega)), hframes 0 (by omega)]
    exact congrArg (fun l => (Outcome.ok (l, _), s))
      (slice_block (f := fun j => plain C fek uuid j (blocks j)) ((Nat.add_comm _ _).trans_le hle))
  · rw [if_neg hone, Prog.bind_ok (alloc_calm hcalm),
      Prog.bind_ok (dataCpyLoop_eq hcalm hfek hoff hstart hframes (by omega)), if_pos rfl,
      Nat.add_zero]
    -- the bytes in the last block
    have hlast := last_size hpos hlo hhi
    generalize (if (len + off) % dataSize = 0 then dataSize else (len + off) % dataSize)
      = size at hlast
    rw [Prog.bind_ok (decrypt_eq hcalm hfek (by simpa using hlast.2) (by omega)),
      hframes _ (by omega)]
    have hidx : start + n - 1 = start + (n - 1) := by omega
    have hblock := slice_block (f := fun j => plain C fek uuid j (blocks j)) (i := start + (n - 1))
      ((Nat.zero_add size).trans_le hlast.2)
    refine congrArg (fun l => (Outcome.ok (l, _), s)) ?_
    rw [hidx, hblock]
    have hnext : dataSize * (start + (n - 1)) + 0
        = dataSize * start + off + (dataSize * (n - 1) - off) := by
      have : dataSize ≤ dataSize * (n - 1) := Nat.le_mul_of_pos_right _ (by omega)
      rw [Nat.mul_add]
      omega
    rw [hnext, slice_append]
    refine congrArg _ ?_
    have : dataSize ≤ dataSize * (n - 1) := Nat.le_mul_of_pos_right _ (by omega)
    omega

end Steps

/-! ## A core that is in step with the device -/

/-- The core has synchronised with the device, and no allocation fails. -/
structure Ready (ctx : Ctx) (s : State Device) : Prop where
  alive : s.dead = false
  calm : s.oracle.faults = []
  ctx_eq : s.ctx = some ctx
  key_eq : ctx.key = s.world.key
  wrCntSynced : ctx.wrCntSynced = true
  keyDerived : ctx.keyDerived = true
  keyVerified : ctx.keyVerified = true
  devInfoSynced : ctx.devInfoSynced = true
  counter_eq : ctx.wrCnt = s.world.counter
  size_eq : ctx.maxBlkIdx + 1 = s.world.nblocks
  size_le : ctx.maxBlkIdx < 2 ^ 16
  rel_pos : 0 < ctx.relWrBlkcnt
  rel_le : ctx.relWrBlkcnt ≤ s.world.limit

/-- The bytes of the device, decrypted if there is a key. -/
def contents (C : Crypto) (fek : Option Fek) (uuid : Option Uuid) (d : Device) : ℕ → UInt8 :=
  byteAt fun j => plain C fek uuid j (d.blocks j)

variable {C : Crypto} {cfg : Config} {ctx : Ctx} {s : State Device} {fek : Option Fek}
  {uuid : Option Uuid}

theorem Ready.init (h : Ready ctx s) : teeRpmbInit C (faithful C) cfg s = (.ok (), s) := by
  rw [teeRpmbInit, Prog.bind_ok (show Prog.get s = (.ok s, s) from rfl), h.alive,
    if_neg (by decide), h.ctx_eq]
  dsimp only
  rw [Prog.bind_ok (show (pure ctx : RpmbM Device Ctx) s = (.ok ctx, s) from rfl), h.devInfoSynced,
    if_pos rfl, Prog.bind_ok (show (pure ctx : RpmbM Device Ctx) s = (.ok ctx, s) from rfl),
    h.keyDerived, h.wrCntSynced, h.keyVerified]
  rfl

/-- The state after a nonce was drawn. -/
def drawn (s : State Device) : State Device :=
  { s with oracle := { s.oracle with rnd := s.oracle.rnd.tail } }

theorem Ready.drawn (h : Ready ctx s) : Ready ctx (drawn s) := { h with }

theorem draw_eq (s : State Device) :
    ∃ nonce, (liftOracle draw : RpmbM Device _) s = (.ok nonce, drawn s) :=
  ⟨_, rfl⟩

/-! ## Coming into step -/

/-- The context once the counter was read from the device. -/
def Ctx.synced (ctx : Ctx) (d : Device) : Ctx :=
  { ctx with wrCnt := d.counter, keyVerified := true, wrCntSynced := true }

theorem verifyKeySyncCounter_eq (hctx : s.ctx = some ctx) (hcalm : s.oracle.faults = [])
    (hkey : ctx.key = s.world.key) : teeRpmbVerifyKeySyncCounter C (faithful C) s
      = (.ok (), { drawn s with ctx := some (ctx.synced s.world) }) := by
  obtain ⟨nonce, hdraw⟩ := draw_eq s
  generalize hraw : (⟨.reqWriteCounterValRead, none, none, none, some nonce, none⟩ : RawReq) = raw
  have hpack := reqPack_eq C none none raw (s := drawn s) (n := 1) hctx hcalm (by decide)
    (by simp [← hraw]) (by simp [← hraw])
  rw [if_neg (by simp [← hraw])] at hpack
  generalize hresp : (fun _ : ℕ => s.world.sign C ⟨ByteVec.zero _, nonce, s.world.counter, 0, 0, 0,
    .respWriteCounterValRead⟩) = resp
  have hinvoke : invoke (faithful C) 0 ((List.range 1).map (packFrame C raw none none)) (drawn s)
      = (.ok resp, drawn s) := by
    rw [← hraw, ← hresp]
    rfl
  have hverify : verifyMac C resp ⟨.respWriteCounterValRead, none, some ctx.wrCnt, some nonce, none⟩
      1 none none (drawn s) = (.ok [], drawn s) := by
    have hmac := Prog.bind_ok (f := fun _ => (pure ([], C.hmac ctx.key [(resp 0).toBody]) :
      RpmbM Device (List UInt8 × Key))) (alloc_calm (s := drawn s) hcalm)
    rw [verifyMac, Prog.bind_ok (getCtx_eq (s := drawn s) hctx),
      if_neg (by simp [← hresp, Device.sign]),
      if_neg (by simp), if_neg (by decide), Prog.bind_ok hmac]
    refine congrFun (if_neg (not_not.2 ?_)) _
    rw [hkey, ← hresp]
    rfl
  have hunpack : respUnpackVerify C resp ⟨.respWriteCounterValRead, none, some ctx.wrCnt,
      some nonce, none⟩ 1 none none (drawn s) = (.ok (.ok [], some s.world.counter), drawn s) := by
    have hheader : checkHeader (resp 0) ⟨.respWriteCounterValRead, none, some ctx.wrCnt, some nonce,
        none⟩ = .ok () := by
      simp [checkHeader, ← hresp, Device.sign]
    unfold respUnpackVerify
    rw [if_neg (by decide), hheader]
    dsimp only
    rw [if_neg (by simp)]
    refine (Prog.bind_ok (getCtx_eq (s := drawn s) hctx)).trans ?_
    refine (Prog.bind_ok (by rfl : _ = (Outcome.ok (), drawn s))).trans ?_
    rw [Prog.bind_ok (Prog.attempt_ok hverify), ← hresp]
    rfl
  rw [teeRpmbVerifyKeySyncCounter, Prog.bind_ok (alloc_calm hcalm), Prog.bind_ok hdraw, hraw,
    Prog.bind_ok hpack, Prog.bind_ok hinvoke, Prog.bind_ok (getCtx_eq (s := drawn s) hctx),
    Prog.bind_ok hunpack]
  refine (Prog.bind_ok (getCtx_eq (s := drawn s) hctx)).trans ?_
  rfl

/-- A device that the core can use: it has the key that the core derives for it, and takes as many
blocks in a write as the core will send. -/
structure Usable (C : Crypto) (cfg : Config) (d : Device) : Prop where
  key_eq : d.key = C.keyGen d.cid
  size_pos : 0 < d.sizeMult.1
  size_le : d.sizeMult.1 ≤ 128
  rel_pos : cfg.multipleWrite → 0 < d.relWrSecC.1
  rel_le : (if cfg.multipleWrite then d.relWrSecC.1 * 2 else 1) ≤ d.limit

/-- `tee_rpmb_init` brings the core into step with the device. -/
theorem init_ready (halive : s.dead = false) (hcalm : s.oracle.faults = []) (hctx : s.ctx = none)
    (hdev : Usable C cfg s.world) : ∃ ctx s', teeRpmbInit C (faithful C) cfg s = (.ok (), s')
      ∧ s'.world = s.world ∧ Ready ctx s' := by
  generalize hctx' : ({ Ctx.zero with
    maxBlkIdx := s.world.nblocks - 1
    cid := s.world.cid
    relWrBlkcnt := if cfg.multipleWrite then s.world.relWrSecC.1 * 2 else 1
    devInfoSynced := true } : Ctx) = ctx
  have hzero : ({ s with ctx := some Ctx.zero } : State Device).oracle.faults = [] := hcalm
  have hinfo : syncDevInfo (faithful C) cfg Ctx.zero { s with ctx := some Ctx.zero }
      = (.ok ctx, { s with ctx := some ctx }) := by
    have hget : teeRpmbGetDevInfo (faithful C) { s with ctx := some Ctx.zero }
        = (.ok ⟨s.world.cid, s.world.sizeMult, s.world.relWrSecC, true⟩,
          { s with ctx := some Ctx.zero }) := by
      rw [teeRpmbGetDevInfo, Prog.bind_ok (alloc_calm hzero)]
      rfl
    have hle := hdev.size_le
    rw [syncDevInfo, Prog.bind_ok hget, if_neg hdev.size_pos.ne',
      if_neg (by dsimp only; omega), ← hctx']
    rfl
  generalize hkeyed : ({ ctx with key := C.keyGen ctx.cid, keyDerived := true } : Ctx) = ctx₁
  have hkey : ctx₁.key = s.world.key := by
    rw [← hkeyed, ← hctx', hdev.key_eq]
  refine ⟨ctx₁.synced s.world, { drawn s with ctx := some (ctx₁.synced s.world) }, ?_, rfl, ?_⟩
  · rw [teeRpmbInit, Prog.bind_ok (show Prog.get s = (.ok s, s) from rfl), halive,
      if_neg (by decide), hctx]
    dsimp only
    refine (Prog.bind_ok ((Prog.bind_ok (alloc_calm hcalm)).trans rfl)).trans ?_
    refine (Prog.bind_ok hinfo).trans ?_
    have hderived : ctx.keyDerived = false := by rw [← hctx']; rfl
    have hsynced : ctx.wrCntSynced = false := by rw [← hctx']; rfl
    rw [hkeyed, hderived, hsynced]
    refine (Prog.bind_ok (by rfl :
      _ = (Outcome.ok (), ({ s with ctx := some ctx₁ } : State Device)))).trans ?_
    have hsync := verifyKeySyncCounter_eq (C := C) (s := { s with ctx := some ctx₁ }) rfl hcalm hkey
    exact (Prog.bind_ok (Prog.attempt_ok hsync)).trans rfl
  · have hle := hdev.size_le
    have hpos := hdev.size_pos
    subst hkeyed hctx'
    refine ⟨halive, hcalm, rfl, hkey, rfl, rfl, rfl, rfl, rfl, ?_, ?_, ?_, hdev.rel_le⟩
    · exact Nat.sub_add_cancel (Nat.mul_pos hpos (by decide))
    · show s.world.sizeMult.1 * 512 - 1 < 2 ^ 16
      omega
    · show 0 < if cfg.multipleWrite then _ else _
      split
      · have := hdev.rel_pos ‹_›
        omega
      · decide

/-! ## Reading -/

variable (C) in
theorem invoke_read (nonce : ByteVec 16) (hin : idx + n ≤ s.world.nblocks) :
    invoke (faithful C) n
        ((List.range 1).map (packFrame C ⟨.reqAuthDataRead, none, some idx, none, some nonce,
          none⟩ none none)) s
      = (.ok (s.world.readFrames C nonce idx n), s) := by
  have hex : (faithful C).exchange n
      ((List.range 1).map (packFrame C ⟨.reqAuthDataRead, none, some idx, none, some nonce,
      none⟩ none none)) s.world = (some (s.world.readFrames C nonce idx n), s.world) :=
      if_neg (Nat.not_lt.2 hin)
  rw [invoke, hex]

theorem respUnpackVerify_read {nonce : ByteVec 16} (h : Ready ctx s)
    (hfek : fek ≠ some (ByteVec.zero _)) (hlen : 0 < len) (hoff : off < dataSize)
    (hstart : idx + covered len off ≤ 2 ^ 16) :
    respUnpackVerify C (s.world.readFrames C nonce idx (covered len off))
        ⟨.respAuthDataRead, some idx, none, some nonce,
          some (len, off)⟩ (covered len off) fek uuid s
      = (.ok (.ok (slice (contents C fek uuid s.world) (dataSize * idx + off) len), none), s) := by
  obtain ⟨hpos, -⟩ := covered_spec off hlen
  generalize hresp : s.world.readFrames C nonce idx (covered len off) = resp
  have hbody : ∀ i, (resp i).toBody
      = ⟨s.world.blocks (idx + i), nonce, 0, idx, covered len off, 0, .respAuthDataRead⟩ := by
    intro i
    rw [← hresp]
    rfl
  have hmac : (resp (covered len off - 1)).keyMac
      = C.hmac ctx.key ((List.range (covered len off)).map fun i => (resp i).toBody) := by
    rw [h.key_eq, List.map_congr_left fun i _ => hbody i, ← hresp]
    exact if_pos rfl
  have hcopy := dataCpyMacCalc_eq C uuid ctx.key h.calm hfek hlen hoff hstart
    (fun i _ => congrArg Body.data (hbody i)) (congrArg Body.address (hbody _))
  have hverify : verifyMac C resp ⟨.respAuthDataRead, some idx, none, some nonce, some (len, off)⟩
      (covered len off) fek uuid s
      = (.ok (slice (contents C fek uuid s.world) (dataSize * idx + off) len), s) := by
    have hnonce : (resp (covered len off - 1)).nonce = nonce := congrArg Body.nonce (hbody _)
    rw [verifyMac, Prog.bind_ok (getCtx_eq h.ctx_eq), if_neg (by simp [hnonce]), if_pos rfl]
    dsimp only
    rw [Prog.bind_ok hcopy]
    dsimp only
    rw [if_neg (not_not.2 hmac.symm)]
    rfl
  have hheader : checkHeader (resp (covered len off - 1))
      ⟨.respAuthDataRead, some idx, none, some nonce, some (len, off)⟩ = .ok () := by
    simp [checkHeader, hbody]
  unfold respUnpackVerify
  rw [if_neg hpos.ne', hheader]
  dsimp only
  rw [if_neg (by simp), Prog.bind_ok (getCtx_eq h.ctx_eq)]
  refine (Prog.bind_ok (by simp [Prog.when]; rfl : _ = (Outcome.ok (), s))).trans ?_
  rw [Prog.bind_ok (Prog.attempt_ok hverify)]
  rfl

theorem blkcntOf_eq (hoff : off < dataSize) (hcount : covered len off < 2 ^ 16) :
    blkcntOf len off = covered len off := by
  have hsmall : len + off + (dataSize - 1) < 2 ^ 32 := by
    simp only [covered, dataSize] at *
    omega
  rw [blkcntOf, u32, u32, Nat.mod_eq_of_lt (by omega : len + off < 2 ^ 32), Nat.mod_eq_of_lt hsmall]
  exact Nat.mod_eq_of_lt hcount

theorem access_spec (hlen : 0 < len) (hin : addr + len ≤ dataSize * n) :
    addr / dataSize + covered len (addr % dataSize) ≤ n
      ∧ dataSize * (addr / dataSize) + addr % dataSize = addr
      ∧ addr % dataSize < dataSize := by
  refine ⟨?_, Nat.div_add_mod _ _, Nat.mod_lt _ (by decide)⟩
  simp only [covered, dataSize] at *
  omega

theorem read_eq (h : Ready ctx s) (hfek : fek ≠ some (ByteVec.zero _)) (hlen : 0 < len)
    (hin : addr + len ≤ dataSize * (ctx.maxBlkIdx + 1))
    (hcount : covered len (addr % dataSize) < 2 ^ 16) :
    teeRpmbRead C (faithful C) cfg addr len fek uuid s
      = (.ok (slice (contents C fek uuid s.world) addr len), drawn s) := by
  obtain ⟨hlast, haddr, hoff⟩ := access_spec hlen hin
  have hpos := (covered_spec (addr % dataSize) hlen).1
  have hsize := h.size_le
  have hidx : u16 (addr / dataSize) = addr / dataSize := Nat.mod_eq_of_lt (by omega)
  have hsum : ¬u32 (len + addr % dataSize + dataSize) < dataSize := by
    have : len + addr % dataSize + dataSize < 2 ^ 32 := by
      simp only [covered, dataSize] at *
      omega
    rw [u32, Nat.mod_eq_of_lt this]
    omega
  obtain ⟨nonce, hdraw⟩ := draw_eq s
  have hpack : reqPack C ⟨.reqAuthDataRead, none, some (addr / dataSize), none, some nonce,
    none⟩ 1 none none
      (drawn s) = (.ok ((List.range 1).map (packFrame C
        ⟨.reqAuthDataRead, none, some (addr / dataSize), none, some nonce, none⟩ none none)),
        drawn s) := by
    rw [reqPack_eq C none none _ h.drawn.ctx_eq h.drawn.calm (by decide) (by simp),
      if_neg (by simp)]
    intro idx hmem
    obtain rfl := Option.some.inj hmem
    omega
  have hinvoke := invoke_read C nonce (h.drawn.size_eq ▸ hlast)
  unfold teeRpmbRead
  dsimp only
  rw [if_neg hlen.ne', if_neg hsum, blkcntOf_eq hoff hcount, hidx, Prog.bind_ok h.init,
    Prog.bind_ok (alloc_calm h.calm), Prog.bind_ok hdraw, Prog.bind_ok hpack, Prog.bind_ok hinvoke,
    Prog.bind_ok (respUnpackVerify_read h.drawn hfek hlen hoff (by omega)), haddr]
  rfl

/-! ## One write -/

theorem packMac_concat (key : Key) (frames : List Frame) (last : Frame) :
    packMac C key (frames ++ [last])
      = frames ++ [{ last with keyMac := C.hmac key ((frames ++ [last]).map (·.toBody)) }] := by
  rw [packMac, List.getLast?_concat, List.dropLast_concat]

/-- The request for a reliable write. -/
def writeRaw (idx : ℕ) (data : List UInt8) (n wrCnt : ℕ) : RawReq :=
  ⟨.reqAuthDataWrite, some n, some idx, some wrCnt, none, some data⟩

/-- The state after the device took a write. -/
def wrote (C : Crypto) (ctx : Ctx) (s : State Device) (idx : ℕ) (data : List UInt8) (n : ℕ)
    (fek : Option Fek) (uuid : Option Uuid) : State Device :=
  { s with
    ctx := some { ctx with wrCnt := u32 (ctx.wrCnt + 1) }
    world := { s.world with
      counter := s.world.counter + 1
      blocks := Device.writeBlocks s.world.blocks idx
        ((List.range n).map (packData C (writeRaw idx data n ctx.wrCnt) fek uuid))
      writes := s.world.writes ++ [(idx, n)] } }

theorem exchange_of_taken {d : Device} {frames : List Frame} {last : Frame}
    (hlast : frames.getLast? = some last) (hmsg : last.msgType = .reqAuthDataWrite)
    (htaken : d.refuses C frames last = none) :
    d.exchange C 0 frames
      = (some fun _ => d.sign C ⟨ByteVec.zero _, ByteVec.zero _, d.counter + 1, last.address, 0, 0,
          .respAuthDataWrite⟩,
        { d with
          counter := d.counter + 1
          blocks := Device.writeBlocks d.blocks last.address (frames.map (·.data))
          writes := d.writes ++ [(last.address, frames.length)] }) := by
  rw [Device.exchange, hlast]
  dsimp only
  rw [hmsg]
  dsimp only
  rw [htaken]

theorem exchange_write (h : Ready ctx s) (hn : 0 < n) (hrel : n ≤ ctx.relWrBlkcnt)
    (hin : idx + n ≤ ctx.maxBlkIdx + 1) (hcnt : s.world.counter + 1 < 2 ^ 32) :
    (faithful C).exchange 0
        (packMac C ctx.key ((List.range n).map
          (packFrame C (writeRaw idx data n ctx.wrCnt) fek uuid))) s.world
      = (some fun _ => s.world.sign C ⟨ByteVec.zero _, ByteVec.zero _, s.world.counter + 1,
          idx, 0, 0, .respAuthDataWrite⟩, (wrote C ctx s idx data n fek uuid).world) := by
  obtain ⟨m, rfl⟩ : ∃ m, n = m + 1 := ⟨n - 1, by omega⟩
  generalize hframe : packFrame C (writeRaw idx data (m + 1) ctx.wrCnt) fek uuid = frame
  have hbody : ∀ i, (frame i).toBody = ⟨packData C (writeRaw idx data (m + 1) ctx.wrCnt) fek uuid i,
      ByteVec.zero _, ctx.wrCnt, idx, m + 1, 0, .reqAuthDataWrite⟩ := by
    intro i
    rw [← hframe]
    rfl
  rw [List.range_succ, List.map_append, List.map_singleton, packMac_concat]
  set last : Frame := { frame m with
    keyMac := C.hmac ctx.key (((List.range m).map frame ++ [frame m]).map (·.toBody)) } with hlast
  set frames := (List.range m).map frame ++ [last] with hframes
  have hlastBody : last.toBody = (frame m).toBody := rfl
  have hlen : frames.length = m + 1 := by simp [hframes]
  have hmac : last.keyMac = C.hmac s.world.key (frames.map (·.toBody)) := by
    rw [← h.key_eq, hframes, List.map_append, List.map_singleton, hlastBody, hlast, List.map_append,
      List.map_singleton]
  have hcounter : last.writeCounter = s.world.counter :=
    (congrArg Body.writeCounter (hlastBody.trans (hbody m))).trans h.counter_eq
  have haddr : last.address = idx := congrArg Body.address (hlastBody.trans (hbody m))
  have hblocks : last.blockCount = m + 1 := congrArg Body.blockCount (hlastBody.trans (hbody m))
  have htaken : s.world.refuses C frames last = none := by
    have hsize := h.size_eq
    have hlimit := h.rel_le
    rw [Device.refuses, if_neg (not_not.2 hmac), if_neg (by omega), if_neg (by omega),
      if_neg (by omega)]
  have hdata : frames.map (·.data)
      = (List.range (m + 1)).map (packData C (writeRaw idx data (m + 1) ctx.wrCnt) fek uuid) := by
    rw [hframes, List.map_append, List.map_map, List.range_succ, List.map_append]
    exact congrArg₂ _ (List.map_congr_left fun i _ => congrArg Body.data (hbody i))
      (congrArg (fun b => [b]) (congrArg Body.data (hlastBody.trans (hbody m))))
  refine (exchange_of_taken (List.getLast?_concat ..)
    (congrArg Body.msgType (hlastBody.trans (hbody m))) htaken).trans ?_
  rw [haddr, hdata, hlen]
  rfl

theorem respUnpackVerify_write (h : Ready ctx s) (hcnt : s.world.counter + 1 < 2 ^ 32) :
    respUnpackVerify C (fun _ => s.world.sign C ⟨ByteVec.zero _, ByteVec.zero _,
      s.world.counter + 1, idx, 0, 0,
          .respAuthDataWrite⟩)
        ⟨.respAuthDataWrite, some idx, some ctx.wrCnt, none, none⟩ 1 none none
        { s with world := (wrote C ctx s idx data n fek uuid).world }
      = (.ok (.ok [], some (s.world.counter + 1)), wrote C ctx s idx data n fek uuid) := by
  have hcounter : s.world.counter + 1 = u32 (ctx.wrCnt + 1) := by
    rw [h.counter_eq]
    exact (Nat.mod_eq_of_lt hcnt).symm
  have hverify :
    verifyMac C (fun _ => s.world.sign C ⟨ByteVec.zero _, ByteVec.zero _, s.world.counter + 1, idx,
        0, 0, .respAuthDataWrite⟩)
      ⟨.respAuthDataWrite, some idx, some ctx.wrCnt, none,
      none⟩ 1 none none (wrote C ctx s idx data n fek uuid)
      = (.ok [], wrote C ctx s idx data n fek uuid) := by
    have hmac := Prog.bind_ok (f := fun _ => (pure ([], C.hmac ctx.key
        [(s.world.sign C ⟨ByteVec.zero _, ByteVec.zero _, s.world.counter + 1, idx, 0, 0,
          .respAuthDataWrite⟩).toBody]) : RpmbM Device (List UInt8 × Key)))
      (alloc_calm (s := wrote C ctx s idx data n fek uuid) h.calm)
    rw [verifyMac, Prog.bind_ok (getCtx_eq (s := wrote C ctx s idx data n fek uuid) rfl),
      if_neg (by simp),
      if_neg (by simp), if_neg (by decide), Prog.bind_ok hmac]
    refine congrFun (if_neg (not_not.2 ?_)) _
    rw [h.key_eq]
    rfl
  have hheader : checkHeader (s.world.sign C ⟨ByteVec.zero _, ByteVec.zero _, s.world.counter + 1,
      idx, 0, 0, .respAuthDataWrite⟩) ⟨.respAuthDataWrite, some idx, some ctx.wrCnt, none,
      none⟩ = .ok () := by
    simp [checkHeader, Device.sign]
  unfold respUnpackVerify
  rw [if_neg (by decide), hheader]
  dsimp only
  rw [if_neg (by simp [Device.sign, ← hcounter])]
  refine (Prog.bind_ok (getCtx_eq
    (s := { s with world := (wrote C ctx s idx data n fek uuid).world }) h.ctx_eq)).trans ?_
  refine (Prog.bind_ok (by rfl : _ = (Outcome.ok (), wrote C ctx s idx data n fek uuid))).trans ?_
  rw [Prog.bind_ok (Prog.attempt_ok hverify)]
  rfl

variable (C fek uuid) in
theorem writeReq_eq {mem : ℕ} (data : List UInt8) (h : Ready ctx s) (hn : 0 < n)
    (hrel : n ≤ ctx.relWrBlkcnt) (hin : idx + n ≤ ctx.maxBlkIdx + 1)
    (hcnt : s.world.counter + 1 < 2 ^ 32) (hmem : mem ≤ reqSize n) :
    writeReq C (faithful C) mem idx data n fek uuid s
      = (.ok (), wrote C ctx s idx data n fek uuid) := by
  have hpack :=
    reqPack_eq C fek uuid (writeRaw idx data n ctx.wrCnt) h.ctx_eq h.calm hn.ne' (fun _ => hrel)
      (fun i hi => by obtain rfl := Option.some.inj hi; omega)
  rw [if_pos (show (writeRaw idx data n ctx.wrCnt).msgType = .reqAuthDataWrite from rfl)] at hpack
  have hinvoke : invoke (faithful C) 0 (packMac C ctx.key ((List.range n).map
      (packFrame C (writeRaw idx data n ctx.wrCnt) fek uuid))) s
      = (.ok fun _ => s.world.sign C ⟨ByteVec.zero _, ByteVec.zero _, s.world.counter + 1,
          idx, 0, 0, .respAuthDataWrite⟩,
          { s with world := (wrote C ctx s idx data n fek uuid).world }) := by
    rw [invoke, exchange_write h hn hrel hin hcnt]
  rw [writeReq, Prog.bind_ok (getCtx_eq h.ctx_eq), Prog.assert, decide_eq_true hmem, if_pos rfl]
  refine (Prog.bind_ok (by rfl : _ = (Outcome.ok (), s))).trans ?_
  refine (Prog.bind_ok (Prog.attempt_ok hpack)).trans ?_
  refine (Prog.bind_ok (Prog.attempt_ok hinvoke)).trans ?_
  refine (Prog.bind_ok (respUnpackVerify_write h hcnt)).trans ?_
  rfl

variable (C fek uuid) in
theorem Ready.wrote (idx n : ℕ) (data : List UInt8) (h : Ready ctx s)
    (hcnt : s.world.counter + 1 < 2 ^ 32) :
    Ready { ctx with wrCnt := u32 (ctx.wrCnt + 1) } (wrote C ctx s idx data n fek uuid) := by
  refine { h with ctx_eq := rfl, counter_eq := ?_ }
  rw [h.counter_eq]
  exact Nat.mod_eq_of_lt hcnt

/-! ## The contents after a write -/

theorem getD_blockAt {k : ℕ} (hk : k < dataSize) :
    (blockAt data i).toList.getD k 0 = data.getD (dataSize * i + k) 0 := by
  have hzero : ∀ j, ((List.replicate dataSize (0 : UInt8)).drop j)[k - j]?.getD 0 = 0 := by
    intro j
    rw [List.drop_replicate, List.getElem?_replicate]
    split_ifs <;> rfl
  rw [List.getD_eq_getElem?_getD, List.getD_eq_getElem?_getD, blockAt, ByteVec.patch,
    ByteVec.toList_ofList, List.getElem?_take_of_lt hk, List.take_zero, List.nil_append,
    Nat.zero_add, Nat.mul_comm]
  rcases Nat.lt_or_ge k (data.drop (dataSize * i)).length with hlt | hge
  · rw [List.getElem?_append_left hlt, List.getElem?_drop]
  · have hpast : data.length ≤ dataSize * i + k := by
      rw [List.length_drop] at hge
      omega
    rw [List.getElem?_append_right hge, List.getElem?_eq_none hpast, Option.getD_none]
    exact hzero _

theorem plain_packData {wrCnt : ℕ} (hin : idx + i < 2 ^ 16) :
    plain C fek uuid (idx + i) (packData C (writeRaw idx data n wrCnt) fek uuid i)
      = blockAt data i := by
  cases fek with
  | none => rfl
  | some fek =>
    change C.decryptBlock uuid (idx + i) fek
      (C.encryptBlock uuid (u16 (idx + i)) fek (blockAt data i)) = _
    rw [u16, Nat.mod_eq_of_lt hin, C.decrypt_encrypt]

theorem contents_wrote (hin : idx + n ≤ 2 ^ 16) (a : ℕ) :
    contents C fek uuid (wrote C ctx s idx data n fek uuid).world a
      = if dataSize * idx ≤ a ∧ a < dataSize * (idx + n) then data.getD (a - dataSize * idx) 0
        else contents C fek uuid s.world a := by
  have hdiv := Nat.div_add_mod a dataSize
  have hmod : a % dataSize < dataSize := Nat.mod_lt _ (by decide)
  change (plain C fek uuid (a / dataSize) (Device.writeBlocks s.world.blocks idx
    ((List.range n).map (packData C (writeRaw idx data n ctx.wrCnt) fek uuid))
    (a / dataSize))).toList.getD
      (a % dataSize) 0 = _
  generalize a / dataSize = j at *
  by_cases hj : idx ≤ j ∧ j < idx + n
  · obtain ⟨i, rfl⟩ := Nat.exists_eq_add_of_le hj.1
    have hrange : dataSize * idx ≤ a ∧ a < dataSize * (idx + n) := by
      simp only [dataSize] at hdiv hmod ⊢
      omega
    have hget : ((List.range n).map (packData C (writeRaw idx data n ctx.wrCnt) fek uuid)).getD i
        (s.world.blocks (idx + i)) = packData C (writeRaw idx data n ctx.wrCnt) fek uuid i := by
      rw [List.getD_eq_getElem?_getD, List.getElem?_map, List.getElem?_range (by omega)]
      rfl
    have hsub : dataSize * i + a % dataSize = a - dataSize * idx := by
      simp only [dataSize] at hdiv ⊢
      omega
    rw [if_pos hrange, Device.writeBlocks, if_pos hj.1, Nat.add_sub_cancel_left, hget,
      plain_packData (by omega), getD_blockAt hmod, hsub]
  · have hrange : ¬(dataSize * idx ≤ a ∧ a < dataSize * (idx + n)) := by
      simp only [dataSize] at hdiv hmod ⊢
      omega
    have hsame : Device.writeBlocks s.world.blocks idx
        ((List.range n).map (packData C (writeRaw idx data n ctx.wrCnt) fek uuid)) j
        = s.world.blocks j := by
      rw [Device.writeBlocks]
      split_ifs with hle
      · exact List.getD_eq_default _ _ (by simp; omega)
      · rfl
    have hblock : a / dataSize = j := by
      simp only [dataSize] at hdiv hmod ⊢
      omega
    rw [if_neg hrange, hsame, contents, byteAt, hblock]

/-! ## A write of blocks -/

/-- Writes cover the blocks from `idx` on, each once and in order. -/
def InOrder (ws : List (ℕ × ℕ)) (idx n : ℕ) : Prop :=
  ws.flatMap (fun w => List.range' w.1 w.2) = List.range' idx n

/-- Blocks `start` to `n` were written, in order, and nothing else changed. -/
structure WroteBlocks (C : Crypto) (fek : Option Fek) (uuid : Option Uuid) (ctx : Ctx)
    (s s' : State Device) (data : List UInt8) (idx start n : ℕ) : Prop where
  ready : ∃ ctx', Ready ctx' s' ∧ ctx'.maxBlkIdx = ctx.maxBlkIdx
    ∧ ctx'.relWrBlkcnt = ctx.relWrBlkcnt
  contents_eq : ∀ a, contents C fek uuid s'.world a
    = if dataSize * (idx + start) ≤ a
    ∧ a < dataSize * (idx + n) then data.getD (a - dataSize * idx) 0
      else contents C fek uuid s.world a
  writes_eq : ∃ ws, s'.world.writes = s.world.writes ++ ws ∧ InOrder ws (idx + start) (n - start)
    ∧ ∀ w ∈ ws, w.2 ≤ ctx.relWrBlkcnt

/-- The number of reliable writes. -/
def nbrWrites (n rel : ℕ) : ℕ := n / rel + if 0 < n % rel then 1 else 0

theorem nbrWrites_spec (hn : 0 < n) (hrel : 0 < rel) :
    0 < nbrWrites n rel ∧ rel * (nbrWrites n rel - 1) < n ∧ n ≤ rel * nbrWrites n rel := by
  have hdiv := Nat.div_add_mod n rel
  have hmod := Nat.mod_lt n hrel
  rw [nbrWrites]
  split_ifs with h
  · rw [Nat.add_sub_cancel, Nat.mul_succ]
    refine ⟨Nat.succ_pos _, ?_, ?_⟩ <;> omega
  · have hpos : 0 < n / rel := Nat.pos_of_ne_zero fun h0 => by
      rw [h0, Nat.mul_zero] at hdiv
      omega
    rw [Nat.add_zero, Nat.mul_sub_one]
    have : rel ≤ rel * (n / rel) := Nat.le_mul_of_pos_right _ hpos
    refine ⟨hpos, ?_, ?_⟩ <;> omega

/-- The blocks of the `i`-th reliable write. -/
def tmpBlkcnt (n rel i : ℕ) : ℕ :=
  if i = nbrWrites n rel - 1 then u16 (n - rel * (nbrWrites n rel - 1)) else rel

theorem tmpBlkcnt_spec (hn : 0 < n) (hsmall : n < 2 ^ 16) (hrel : 0 < rel)
    (hi : i < nbrWrites n rel) :
    rel * i < n ∧ 0 < tmpBlkcnt n rel i ∧ tmpBlkcnt n rel i ≤ rel
      ∧ rel * i + tmpBlkcnt n rel i = min n (rel * (i + 1))
      ∧ (n ≤ rel ∨ rel ∣ n → min n rel ≤ tmpBlkcnt n rel i) := by
  obtain ⟨hpos, hlo, hhi⟩ := nbrWrites_spec hn hrel
  have hle : rel * i ≤ rel * (nbrWrites n rel - 1) := Nat.mul_le_mul_left _ (by omega)
  rw [tmpBlkcnt, u16, Nat.mod_eq_of_lt (by omega), Nat.mul_succ]
  have hlast : rel * (nbrWrites n rel - 1) + rel = rel * nbrWrites n rel := by
    rw [← Nat.mul_succ]
    congr 1
    omega
  split_ifs with h
  · subst h
    refine ⟨hlo, by omega, by omega, by omega, ?_⟩
    rintro (hone | ⟨m, rfl⟩)
    · have hzero : rel * (nbrWrites n rel - 1) = 0 := by
        refine Nat.mul_eq_zero.2 (Or.inr ?_)
        by_contra hne
        have : rel ≤ rel * (nbrWrites n rel - 1) :=
          Nat.le_mul_of_pos_right _ (Nat.pos_of_ne_zero hne)
        omega
      omega
    · have hcount : nbrWrites (rel * m) rel = m := by
        rw [nbrWrites, Nat.mul_div_cancel_left _ hrel, Nat.mul_mod_right]
        rfl
      rw [hcount] at hlast ⊢
      omega
  · have hnext : rel * i + rel ≤ rel * (nbrWrites n rel - 1) := by
      rw [← Nat.mul_succ]
      exact Nat.mul_le_mul_left _ (by omega)
    exact ⟨by omega, hrel, le_rfl, by omega, fun _ => min_le_right _ _⟩

theorem ite_join {α : Type} {d t a : ℕ} {x x' y : α} (h : d + t ≤ n)
    (hx : dataSize * (idx + d) ≤ a → x' = x) :
    (if dataSize * (idx + (d + t)) ≤ a ∧ a < dataSize * (idx + n) then x
      else if dataSize * (idx + d) ≤ a ∧ a < dataSize * (idx + d + t) then x' else y)
      = if dataSize * (idx + d) ≤ a ∧ a < dataSize * (idx + n) then x else y := by
  have hsplit : dataSize * (idx + d) ≤ a ∧ a < dataSize * (idx + n)
      ↔ dataSize * (idx + (d + t)) ≤ a ∧ a < dataSize * (idx + n)
        ∨ dataSize * (idx + d) ≤ a ∧ a < dataSize * (idx + d + t) := by
    simp only [dataSize]
    omega
  by_cases hsecond : dataSize * (idx + (d + t)) ≤ a ∧ a < dataSize * (idx + n)
  · rw [if_pos hsecond, if_pos (hsplit.2 (Or.inl hsecond))]
  rw [if_neg hsecond]
  by_cases hfirst : dataSize * (idx + d) ≤ a ∧ a < dataSize * (idx + d + t)
  · rw [if_pos hfirst, if_pos (hsplit.2 (Or.inr hfirst)), hx hfirst.1]
  · rw [if_neg hfirst, if_neg fun h => (hsplit.1 h).elim hsecond hfirst]

variable (C fek uuid) in
theorem writeBlkLoop_eq (data : List UInt8) {last : ℕ} (hn : 0 < n) (hsmall : n < 2 ^ 16)
    (hrel : 0 < rel) (hlast : last < 2 ^ 16) (hin : idx + n ≤ last + 1)
    (hsplit : n ≤ rel ∨ rel ∣ n) :
    ∀ {left i : ℕ} {ctx : Ctx} {s : State Device}, Ready ctx s → ctx.relWrBlkcnt = rel →
      ctx.maxBlkIdx = last →
      i + left = nbrWrites n rel → s.world.counter + left < 2 ^ 32 →
      ∃ s', writeBlkLoop C (faithful C) rel n (nbrWrites n rel)
        (reqSize (min n rel)) data fek uuid left i
          (u16 (idx + min n (rel * i))) s = (.ok (), s')
        ∧ WroteBlocks C fek uuid ctx s s' data idx (min n (rel * i)) n
  | 0, i, ctx, s, h, _, _, hi, _ => by
    have hend : min n (rel * i) = n := by
      obtain rfl : i = nbrWrites n rel := hi
      exact min_eq_left (nbrWrites_spec hn hrel).2.2
    refine ⟨s, rfl, ⟨ctx, h, rfl, rfl⟩, fun a => ?_, [], (List.append_nil _).symm, ?_, nofun⟩
    · rw [hend, if_neg (by omega)]
    · rw [hend, Nat.sub_self]
      rfl
  | left + 1, i, ctx, s, h, hctx, hmax, hi, hcnt => by
    obtain ⟨hlt, hpos, hle, hnext, hmem⟩ := tmpBlkcnt_spec hn hsmall hrel (i := i) (by omega)
    have hdone : min n (rel * i) = rel * i := min_eq_right hlt.le
    have hidx : u16 (idx + rel * i) = idx + rel * i := Nat.mod_eq_of_lt (by omega)
    have hreq : reqSize (min n rel) ≤ reqSize (tmpBlkcnt n rel i) :=
      Nat.add_le_add_left (Nat.mul_le_mul_left _ (hmem hsplit)) _
    have hrange : idx + rel * i + tmpBlkcnt n rel i ≤ ctx.maxBlkIdx + 1 := by omega
    have hwrite :=
      writeReq_eq C fek uuid (data.drop (i * rel * dataSize)) h hpos (hle.trans hctx.ge) hrange
        (by omega) hreq
    have hready :=
      h.wrote C fek uuid (idx + rel * i) (tmpBlkcnt n rel i) (data.drop (i * rel * dataSize))
        (by omega)
    have hcounter :
      (wrote C ctx s (idx + rel * i) (data.drop (i * rel * dataSize)) (tmpBlkcnt n rel i) fek
        uuid).world.counter + left < 2 ^ 32 := by
      change s.world.counter + 1 + left < 2 ^ 32
      omega
    obtain ⟨s', hrest, ⟨ctx', hready', hmax', hrel'⟩, hcontents, ws, hws, horder, hwsrel⟩ :=
      writeBlkLoop_eq data hn hsmall hrel hlast hin hsplit (i := i + 1) hready hctx hmax
        (by omega) hcounter
    refine ⟨s', ?_, ⟨ctx', hready', hmax', hrel'⟩, fun a => ?_,
      (idx + rel * i, tmpBlkcnt n rel i) :: ws, ?_, ?_, ?_⟩
    · rw [hdone, hidx, writeBlkLoop]
      rw [← hnext, ← Nat.add_assoc] at hrest
      exact (Prog.bind_ok hwrite).trans hrest
    · rw [hcontents, contents_wrote (by omega), ← hnext, hdone, List.getD_eq_getElem?_getD,
        List.getD_eq_getElem?_getD, List.getElem?_drop, Nat.mul_comm i rel]
      refine ite_join (by omega) fun ha => ?_
      have hoffs : rel * i * dataSize + (a - dataSize * (idx + rel * i)) = a - dataSize * idx := by
        rw [Nat.mul_add] at ha ⊢
        rw [Nat.mul_comm _ dataSize]
        omega
      rw [hoffs]
    · rw [hws]
      exact List.append_assoc _ _ _
    · have hsum : tmpBlkcnt n rel i + (n - (rel * i + tmpBlkcnt n rel i)) = n - rel * i := by omega
      rw [← hnext, ← Nat.add_assoc] at horder
      rw [InOrder, List.flatMap_cons, horder, hdone, List.range'_append_1, hsum]
    · intro w hw
      rcases List.mem_cons.1 hw with rfl | hw
      · exact hle.trans hctx.ge
      · exact hwsrel w hw

variable (C cfg fek uuid) in
theorem writeBlk_eq (data : List UInt8) (h : Ready ctx s) (hn : 0 < n) (hsmall : n < 2 ^ 16)
    (hin : idx + n ≤ ctx.maxBlkIdx + 1) (hsplit : n ≤ ctx.relWrBlkcnt ∨ ctx.relWrBlkcnt ∣ n)
    (hcnt : s.world.counter + n < 2 ^ 32) :
    ∃ s', teeRpmbWriteBlk C (faithful C) cfg idx data n fek uuid s = (.ok (), s')
      ∧ WroteBlocks C fek uuid ctx s s' data idx 0 n := by
  have hsize := h.size_le
  have hwrites : nbrWrites n ctx.relWrBlkcnt ≤ n := by
    obtain ⟨hpos, hlo, -⟩ := nbrWrites_spec hn h.rel_pos
    have := Nat.le_mul_of_pos_left (nbrWrites n ctx.relWrBlkcnt - 1) h.rel_pos
    omega
  obtain ⟨s', hrun, hwrote⟩ :=
    writeBlkLoop_eq C fek uuid data hn hsmall h.rel_pos h.size_le hin hsplit (i := 0) h rfl rfl
      (Nat.zero_add _) (by omega)
  rw [Nat.mul_zero, Nat.min_zero, Nat.add_zero, u16, Nat.mod_eq_of_lt (by omega)] at hrun
  refine ⟨s', ?_, by simpa using hwrote⟩
  have hmem : (if n < ctx.relWrBlkcnt then reqSize n else reqSize ctx.relWrBlkcnt)
      = reqSize (min n ctx.relWrBlkcnt) := by
    split_ifs with hlt
    · rw [min_eq_left hlt.le]
    · rw [min_eq_right (Nat.not_lt.1 hlt)]
  rw [teeRpmbWriteBlk, if_neg hn.ne', Prog.bind_ok h.init, Prog.bind_ok (getCtx_eq h.ctx_eq)]
  refine (Prog.bind_ok (alloc_calm h.calm)).trans ?_
  rw [hmem]
  exact hrun

/-- What an access of some bytes does. -/
structure ByteAccess (C : Crypto) (cfg : Config) (ctx : Ctx) (s : State Device) (addr len : ℕ)
    (fek : Option Fek) (uuid : Option Uuid) : Prop where
  read : ∃ s', teeRpmbRead C (faithful C) cfg addr len fek uuid s
    = (.ok (slice (contents C fek uuid s.world) addr len), s')
  write : ∀ data : List UInt8, data.length = len →
    ∃ s', teeRpmbWrite C (faithful C) cfg addr data fek uuid s = (.ok (), s')
      ∧ (∀ a, contents C fek uuid s'.world a
        = if addr ≤ a ∧ a < addr + len then data.getD (a - addr) 0
        else contents C fek uuid s.world a)
      ∧ (∃ ws, s'.world.writes = s.world.writes ++ ws
        ∧ InOrder ws (addr / dataSize) (covered len (addr % dataSize)) ∧ ∀ w ∈ ws,
        w.2 ≤ ctx.relWrBlkcnt)
      ∧ ∃ s'', teeRpmbRead C (faithful C) cfg addr len fek uuid s' = (.ok data, s'')

theorem getD_patched {g : ℕ → UInt8} {base k : ℕ} (hoff : off + data.length ≤ n)
    (hk : k < n) :
    ((slice g base n).take off ++ data ++ (slice g base n).drop (off + data.length)).getD k 0
      = if off ≤ k ∧ k < off + data.length then data.getD (k - off) 0 else g (base + k) := by
  rw [take_slice (by omega), drop_slice hoff, List.getD_eq_getElem?_getD,
    List.getD_eq_getElem?_getD]
  rcases Nat.lt_or_ge k off with hlt | hge
  · rw [List.append_assoc, List.getElem?_append_left (by simpa using hlt), getElem?_slice hlt,
      if_neg (by omega)]
    rfl
  rcases Nat.lt_or_ge k (off + data.length) with hlt | hpast
  · rw [List.getElem?_append_left (by simpa using hlt),
      List.getElem?_append_right (by simpa using hge), length_slice, if_pos ⟨hge, hlt⟩]
  · have hlen : (slice g base off ++ data).length = off + data.length := by simp
    rw [List.getElem?_append_right (hlen ▸ hpast), hlen, getElem?_slice (by omega),
      if_neg (by omega), Option.getD_some]
    congr 1
    omega

variable (C) in
theorem write_blocks (h : Ready ctx s) (hlen : 0 < data.length)
    (hin : addr + data.length ≤ dataSize * (ctx.maxBlkIdx + 1)) (hfek : fek ≠ some (ByteVec.zero _))
    (hcount : covered data.length (addr % dataSize) < 2 ^ 16)
    (hsplit : covered data.length (addr % dataSize) ≤ ctx.relWrBlkcnt
      ∨ ctx.relWrBlkcnt ∣ covered data.length (addr % dataSize))
    (hcnt : s.world.counter + covered data.length (addr % dataSize) < 2 ^ 32) :
    ∃ s' blks, teeRpmbWrite C (faithful C) cfg addr data fek uuid s = (.ok (), s')
      ∧ WroteBlocks C fek uuid ctx s s' blks (addr / dataSize) 0
        (covered data.length (addr % dataSize))
      ∧ ∀ a, dataSize * (addr / dataSize) ≤ a →
        a < dataSize * (addr / dataSize + covered data.length (addr % dataSize)) →
        blks.getD (a - dataSize * (addr / dataSize)) 0
          = if addr ≤ a ∧ a < addr + data.length then data.getD (a - addr) 0
            else contents C fek uuid s.world a := by
  obtain ⟨hlast, haddr, hoff⟩ := access_spec hlen hin
  obtain ⟨hpos, hlo, hhi⟩ := covered_spec (addr % dataSize) hlen
  have hsize := h.size_le
  have hidx : u16 (addr / dataSize) = addr / dataSize := Nat.mod_eq_of_lt (by omega)
  unfold teeRpmbWrite
  dsimp only
  rw [blkcntOf_eq hoff hcount, hidx]
  generalize hn : covered data.length (addr % dataSize) = n at *
  generalize addr / dataSize = q at *
  by_cases haligned : addr % dataSize = 0 ∧ data.length % dataSize = 0
  · obtain ⟨s', hrun, hwrote⟩ := writeBlk_eq C cfg fek uuid data h hpos hcount hlast hsplit hcnt
    refine ⟨s', data, by rw [if_pos haligned]; exact hrun, hwrote, fun a ha ha' => ?_⟩
    have hend : dataSize * n = data.length := by
      simp only [covered, dataSize] at *
      omega
    have hbase : dataSize * q = addr := by omega
    rw [Nat.mul_add, hend] at ha'
    rw [if_pos (by omega), hbase]
  · rw [if_neg haligned]
    have hall : covered (n * dataSize) (q * dataSize % dataSize) = n := by
      simp only [covered, dataSize]
      omega
    have hold : teeRpmbRead C (faithful C) cfg (q * dataSize) (n * dataSize) fek uuid s
        = (.ok (slice (contents C fek uuid s.world) (q * dataSize) (n * dataSize)), drawn s) :=
      read_eq h hfek (by simp only [dataSize]; omega) (by simp only [dataSize] at *; omega)
        (by omega)
    generalize htmp : slice (contents C fek uuid s.world) (q * dataSize) (n * dataSize)
      = tmp at hold
    obtain ⟨s', hrun, hready, hcontents, hwrites⟩ := writeBlk_eq C cfg fek uuid
      (tmp.take (addr % dataSize) ++ data ++ tmp.drop (addr % dataSize + data.length)) h.drawn hpos
      hcount hlast hsplit hcnt
    refine ⟨s', _, ?_, ⟨hready, hcontents, hwrites⟩, fun a ha ha' => ?_⟩
    · rw [Prog.bind_ok (alloc_calm h.calm), Prog.bind_ok hold]
      exact hrun
    · rw [← htmp, Nat.mul_comm n, Nat.mul_comm q,
        getD_patched (by omega) (by rw [Nat.mul_add] at ha'; omega)]
      have hbase : dataSize * q + (a - dataSize * q) = a := by omega
      rw [hbase]
      refine ite_congr (propext ?_) (fun hc => ?_) fun _ => rfl
      · omega
      · congr 1
        omega

/-- With a core in step with the device, a key that is not zero, a number of blocks that has 16 bits
and is split evenly or not at all, and a counter that does not run out, an access does what it
should. -/
theorem byte_access {addr len : ℕ} (h : Ready ctx s) (hlen : 0 < len)
    (hin : addr + len ≤ dataSize * (ctx.maxBlkIdx + 1)) (hfek : fek ≠ some (ByteVec.zero _))
    (hcount : covered len (addr % dataSize) < 2 ^ 16)
    (hsplit : covered len (addr % dataSize) ≤ ctx.relWrBlkcnt
      ∨ ctx.relWrBlkcnt ∣ covered len (addr % dataSize))
    (hcnt : s.world.counter + covered len (addr % dataSize) < 2 ^ 32) :
    ByteAccess C cfg ctx s addr len fek uuid := by
  refine ⟨⟨_, read_eq h hfek hlen hin hcount⟩, fun data hdata => ?_⟩
  subst hdata
  obtain ⟨hlast, haddr, hoff⟩ := access_spec hlen hin
  obtain ⟨-, -, hhi⟩ := covered_spec (addr % dataSize) hlen
  obtain ⟨s', blks, hrun, ⟨⟨ctx', hready', hmax', hrel'⟩, hcontents, hwrites⟩, hblks⟩ :=
    write_blocks C h hlen hin hfek hcount hsplit hcnt
  have hnew : ∀ a, contents C fek uuid s'.world a = if addr ≤ a ∧ a < addr + data.length then
      data.getD (a - addr) 0 else contents C fek uuid s.world a := by
    intro a
    rw [hcontents, Nat.add_zero]
    by_cases ha : dataSize * (addr / dataSize) ≤ a
        ∧ a < dataSize * (addr / dataSize + covered data.length (addr % dataSize))
    · rw [if_pos ha, hblks a ha.1 ha.2]
    · rw [if_neg ha, if_neg]
      rw [Nat.mul_add] at ha
      omega
  refine ⟨s', hrun, hnew, by simpa using hwrites, drawn s',
    (read_eq hready' hfek hlen (hmax' ▸ hin) hcount).trans ?_⟩
  refine congrArg (fun l => (Outcome.ok l, drawn s')) (List.ext_getElem? fun k => ?_)
  rcases Nat.lt_or_ge k data.length with hk | hk
  · rw [getElem?_slice hk, hnew, if_pos (by omega), Nat.add_sub_cancel_left,
      List.getD_eq_getElem?_getD, List.getElem?_eq_getElem hk, Option.getD_some]
  · rw [List.getElem?_eq_none (by simpa using hk), List.getElem?_eq_none hk]

/-- A MAC that is always the same and an encryption that does nothing. -/
def Crypto.plain : Crypto where
  hmac _ _ := ByteVec.zero _
  encryptBlock _ _ _ b := b
  decryptBlock _ _ _ b := b
  keyGen _ := ByteVec.zero _
  decrypt_encrypt _ _ _ _ := rfl

/-- A core in step with a device of zeros. -/
def quietCtx (sizeMult : Fin 256) (relWrBlkcnt : ℕ) : Ctx :=
  ⟨ByteVec.zero _, ByteVec.zero _, 0, sizeMult.1 * 512 - 1, relWrBlkcnt, true, true, true, true⟩

/-- A device of zeros, and a core in step with it. -/
def quiet (sizeMult : Fin 256) (relWrBlkcnt : ℕ) : State Device where
  ctx := some (quietCtx sizeMult relWrBlkcnt)
  dead := false
  oracle := ⟨[], []⟩
  world := ⟨ByteVec.zero _, ByteVec.zero _, sizeMult, 1, relWrBlkcnt, 0,
    fun _ => ByteVec.zero _, []⟩

theorem quiet_ready {sizeMult : Fin 256} (hsize : 0 < sizeMult.1) (hmax : sizeMult.1 ≤ 128)
    (hrel : 0 < rel) : Ready (quietCtx sizeMult rel) (quiet sizeMult rel) where
  alive := rfl
  calm := rfl
  ctx_eq := rfl
  key_eq := rfl
  wrCntSynced := rfl
  keyDerived := rfl
  keyVerified := rfl
  devInfoSynced := rfl
  counter_eq := rfl
  size_eq := Nat.sub_add_cancel (by omega)
  size_le := by
    change sizeMult.1 * 512 - 1 < 2 ^ 16
    omega
  rel_pos := hrel
  rel_le := le_rfl

theorem byte_access_across :
    ByteAccess Crypto.plain ⟨true⟩ (quietCtx 1 2) (quiet 1 2) 255 2 none none :=
  byte_access (quiet_ready (by decide) (by decide) (by decide)) (by decide) (by decide) nofun
    (by decide) (.inl (by decide)) (by decide)

theorem ByteAccess.read_ne_error {s : State Device} (h : ByteAccess C cfg ctx s addr len fek uuid)
    (e : TeeError) : (teeRpmbRead C (faithful C) cfg addr len fek uuid s).1 ≠ .error e := by
  obtain ⟨s', hs⟩ := h.read
  rw [hs]
  nofun

/-- An access under the key of zeros fails, and so does one of all the blocks of the largest device.
A write whose last part is shorter than the others stops at an assertion. -/
theorem byte_access_refused :
    Ready (quietCtx 1 2) (quiet 1 2) ∧ Ready (quietCtx 128 2) (quiet 128 2)
      ∧ ¬ByteAccess Crypto.plain ⟨true⟩ (quietCtx 1 2) (quiet 1 2) 0 1 (some (ByteVec.zero _)) none
      ∧ ¬ByteAccess Crypto.plain ⟨true⟩ (quietCtx 128 2) (quiet 128 2) 0
        (2 ^ 16 * dataSize) none none
      ∧ ¬ByteAccess Crypto.plain ⟨true⟩ (quietCtx 1 2) (quiet 1 2) 0 (3 * dataSize) none none := by
  refine ⟨quiet_ready (by decide) (by decide) (by decide),
    quiet_ready (by decide) (by decide) (by decide), fun h => h.read_ne_error .security rfl,
    fun h => h.read_ne_error .badParameters rfl, fun h => ?_⟩
  obtain ⟨s', hs, -⟩ := h.write (List.replicate (3 * dataSize) 0) List.length_replicate
  have hstop :
    (teeRpmbWrite Crypto.plain (faithful Crypto.plain) ⟨true⟩ 0
      (List.replicate (3 * dataSize) 0) none none (quiet 1 2)).1
      = .halt .assert := by decide +kernel
  rw [hs] at hstop
  cases hstop

end Optee.Rpmb
