import Optee.Crypto
import Optee.Fault

/-!
# Frames to and from the RPMB device

The lower interface of `core/tee/tee_rpmb_fs.c`: data frames, how a request is packed and a response
verified, and the synchronisation with the device. The normal world answers each request as it
likes; only the MAC in a frame speaks for the device.
-/

namespace Optee.Rpmb

def dataSize : ℕ := 256

abbrev Block := ByteVec dataSize

/-- The key of the device and a MAC under it have `RPMB_KEY_MAC_SIZE` bytes. -/
abbrev Key := ByteVec 32

abbrev Fek := ByteVec 16

/-- The `msg_type` of a frame. -/
inductive MsgType where
  | reqWriteCounterValRead
  | reqAuthDataWrite
  | reqAuthDataRead
  | respWriteCounterValRead
  | respAuthDataWrite
  | respAuthDataRead
  | other
  deriving DecidableEq

/-- The part of a frame that the MAC protects. -/
structure Body where
  data : Block
  nonce : ByteVec 16
  writeCounter : ℕ
  address : ℕ
  blockCount : ℕ
  opResult : ℕ
  msgType : MsgType

/-- `struct rpmb_data_frame` -/
structure Frame extends Body where
  keyMac : Key

def Frame.zero (msgType : MsgType) : Frame :=
  ⟨⟨ByteVec.zero _, ByteVec.zero _, 0, 0, 0, 0, msgType⟩, ByteVec.zero _⟩

structure Crypto where
  hmac : Key → List Body → Key
  encryptBlock : Option Uuid → ℕ → Fek → Block → Block
  decryptBlock : Option Uuid → ℕ → Fek → Block → Block
  keyGen : ByteVec 16 → Key
  decrypt_encrypt : ∀ uuid idx fek b, decryptBlock uuid idx fek (encryptBlock uuid idx fek b) = b

structure DevInfo where
  cid : ByteVec 16
  rpmbSizeMult : Fin 256
  relWrSecC : Fin 256
  retOk : Bool

/-- `struct tee_rpmb_ctx`, from the fields of the device on. -/
structure Ctx where
  key : Key
  cid : ByteVec 16
  wrCnt : ℕ
  maxBlkIdx : ℕ
  relWrBlkcnt : ℕ
  wrCntSynced : Bool
  keyDerived : Bool
  keyVerified : Bool
  devInfoSynced : Bool
  deriving DecidableEq

/-- `calloc` of the context. -/
def Ctx.zero : Ctx := ⟨ByteVec.zero _, ByteVec.zero _, 0, 0, 0, false, false, false, false⟩

/-- What the normal world answers to a request for the device information, and to frames with a
`block_count`. -/
structure World (W : Type) where
  getDevInfo : W → Option DevInfo × W
  exchange : ℕ → List Frame → W → Option (ℕ → Frame) × W

/-- The context, `rpmb_dead`, the oracle, and the normal world. -/
structure State (W : Type) where
  ctx : Option Ctx
  dead : Bool
  oracle : Oracle
  world : W

/-- `RPMB_DRIVER_MULTIPLE_WRITE_FIXED` -/
structure Config where
  multipleWrite : Bool

def u16 (n : ℕ) : ℕ := n % 2 ^ 16

def u32 (n : ℕ) : ℕ := n % 2 ^ 32

abbrev RpmbM (W : Type) := Prog (State W) TeeError Stop

variable {W : Type} (C : Crypto) (N : World W)

namespace RpmbM

def liftOracle {α : Type} (m : OracleM α) : RpmbM W α :=
  Prog.zoom State.oracle (fun o s => { s with oracle := o }) id m

/-- `rpmb_ctx`, which may be null. -/
def getCtx : RpmbM W Ctx := do
  let s ← Prog.get
  match s.ctx with
  | none => Prog.halt .nullPointer
  | some ctx => pure ctx

def setCtx (ctx : Ctx) : RpmbM W Unit := Prog.modify fun s => { s with ctx := some ctx }

def invoke (blockCount : ℕ) (frames : List Frame) : RpmbM W (ℕ → Frame) := fun s =>
  match N.exchange blockCount frames s.world with
  | (none, w) => (.error .communication, { s with world := w })
  | (some resp, w) => (.ok resp, { s with world := w })

/-! ## Requests -/

/-- `struct rpmb_raw_data` of a request. Only a write has a MAC. -/
structure RawReq where
  msgType : MsgType
  blockCount : Option ℕ
  blkIdx : Option ℕ
  writeCounter : Option ℕ
  nonce : Option (ByteVec 16)
  data : Option (List UInt8)

def blockAt (data : List UInt8) (i : ℕ) : Block :=
  (ByteVec.zero dataSize).patch 0 (data.drop (i * dataSize))

/-- The data of frame `i` of a request. -/
def packData (raw : RawReq) (fek : Option Fek) (uuid : Option Uuid) (i : ℕ) : Block :=
  match raw.data, fek with
  | none, _ => ByteVec.zero _
  | some data, none => blockAt data i
  | some data, some fek => C.encryptBlock uuid (u16 (raw.blkIdx.getD 0 + i)) fek (blockAt data i)

/-- Frame `i` of a request, without a MAC. -/
def packFrame (raw : RawReq) (fek : Option Fek) (uuid : Option Uuid) (i : ℕ) : Frame :=
  ⟨{ data := packData C raw fek uuid i
     nonce := raw.nonce.getD (ByteVec.zero _)
     writeCounter := raw.writeCounter.getD 0
     address := raw.blkIdx.getD 0
     blockCount := raw.blockCount.getD 0
     opResult := 0
     msgType := raw.msgType }, ByteVec.zero _⟩

def packMac (key : Key) (frames : List Frame) : List Frame :=
  match frames.getLast? with
  | none => []
  | some last => frames.dropLast ++ [{ last with keyMac := C.hmac key (frames.map (·.toBody)) }]

def reqPack (raw : RawReq) (nbrFrms : ℕ) (fek : Option Fek)
    (uuid : Option Uuid) : RpmbM W (List Frame) := do
  let ctx ← getCtx
  if nbrFrms = 0 then
    Prog.throw .badParameters
  else if raw.msgType = .reqAuthDataWrite ∧ ctx.relWrBlkcnt < nbrFrms then
    Prog.throw .generic
  else
    liftOracle tickAlloc
    if raw.blkIdx.any fun idx => ctx.maxBlkIdx < idx + nbrFrms - 1 then
      Prog.throw .generic
    else
      let frames := (List.range nbrFrms).map (packFrame C raw fek uuid)
      if raw.msgType = .reqAuthDataWrite then
        liftOracle tickAlloc
        pure (packMac C ctx.key frames)
      else
        pure frames

/-! ## Responses -/

/-- `struct rpmb_raw_data` of a response. -/
structure RawResp where
  msgType : MsgType
  blkIdx : Option ℕ
  writeCounter : Option ℕ
  nonce : Option (ByteVec 16)
  data : Option (ℕ × ℕ)

def decrypt (frm : Block) (size offset blkIdx : ℕ) (fek : Option Fek) (uuid : Option Uuid) :
    RpmbM W (List UInt8) :=
  if dataSize < size + offset then
    Prog.halt .assert
  else
    match fek with
    | none => pure ((frm.toList.drop offset).take size)
    | some fek =>
      if fek = ByteVec.zero _ then
        -- the file was created with encryption disabled
        Prog.throw .security
      else do
        Prog.when (size < dataSize) (liftOracle tickAlloc)
        pure (((C.decryptBlock uuid (u16 blkIdx) fek frm).toList.drop offset).take size)

/-- The loop of `tee_rpmb_data_cpy_mac_calc`. -/
def dataCpyLoop (frames : ℕ → Frame) (byteOffset startIdx : ℕ) (fek : Option Fek)
    (uuid : Option Uuid) :
    (count i : ℕ) → RpmbM W (List UInt8)
  | 0, _ => pure []
  | count + 1, i => do
    let offset := if i = 0 then byteOffset else 0
    let out ← decrypt C (frames i).data (dataSize - offset) offset (startIdx + i) fek uuid
    let rest ← dataCpyLoop frames byteOffset startIdx fek uuid count (i + 1)
    pure (out ++ rest)

def dataCpyMacCalc (key : Key) (frames : ℕ → Frame) (len byteOffset nbrFrms : ℕ) (fek : Option Fek)
    (uuid : Option Uuid) : RpmbM W (List UInt8 × Key) := do
  let lastfrm := frames (nbrFrms - 1)
  if nbrFrms = 1 then
    -- `data_cpy_mac_calc_1b`
    if dataSize < u32 (len + byteOffset) then
      Prog.throw .badParameters
    else
      liftOracle tickAlloc
      let out ← decrypt C lastfrm.data len byteOffset lastfrm.address fek uuid
      pure (out, C.hmac key [lastfrm.toBody])
  else
    liftOracle tickAlloc
    let out ← dataCpyLoop C frames byteOffset lastfrm.address fek uuid (nbrFrms - 1) 0
    let size := u32 (len + byteOffset) % dataSize
    let size := if size = 0 then dataSize else size
    let last ← decrypt C lastfrm.data size 0 (lastfrm.address + nbrFrms - 1) fek uuid
    pure (out ++ last, C.hmac key ((List.range nbrFrms).map fun i => (frames i).toBody))

/-- `tee_rpmb_resp_unpack_verify` before the write counter. -/
def checkHeader (last : Frame) (raw : RawResp) : Except TeeError Unit :=
  if last.opResult % 64 = 7 then .error .itemNotFound
  else if last.opResult % 64 ≠ 0 then .error .generic
  else if last.msgType ≠ raw.msgType then .error .generic
  else if raw.blkIdx.any (· ≠ last.address) then .error .generic
  else .ok ()

/-- And after it: the nonce, the data and the MAC. -/
def verifyMac (frames : ℕ → Frame) (raw : RawResp) (nbrFrms : ℕ) (fek : Option Fek)
    (uuid : Option Uuid) :
    RpmbM W (List UInt8) := do
  let last := frames (nbrFrms - 1)
  let ctx ← getCtx
  if raw.nonce.any (· ≠ last.nonce) then
    Prog.throw .security
  else
    let (out, mac) ← (if raw.msgType = .respAuthDataRead then
        match raw.data with
        | none => Prog.throw .generic
        | some (len, byteOffset) => dataCpyMacCalc C ctx.key frames len byteOffset nbrFrms fek uuid
      else if nbrFrms ≠ 1 then
        Prog.throw .generic
      else do
        liftOracle tickAlloc
        pure ([], C.hmac ctx.key [last.toBody]))
    if mac ≠ last.keyMac then Prog.throw .security else pure out

/-- `tee_rpmb_resp_unpack_verify`: the bytes or an error, and `rawdata->write_counter`, which is
set, and the counter of the context counted up, before the MAC is looked at. -/
def respUnpackVerify (frames : ℕ → Frame) (raw : RawResp) (nbrFrms : ℕ) (fek : Option Fek)
    (uuid : Option Uuid) : RpmbM W (Except TeeError (List UInt8) × Option ℕ) := do
  let last := frames (nbrFrms - 1)
  if nbrFrms = 0 then
    pure (.error .badParameters, raw.writeCounter)
  else
    match checkHeader last raw with
    | .error e => pure (.error e, raw.writeCounter)
    | .ok () =>
      let wrCnt := raw.writeCounter.map fun _ => last.writeCounter
      let isWrite := raw.msgType = .respAuthDataWrite
      if isWrite ∧ raw.writeCounter.any (fun cnt => last.writeCounter ≠ u32 (cnt + 1)) then
        pure (.error .security, wrCnt)
      else
        let ctx ← getCtx
        Prog.when (isWrite ∧ raw.writeCounter.isSome)
          (setCtx { ctx with wrCnt := u32 (ctx.wrCnt + 1) })
        let res ← Prog.attempt (verifyMac C frames raw nbrFrms fek uuid)
        pure (res, wrCnt)

/-! ## Synchronisation -/

def teeRpmbGetDevInfo : RpmbM W DevInfo := do
  liftOracle tickAlloc
  let s ← Prog.get
  let (info, w) := N.getDevInfo s.world
  Prog.modify fun s => { s with world := w }
  match info with
  | none => Prog.throw .communication
  | some info => if info.retOk then pure info else Prog.throw .generic

/-- `tee_rpmb_verify_key_sync_counter`, whose target is the counter of the context itself. -/
def teeRpmbVerifyKeySyncCounter : RpmbM W Unit := do
  liftOracle tickAlloc
  let nonce ← liftOracle draw
  let frames ← reqPack C ⟨.reqWriteCounterValRead, none, none, none, some nonce, none⟩ 1 none none
  let resp ← invoke N 0 frames
  let ctx ← getCtx
  let (res, wrCnt) ← respUnpackVerify C resp
    ⟨.respWriteCounterValRead, none, some ctx.wrCnt, some nonce, none⟩ 1 none none
  let ctx ← getCtx
  setCtx { ctx with wrCnt := wrCnt.getD ctx.wrCnt }
  match res with
  | .error e => Prog.throw e
  | .ok _ =>
    setCtx { ctx with wrCnt := wrCnt.getD ctx.wrCnt, keyVerified := true, wrCntSynced := true }

/-- The number of blocks is a multiple of `RPMB_SIZE_SINGLE`; `max_blk_idx` has 16 bits. -/
def syncDevInfo (cfg : Config) (ctx : Ctx) : RpmbM W Ctx := do
  let info ← teeRpmbGetDevInfo N
  let nblocks := info.rpmbSizeMult.1 * 512
  if info.rpmbSizeMult.1 = 0 then
    Prog.throw .generic
  else if 2 ^ 16 < nblocks then
    Prog.throw .badParameters
  else
    let ctx := { ctx with
      maxBlkIdx := nblocks - 1
      cid := info.cid
      relWrBlkcnt := if cfg.multipleWrite then info.relWrSecC.1 * 2 else 1
      devInfoSynced := true }
    setCtx ctx
    pure ctx

/-- `tee_rpmb_init` of a core that does not write the key. -/
def teeRpmbInit (cfg : Config) : RpmbM W Unit := do
  let s ← Prog.get
  if s.dead then
    Prog.throw .communication
  else
    let ctx ← (match s.ctx with
      | some ctx => pure ctx
      | none => do
        liftOracle tickAlloc
        setCtx Ctx.zero
        pure Ctx.zero)
    let ctx ← (if ctx.devInfoSynced then pure ctx else syncDevInfo N cfg ctx)
    Prog.when (!ctx.keyDerived) (setCtx { ctx with key := C.keyGen ctx.cid, keyDerived := true })
    if !ctx.wrCntSynced || !ctx.keyVerified then
      match ← Prog.attempt (teeRpmbVerifyKeySyncCounter C N) with
      | .ok () => pure ()
      | .error e =>
        Prog.throw (if e = .itemNotFound ∧ !ctx.keyVerified then .storageNotAvailable else e)
    else pure ()

/-! ## Bytes -/

/-- The blocks that an access covers, in 16 bits. -/
def blkcntOf (len byteOffset : ℕ) : ℕ :=
  u16 (u32 (u32 (len + byteOffset) + (dataSize - 1)) / dataSize)

def teeRpmbRead (cfg : Config) (addr len : ℕ) (fek : Option Fek) (uuid : Option Uuid) :
    RpmbM W (List UInt8) := do
  let blkIdx := u16 (addr / dataSize)
  let byteOffset := addr % dataSize
  if len = 0 then
    Prog.throw .badParameters
  else if u32 (len + byteOffset + dataSize) < dataSize then
    Prog.throw .badParameters
  else
    let blkcnt := blkcntOf len byteOffset
    teeRpmbInit C N cfg
    liftOracle tickAlloc
    let nonce ← liftOracle draw
    let frames ← reqPack C ⟨.reqAuthDataRead, none, some blkIdx, none, some nonce, none⟩ 1 none none
    let resp ← invoke N blkcnt frames
    let (res, _) ← respUnpackVerify C resp
      ⟨.respAuthDataRead, some blkIdx, none, some nonce, some (len, byteOffset)⟩ blkcnt fek uuid
    Prog.ofExcept res

def maxRetries : ℕ := 10

/-- The end of `write_req` where it gives up. -/
def outOfRetries : RpmbM W Unit := do
  Prog.modify fun s => { s with dead := true }
  Prog.throw .communication

def unsync : RpmbM W Unit := do
  let ctx ← getCtx
  setCtx { ctx with wrCntSynced := false }

/-- The loop of `write_req`. Each response sets the counter, a local variable. -/
def writeReqLoop (blkIdx : ℕ) (data : List UInt8) (blkcnt : ℕ) (fek : Option Fek)
    (uuid : Option Uuid) :
    (left wrCnt : ℕ) → RpmbM W Unit
  | 0, _ => outOfRetries
  | left + 1, wrCnt => do
    match ← Prog.attempt (reqPack C ⟨.reqAuthDataWrite, some blkcnt, some blkIdx, some wrCnt, none,
        some data⟩ blkcnt fek uuid) with
    | .error e =>
      -- nothing was sent yet in the first attempt
      if left + 1 = maxRetries then Prog.throw e
      else writeReqLoop blkIdx data blkcnt fek uuid left wrCnt
    | .ok frames =>
      match ← Prog.attempt (invoke N 0 frames) with
      | .error _ =>
        Prog.when (left ≠ 0) unsync
        writeReqLoop blkIdx data blkcnt fek uuid left wrCnt
      | .ok resp =>
        let (res, cnt) ← respUnpackVerify C resp ⟨.respAuthDataWrite, some blkIdx, some wrCnt,
          none, none⟩ 1 none none
        match res with
        | .error _ =>
          Prog.when (left ≠ 0) unsync
          writeReqLoop blkIdx data blkcnt fek uuid left (cnt.getD wrCnt)
        | .ok _ => pure ()

/-- `sizeof(struct rpmb_req)` and 512 bytes for each frame. -/
def reqSize (nbrFrms : ℕ) : ℕ := 6 + 512 * nbrFrms

def writeReq (memReqSize blkIdx : ℕ) (data : List UInt8) (blkcnt : ℕ) (fek : Option Fek)
    (uuid : Option Uuid) : RpmbM W Unit := do
  let ctx ← getCtx
  Prog.assert (memReqSize ≤ reqSize blkcnt)
  writeReqLoop C N blkIdx data blkcnt fek uuid maxRetries ctx.wrCnt

/-- The loop of `tee_rpmb_write_blk`. -/
def writeBlkLoop (rel blkcnt nbrWrites memReqSize : ℕ) (dataBlks : List UInt8) (fek : Option Fek)
    (uuid : Option Uuid) : (left i tmpBlkIdx : ℕ) → RpmbM W Unit
  | 0, _, _ => pure ()
  | left + 1, i, tmpBlkIdx => do
    let tmpBlkcnt := if i = nbrWrites - 1 then u16 (blkcnt - rel * (nbrWrites - 1)) else rel
    writeReq C N memReqSize tmpBlkIdx (dataBlks.drop (i * rel * dataSize)) tmpBlkcnt fek uuid
    writeBlkLoop rel blkcnt nbrWrites memReqSize dataBlks fek uuid left (i + 1)
      (u16 (tmpBlkIdx + tmpBlkcnt))

def teeRpmbWriteBlk (cfg : Config) (blkIdx : ℕ) (dataBlks : List UInt8) (blkcnt : ℕ)
    (fek : Option Fek) (uuid : Option Uuid) : RpmbM W Unit := do
  if blkcnt = 0 then
    Prog.throw .badParameters
  else
    teeRpmbInit C N cfg
    let ctx ← getCtx
    let rel := ctx.relWrBlkcnt
    let memReqSize := if blkcnt < rel then reqSize blkcnt else reqSize rel
    liftOracle tickAlloc
    let nbrWrites := blkcnt / rel + if 0 < blkcnt % rel then 1 else 0
    writeBlkLoop C N rel blkcnt nbrWrites memReqSize dataBlks fek uuid nbrWrites 0 blkIdx

def teeRpmbWrite (cfg : Config) (addr : ℕ) (data : List UInt8) (fek : Option Fek)
    (uuid : Option Uuid) :
    RpmbM W Unit := do
  let blkIdx := u16 (addr / dataSize)
  let byteOffset := addr % dataSize
  let blkcnt := blkcntOf data.length byteOffset
  if byteOffset = 0 ∧ data.length % dataSize = 0 then
    teeRpmbWriteBlk C N cfg blkIdx data blkcnt fek uuid
  else
    liftOracle tickAlloc
    let dataTmp ← teeRpmbRead C N cfg (blkIdx * dataSize) (blkcnt * dataSize) fek uuid
    let dataTmp := dataTmp.take byteOffset ++ data ++ dataTmp.drop (byteOffset + data.length)
    teeRpmbWriteBlk C N cfg blkIdx dataTmp blkcnt fek uuid

end RpmbM

end Optee.Rpmb
