import Optee.Rpmb.Frame

/-!
# The FAT of the RPMB file system

The buffer through which `core/tee/tee_rpmb_fs.c` reads FAT entries, between `fat_entry_dir_init`
and `fat_entry_dir_deinit`, which keeps the first entries as a cache. Each access to the buffer is
checked against its size.
-/

namespace Optee.Rpmb

/-- `struct rpmb_fat_entry`, with the name up to the terminating zero. -/
structure FatEntry where
  startAddress : ℕ
  dataSize : ℕ
  active : Bool
  last : Bool
  fek : Fek
  filename : List UInt8
  deriving DecidableEq

def FatEntry.zero : FatEntry := ⟨0, 0, false, false, ByteVec.zero _, []⟩

def fatStartAddress : ℕ := 512

/-- The sizes of `struct rpmb_fat_entry` and `struct rpmb_fs_partition`. -/
def fatEntrySize : ℕ := 256

def partitionSize : ℕ := 128

def fatAddressOf (i : ℕ) : ℕ := fatStartAddress + i * fatEntrySize

/-- The offset of an address in the FAT, in 32 bits. -/
@[irreducible] def fatOffset (fatAddress : ℕ) : ℕ := u32 (fatAddress + 2 ^ 32 - fatStartAddress)

/-- `CFG_RPMB_FS_CACHE_ENTRIES`, `CFG_RPMB_FS_RD_ENTRIES`, the trace level of `dump_fat`, and the
number of entries up to the end of the device. -/
structure FatConfig where
  cacheEntries : ℕ
  rdEntries : ℕ
  rd_pos : 0 < rdEntries
  traceFlow : Bool
  deviceEntries : ℕ
  device_le : deviceEntries ≤ 2 ^ 16

def FatConfig.bufMaxEntries (cfg : FatConfig) : ℕ := cfg.cacheEntries + cfg.rdEntries

structure FatEntryDir where
  buf : List FatEntry
  idxCurr : ℕ
  numBuffered : ℕ
  numTotalRead : ℕ
  lastReached : Bool

/-- `fat_entry_dir` and the FAT in storage. Memory that was not written, or by a read that failed,
is whatever `junk` says. -/
structure FatState where
  dir : Option FatEntryDir
  storage : ℕ → FatEntry
  junk : ℕ → FatEntry
  oracle : Oracle

inductive FatStop where
  | stop (x : Stop)
  | outOfBounds

abbrev FatM := Prog FatState TeeError FatStop

def overwrite (buf : List FatEntry) (off : ℕ) (es : List FatEntry) : List FatEntry :=
  buf.take off ++ es ++ buf.drop (off + es.length)

namespace FatM

variable (cfg : FatConfig)

def liftOracle {α : Type} (m : OracleM α) : FatM α :=
  Prog.zoom FatState.oracle (fun o s => { s with oracle := o }) .stop m

def setDir (dir : Option FatEntryDir) : FatM Unit := Prog.modify fun s => { s with dir := dir }

/-- `fat_entry_dir`, which is asserted to be there. -/
def getDir : FatM FatEntryDir := do
  let s ← Prog.get
  match s.dir with
  | none => Prog.halt (.stop .assert)
  | some d => pure d

/-- `tee_rpmb_read` of `n` entries into a buffer, and whether it failed. -/
def readEntries (buf : List FatEntry) (off first n : ℕ) :
    FatM (List FatEntry × Except TeeError Unit) := do
  if buf.length < off + n then
    Prog.halt .outOfBounds
  else
    let s ← Prog.get
    let res ← Prog.attempt (do
      liftOracle tick
      if cfg.deviceEntries < first + n then Prog.throw .generic else pure ())
    match res with
    | .ok () => pure (overwrite buf off ((List.range' first n).map s.storage), .ok ())
    | .error e => pure (overwrite buf off ((List.range n).map s.junk), .error e)

/-- `fat_entry_dir_init`, which frees on a failure. -/
def fatEntryDirInit : FatM Unit := do
  let s ← Prog.get
  match s.dir with
  | some _ => pure ()
  | none =>
    -- `rpmb_fs_setup`
    liftOracle tick
    liftOracle tickAlloc
    let numElemsRead := if cfg.cacheEntries ≠ 0 then min cfg.cacheEntries cfg.rdEntries
      else cfg.rdEntries
    liftOracle tickAlloc
    let (fe, res) ← readEntries cfg (List.replicate numElemsRead .zero) 0 0 numElemsRead
    Prog.ofExcept res
    setDir (some ⟨fe, 0, numElemsRead, 0, false⟩)

def fatEntryDirDeinit : FatM Unit := do
  let s ← Prog.get
  match s.dir with
  | none => pure ()
  | some d =>
    if cfg.cacheEntries = 0 then
      setDir none
    else if cfg.cacheEntries < d.numBuffered then
      match ← Prog.attempt (liftOracle tickAlloc) with
      | .error _ => setDir none
      | .ok () => setDir (some ⟨d.buf.take cfg.cacheEntries, 0, cfg.cacheEntries, 0, false⟩)
    else
      setDir (some ⟨d.buf, 0, d.numBuffered, 0, false⟩)

def fatEntryDirUpdate (fatEntry : FatEntry) (fatAddress : ℕ) : FatM Unit := do
  if fatOffset fatAddress % fatEntrySize ≠ 0 then
    Prog.halt (.stop .assert)
  else
    let s ← Prog.get
    match s.dir with
    | none => pure ()
    | some d =>
      let idx := fatOffset fatAddress / fatEntrySize
      if idx < d.numBuffered ∧ idx < cfg.cacheEntries then
        if idx < d.buf.length then setDir (some { d with buf := d.buf.set idx fatEntry })
        else Prog.halt .outOfBounds
      else pure ()

/-- `fat_entry_dir_get_next` where it reads more entries. -/
def refill (d : FatEntryDir) : FatM Unit := do
  if cfg.cacheEntries = 0 then
    let (fe, res) ← readEntries cfg d.buf 0 d.numTotalRead cfg.rdEntries
    setDir (some { d with buf := fe, idxCurr := 0 })
    Prog.ofExcept res
  else if d.numTotalRead < cfg.bufMaxEntries then
    -- the buffer is extended
    let numElemsRead := min (cfg.bufMaxEntries - d.numTotalRead) cfg.rdEntries
    liftOracle tickAlloc
    let s ← Prog.get
    let size := d.numBuffered + numElemsRead
    let fe := d.buf.take size ++ (List.range (size - d.buf.length)).map s.junk
    let (fe, res) ← readEntries cfg fe d.numTotalRead d.numTotalRead numElemsRead
    setDir (some { d with buf := fe })
    Prog.ofExcept res
    setDir (some { d with buf := fe, numBuffered := size })
  else
    -- the part of the buffer past the cache is used again
    let (fe, res) ← readEntries cfg d.buf cfg.cacheEntries d.numTotalRead cfg.rdEntries
    setDir (some { d with buf := fe, idxCurr := cfg.cacheEntries })
    Prog.ofExcept res

def fatEntryDirGetNext : FatM (Option (FatEntry × ℕ)) := do
  let d ← getDir
  if d.lastReached then
    pure none
  else
    Prog.when (d.numBuffered ≤ d.idxCurr) (refill cfg d)
    let d ← getDir
    match d.buf[d.idxCurr]? with
    | none => Prog.halt .outOfBounds
    | some fe =>
      setDir (some { d with
        idxCurr := d.idxCurr + 1
        numTotalRead := d.numTotalRead + 1
        lastReached := fe.last })
      pure (some (fe, fatAddressOf d.numTotalRead))

inductive Ended where
  | null
  | stopped
  | failed
  deriving DecidableEq

/-- Calls of `fat_entry_dir_get_next`, up to the first that fails or returns null, and how they
ended. -/
def getEntries : (calls : ℕ) → FatM (List (FatEntry × ℕ) × Ended)
  | 0 => pure ([], .stopped)
  | calls + 1 => do
    match ← Prog.attempt (fatEntryDirGetNext cfg) with
    | .error _ => pure ([], .failed)
    | .ok none => pure ([], .null)
    | .ok (some fe) =>
      let (fes, ended) ← getEntries calls
      pure (fe :: fes, ended)

def dumpFat : FatM Unit := do
  match ← Prog.attempt (fatEntryDirInit cfg) with
  | .error _ => pure ()
  | .ok () =>
    let _ ← getEntries cfg (cfg.deviceEntries + 1)
    fatEntryDirDeinit cfg

/-- `tee_rpmb_write` of an entry. -/
def writeEntry (rpmbFatAddress : ℕ) (fatEntry : FatEntry) : FatM Unit := do
  liftOracle tick
  if rpmbFatAddress < fatStartAddress then
    pure ()
  else
    let i := (rpmbFatAddress - fatStartAddress) / fatEntrySize
    if cfg.deviceEntries ≤ i then Prog.throw .generic
    else Prog.modify fun s => { s with storage := Function.update s.storage i fatEntry }

def writeFatEntry (rpmbFatAddress : BitVec 32) (fatEntry : FatEntry) : FatM Unit := do
  if rpmbFatAddress.toNat < partitionSize then
    Prog.throw .accessConflict
  else if rpmbFatAddress.toNat % fatEntrySize ≠ 0 then
    Prog.throw .badParameters
  else
    let res ← Prog.attempt (writeEntry cfg rpmbFatAddress.toNat fatEntry)
    Prog.when cfg.traceFlow (dumpFat cfg)
    Prog.ofExcept res
    Prog.when (cfg.cacheEntries ≠ 0) (fatEntryDirUpdate cfg fatEntry rpmbFatAddress.toNat)

def writeFatEntries : List (BitVec 32 × FatEntry) → FatM Unit
  | [] => pure ()
  | (rpmbFatAddress, fatEntry) :: ws => do
    let _ ← Prog.attempt (writeFatEntry cfg rpmbFatAddress fatEntry)
    writeFatEntries ws

/-- A traversal of `read_fat` or `rpmb_fs_dir_populate`: some calls, some writes if none of them
failed, and the end. -/
def traverse (calls : ℕ) (writes : List (BitVec 32 × FatEntry)) :
    FatM (List (FatEntry × ℕ) × Ended) := do
  match ← Prog.attempt (fatEntryDirInit cfg) with
  | .error _ =>
    fatEntryDirDeinit cfg
    pure ([], .failed)
  | .ok () =>
    let res ← getEntries cfg calls
    Prog.when (res.2 ≠ .failed) (writeFatEntries cfg writes)
    fatEntryDirDeinit cfg
    pure res

end FatM

end Optee.Rpmb
