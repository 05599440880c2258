import Mathlib.Data.Nat.Basic
import Optee.Util

/-!
# The RX and TX buffers

`spmc_handle_rxtx_map`, `spmc_handle_rxtx_unmap`, `spmc_handle_rx_release` and
`spmc_handle_partition_info_get` of `core/arch/arm/kernel/thread_spmc.c` on one pair of buffers,
under its spin lock, with `sp_partition_info_get` of `core/arch/arm/kernel/secure_partition.c`.
-/

namespace Optee.RxTx

/-- The build, and whether the pair is that of the normal world. -/
structure Config where
  isNwBuf : Bool
  nsVirtualization : Bool
  securePartition : Bool
  myEndpointId : BitVec 16
  nbCore : BitVec 16
  myPartProps : BitVec 32
  partProps : BitVec 32

/-- `struct ffa_rxtx`, and the ranges of `tee_mm_shm` and of the nexus that are mapped. -/
structure State where
  rx : ℕ
  tx : ℕ
  size : ℕ
  ffaVers11 : Bool
  txIsMine : Bool
  shm : List (ℕ × ℕ)
  nexus : List (ℕ × ℕ)

/-- Whether a buffer is non-secure memory, the range it is given, whether its pages can be mapped,
and the address it has already. -/
structure MapEnv where
  nonSec : Bool
  alloc : Option ℕ
  mapPages : Bool
  mapped : Option ℕ

inductive Err where
  | invalidParameters
  | noMemory
  | denied
  | busy

/-- A failed `assert()`. -/
inductive Fault where
  | assertion

abbrev Uuid := BitVec 32 × BitVec 32 × BitVec 32 × BitVec 32

def myUuidWords : Uuid := (0xe0786148, 0xe311f8e7, 0x02005ebc, 0x1bc5d5a5)

structure SpSession where
  uuid : Uuid
  dead : Bool
  endpointId : BitVec 16

/-- `struct ffa_partition_info_x`, with its index. -/
structure Entry where
  idx : ℕ
  id : BitVec 16
  executionContext : BitVec 16
  partitionProperties : BitVec 32
  uuid : Option Uuid

/-! ### Mapping -/

def mapBuf (env : MapEnv) (sz : ℕ) (s : State) : Except Err (ℕ × State) :=
  if !env.nonSec then .error .invalidParameters
  else
    match env.alloc with
    | none => .error .noMemory
    | some va =>
      if !env.mapPages then .error .invalidParameters
      else .ok (va, { s with shm := (va, sz) :: s.shm })

def unmapBuf (va sz : ℕ) (s : State) : Except Fault State :=
  if (va, sz) ∈ s.shm then .ok { s with shm := s.shm.erase (va, sz) } else .error .assertion

def mapNexus (env : MapEnv) (sz : ℕ) (s : State) : Option (ℕ × Bool × State) :=
  match env.mapped with
  | some va => some (va, false, s)
  | none => env.alloc.map fun va => (va, true, { s with nexus := (va, sz) :: s.nexus })

structure Outcome where
  reply : Except Err ℕ
  state : State
  writes : List Entry

/-- The addresses of the buffers of the normal world. -/
def mapNw (cfg : Config) (txEnv rxEnv : MapEnv) (sz : ℕ) (s : State) :
    Except Fault (Except Err (ℕ × ℕ) × State) :=
  if cfg.nsVirtualization then
    match mapNexus txEnv sz s with
    | none => .ok (.error .noMemory, s)
    | some (tx, txAlloced, s₁) =>
      match mapNexus rxEnv sz s₁ with
      | none =>
        .ok (.error .noMemory, if txAlloced then { s₁ with nexus := s₁.nexus.erase (tx, sz) }
          else s₁)
      | some (rx, _, s₂) => .ok (.ok (tx, rx), s₂)
  else
    match mapBuf txEnv sz s with
    | .error err => .ok (.error err, s)
    | .ok (tx, s₁) =>
      match mapBuf rxEnv sz s₁ with
      | .error err => do
        let s ← unmapBuf tx sz s₁
        return (.error err, s)
      | .ok (rx, s₂) => .ok (.ok (tx, rx), s₂)

def mapSp (a1 a2 : ℕ) (txEnv rxEnv : MapEnv) (s : State) : Except Err (ℕ × ℕ) × State :=
  if a2 % smallPageSize ≠ 0 ∨ a1 % smallPageSize ≠ 0 then (.error .invalidParameters, s)
  else if txEnv.mapped = none ∨ rxEnv.mapped = none then (.error .invalidParameters, s)
  else (.ok (a2, a1), s)

/-- The end of `spmc_handle_rxtx_map`. -/
def endMap (sz : ℕ) : Except Err (ℕ × ℕ) × State → Outcome
  | (.error err, s) => ⟨.error err, s, []⟩
  | (.ok (tx, rx), s) => ⟨.ok 0, { s with tx := tx, rx := rx, size := sz, txIsMine := true }, []⟩

def spmcHandleRxtxMap (cfg : Config) (s : State) (a1 a2 a3 : ℕ)
    (txEnv rxEnv : MapEnv) : Except Fault Outcome :=
  let sz := a3 * smallPageSize
  if 64 ≤ a3 ∨ sz = 0 then .ok (endMap sz (.error .invalidParameters, s))
  else if s.size ≠ 0 then .ok (endMap sz (.error .denied, s))
  else if cfg.isNwBuf then (mapNw cfg txEnv rxEnv sz s).map (endMap sz)
  else .ok (endMap sz (mapSp a1 a2 txEnv rxEnv s))

def spmcHandleRxtxUnmap (cfg : Config) (s : State) : Except Fault Outcome :=
  if s.size = 0 then .ok ⟨.error .invalidParameters, s, []⟩
  else do
    -- the memory of a partition stays mapped, it may still use it
    let s ← if cfg.isNwBuf then unmapBuf s.rx s.size s >>= unmapBuf s.tx s.size else .ok s
    return ⟨.ok 0, { s with size := 0, rx := 0, tx := 0 }, []⟩

def spmcHandleRxRelease (s : State) : Outcome :=
  if s.size = 0 ∨ s.txIsMine then ⟨.error .denied, s, []⟩
  else ⟨.ok 0, { s with txIsMine := true }, []⟩

/-! ### Information about partitions -/

def fpiSize (vers11 : Bool) : ℕ := if vers11 then 24 else 8

def spmcFillPartitionEntry (vers11 : Bool) (blen idx : ℕ) (id executionContext : BitVec 16)
    (partProps : BitVec 32) (uuid : Uuid) : Option Entry :=
  if blen < (idx + 1) * fpiSize vers11 then none
  else some ⟨idx, id, executionContext, partProps, if vers11 then some uuid else none⟩

def SpSession.asked (uuid : Option Uuid) (p : SpSession) : Bool :=
  (uuid.all fun u => p.uuid = u) && !p.dead

/-- The loop of `sp_partition_info_get`: whether all entries fit so far, and those written. -/
def spPartitionInfoGet (cfg : Config) (s : State) (uuid : Option Uuid) (countOnly : Bool) :
    List SpSession → Bool × ℕ × List Entry → Bool × ℕ × List Entry
  | [], acc => acc
  | p :: ps, (ok, count, entries) =>
    if p.asked uuid then
      if !countOnly && ok then
        match spmcFillPartitionEntry s.ffaVers11 s.size count p.endpointId 1 cfg.partProps
          p.uuid with
        | some e => spPartitionInfoGet cfg s uuid countOnly ps (true, count + 1, entries ++ [e])
        | none => spPartitionInfoGet cfg s uuid countOnly ps (false, count + 1, entries)
      else spPartitionInfoGet cfg s uuid countOnly ps (ok, count + 1, entries)
    else spPartitionInfoGet cfg s uuid countOnly ps (ok, count, entries)

def infoReply (err : Err) (acc : Bool × ℕ × List Entry) : Except Err ℕ × List Entry :=
  (if acc.1 then .ok acc.2.1 else .error err, acc.2.2)

def myEntries (cfg : Config) (s : State) (countOnly : Bool) : Option (List Entry) :=
  if countOnly then some []
  else (spmcFillPartitionEntry s.ffaVers11 s.size 0 cfg.myEndpointId cfg.nbCore cfg.myPartProps
    myUuidWords).map fun e => [e]

def handlePartitionInfoGetAll (cfg : Config) (s : State) (countOnly : Bool) (sps : List SpSession) :
    Except Err ℕ × List Entry :=
  match myEntries cfg s countOnly with
  | none => (.error .noMemory, [])
  | some mine =>
    if cfg.securePartition then infoReply .noMemory
      (spPartitionInfoGet cfg s none countOnly sps (true, 1, mine))
    else (.ok 1, mine)

/-- `spmc_handle_partition_info_get` under its lock. -/
def partitionInfo (cfg : Config) (s : State) (uuid : Uuid) (countOnly : Bool)
    (sps : List SpSession) :
    Except Err ℕ × List Entry :=
  if !countOnly && (s.size = 0 || !s.txIsMine) then (.error .busy, [])
  else if uuid = (0, 0, 0, 0) then handlePartitionInfoGetAll cfg s countOnly sps
  else if uuid = myUuidWords then
    match myEntries cfg s countOnly with
    | none => (.error .invalidParameters, [])
    | some mine => (.ok 1, mine)
  else if cfg.securePartition then
    infoReply .invalidParameters (spPartitionInfoGet cfg s (some uuid) countOnly sps (true, 0, []))
  else (.error .invalidParameters, [])

def spmcHandlePartitionInfoGet (cfg : Config) (s : State) (uuid : Uuid) (countOnly : Bool)
    (sps : List SpSession) :
    Outcome :=
  let (reply, writes) := partitionInfo cfg s uuid countOnly sps
  ⟨reply, if countOnly then s else { s with txIsMine := false }, writes⟩

inductive Request where
  | rxtxMap (a1 a2 a3 : ℕ) (txEnv rxEnv : MapEnv)
  | rxtxUnmap
  | rxRelease
  | partitionInfoGet (uuid : Uuid) (countOnly : Bool) (sps : List SpSession)

def respond (cfg : Config) (s : State) : Request → Except Fault Outcome
  | .rxtxMap a1 a2 a3 txEnv rxEnv => spmcHandleRxtxMap cfg s a1 a2 a3 txEnv rxEnv
  | .rxtxUnmap => spmcHandleRxtxUnmap cfg s
  | .rxRelease => .ok (spmcHandleRxRelease s)
  | .partitionInfoGet uuid countOnly sps =>
    .ok (spmcHandlePartitionInfoGet cfg s uuid countOnly sps)

def step (cfg : Config) (s : State) (req : Request) : Except Fault State :=
  Outcome.state <$> respond cfg s req

end Optee.RxTx
