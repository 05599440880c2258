import Mathlib.Logic.Function.Basic
import Optee.SpMem
import Optee.Vm

/-!
# Memory shared with secure partitions

Share, retrieve, relinquish and reclaim of `core/arch/arm/kernel/spmc_sp_handler.c`, with the list
of shares of `core/arch/arm/mm/sp_mem.c` and the mappings of
`core/arch/arm/kernel/secure_partition.c`. A partition has an address space of `core/mm/vm.c`. A
mobj of memory of the normal world gets a number that no mobj had before.
-/

namespace Optee.SpmcSp

open Ffa

structure Config where
  vm : Vm.Config
  mem : Memory
  myEndpointId : ℕ
  bits_ge : 32 ≤ vm.bits

def NUM_SHARES : ℕ := 64

/-- `i | FFA_MEMORY_HANDLE_SECURE_BIT`. -/
def globalHandle (i : ℕ) : ℕ := i + 2 ^ 45

structure MapRegion where
  mobj : Vm.Mobj
  pageOffset : ℕ
  pageCount : ℕ
  deriving DecidableEq

/-- `page_count * SMALL_PAGE_SIZE`, with 32 bits. -/
def MapRegion.len (reg : MapRegion) : ℕ := reg.pageCount * smallPageSize % 2 ^ 32

/-- In `sp_mem_is_shared`, with 32 bits. -/
def MapRegion.endOffs (reg : MapRegion) : ℕ := (reg.pageOffset + reg.len) % 2 ^ 32

structure Receiver extends SpMem.Receiver where
  refCount : ℕ
  deriving DecidableEq

/-- `struct sp_mem`. -/
structure Share where
  handle : ℕ
  senderId : ℕ
  memRegAttr : ℕ
  flags : ℕ
  tag : ℕ
  regions : List MapRegion
  receivers : List Receiver
  deriving DecidableEq

def Share.receiver (share : Share) (endpoint : ℕ) : Option Receiver :=
  share.receivers.find? (·.endpointId = endpoint)

/-- `share_bits`, `mem_shares`, the address spaces, and the number of the next mobj. -/
structure State where
  bits : List ℕ
  shares : List Share
  spaces : ℕ → Option Vm.VmInfo
  nextMobj : ℕ

/-- A receiver or a region that is NULL, the `assert` of `zero_mem_region` or a `memset` there that
leaves its mapping or may not write, or an address space at fault. -/
inductive Fault where
  | nullReceiver
  | nullRegion
  | noVa
  | abort
  | vm (fault : Vm.Fault)
  deriving DecidableEq

inductive Reply where
  | success (handle : ℕ)
  | error (err : Err)
  | unhandled
  deriving DecidableEq

/-- `struct ffa_rxtx`, with the result of `check_rxtx`. -/
structure RxTx where
  mapped : Bool
  size : ℕ
  version11 : Bool
  txIsMine : Bool
  rx : Buffer

/-- What can be allocated. -/
structure Alloc where
  mem : Bool
  mobj : ℕ → Bool
  region : Bool
  rest : Bool

/-! ## Shares -/

/-- `sp_mem_get`. -/
def State.get (s : State) (handle : ℕ) : Option Share := s.shares.find? (·.handle = handle)

/-- `bit_ffc` of `sp_mem_new`. -/
def State.freeBit (s : State) : Option ℕ := (List.range NUM_SHARES).find? (· ∉ s.bits)

def isShared (shares : List Share) (new : MapRegion) : Bool :=
  shares.any fun share => share.regions.any fun reg =>
    new.mobj = reg.mobj && new.pageOffset < reg.endOffs && reg.pageOffset < new.endOffs

/-- `sp_mem_remove` of a share on the list. -/
def State.remove (s : State) (share : Share) : State :=
  { s with
    bits := s.bits.filter fun i => globalHandle i ≠ share.handle
    shares := s.shares.eraseP (·.handle = share.handle) }

def Share.setRefCount (endpoint n : ℕ) (share : Share) : Share :=
  { share with
    receivers := share.receivers.map fun r =>
      if r.endpointId = endpoint then { r with refCount := n } else r }

def State.setRefCount (s : State) (handle endpoint n : ℕ) : State :=
  { s with
    shares := s.shares.map fun share =>
      if share.handle = handle then share.setRefCount endpoint n else share }

def State.setSpace (s : State) (endpoint : ℕ) (space : Vm.VmInfo) : State :=
  { s with spaces := Function.update s.spaces endpoint (some space) }

/-! ## `FFA_MEM_SHARE` -/

/-- `FFA_MEM_ACC_RW` and `FFA_MEM_ACC_EXE`. -/
def isRw (perm : ℕ) : Bool := perm.testBit 1

def isExe (perm : ℕ) : Bool := perm.testBit 3

inductive Stop where
  | err (err : Err)
  | fault (fault : Fault)

/-- The loop of `spmc_sp_add_sp_region`, whose rounds take some bytes each. -/
def addSpRegion (cfg : Config) (shares : List Share) (space : Vm.VmInfo) (highestPerm : ℕ)
    (alloc : Bool) :
    ℕ → ℕ → ℕ → List MapRegion → Except Stop (List MapRegion)
  | _, _, 0, regions => .ok regions
  | 0, _, _ + 1, _ => .error (.err .denied)
  | rounds + 1, va, regionLen, regions =>
    match Vm.vmGetMobj space (va % 2 ^ cfg.vm.bits) regionLen with
    | none => .error (.err .denied)
    | some (mobj, len, prot, offs) =>
      if isRw highestPerm && !prot.uw then .error (.err .denied)
      else if isExe highestPerm && !prot.ux then .error (.err .denied)
      -- the result of `calloc` is not checked
      else if !alloc then .error (.fault .nullRegion)
      else
        let region : MapRegion := ⟨mobj, offs % 2 ^ 32, len / smallPageSize⟩
        if isShared shares region then .error (.err .denied)
        else
          addSpRegion cfg shares space highestPerm alloc rounds (va + len) (regionLen - len)
            (region :: regions)

/-- The loop of `spmc_sp_add_share` for a partition. -/
def addSpRegions (cfg : Config) (shares : List Share) (space : Vm.VmInfo) (highestPerm : ℕ)
    (alloc : Bool) (rxtx : RxTx) : List ℕ → List MapRegion → Except Stop (List MapRegion)
  | [], regions => .ok regions
  | offs :: rest, regions =>
    if rxtx.size < offs + 16 then .error (.err .noMemory)
    else do
      let range := readRange rxtx.rx offs
      let regionLen := range.pageCount * smallPageSize % 2 ^ 32
      let regions ← addSpRegion cfg shares space highestPerm alloc regionLen range.address
        regionLen regions
      addSpRegions cfg shares space highestPerm alloc rxtx rest regions

/-- `spmc_sp_add_share` for the normal world. -/
def State.spMemConfig (cfg : Config) (s : State) (alloc : Alloc) : SpMem.Config where
  mem := cfg.mem
  session endpoint := (s.spaces endpoint).isSome
  allocMem := alloc.mem
  allocMobj := alloc.mobj
  allocRest := alloc.rest

/-- `highest_permission`. -/
def highestPerm (memTrans : MemTransaction) (rx : Buffer) : ℕ :=
  (List.range memTrans.memAccessCount).foldl
    (fun perm i => perm ||| accessPerm rx (memTrans.memAccessOffs + 16 * i)) 0

/-- `spmc_sp_add_share` with an owner. -/
def addSpShare (cfg : Config) (s : State) (alloc : Alloc) (owner : ℕ) (space : Vm.VmInfo)
    (memTrans : MemTransaction) (rxtx : RxTx) (blen : ℕ) :
    Except Stop (List MapRegion × List SpMem.Receiver) := do
  if !alloc.mem then .error (.err .noMemory)
  else if owner ≠ memTrans.senderId then .error (.err .denied)
  else if memTrans.memAccessCount = 0 then .error (.err .denied)
  else if blen < memTrans.memAccessCount * 16 + memTrans.memAccessOffs then .error (.err .noMemory)
  else
    let offs := SpMem.regionOffs memTrans rxtx.rx
    let ranges := (List.range (readField rxtx.rx (offs + 4) 4)).map fun i => offs + 16 + 16 * i
    let regions ← addSpRegions cfg s.shares space (highestPerm memTrans rxtx.rx) alloc.region
      rxtx ranges []
    let receivers ← (SpMem.addReceivers (s.spMemConfig cfg alloc) rxtx.rx memTrans.memAccessOffs
      (List.range memTrans.memAccessCount) []).mapError .err
    .ok (regions, receivers)

/-- The mobj of `sp_mem_new_mobj`, which is not secure. -/
def newMobj (cfg : Config) (id pageCount : ℕ) : Vm.Mobj :=
  ⟨id, pageCount * smallPageSize % 2 ^ cfg.vm.bits, false, false, some 1, 0⟩

/-- `spmc_sp_add_share` without an owner. -/
def addNwShare (cfg : Config) (s : State) (alloc : Alloc) (memTrans : MemTransaction) (rxtx : RxTx)
    (blen : ℕ) : Except Stop (List MapRegion × List SpMem.Receiver) := do
  let share ← (SpMem.addShare (s.spMemConfig cfg alloc) memTrans rxtx.rx blen).mapError .err
  .ok ([⟨newMobj cfg s.nextMobj share.region.numPages, 0, share.region.numPages⟩], share.receivers)

/-- The regions and receivers of `spmc_sp_add_share`. -/
def newShare (cfg : Config) (s : State) (alloc : Alloc) (owner : Option (ℕ × Vm.VmInfo))
    (memTrans : MemTransaction) (rxtx : RxTx) (blen : ℕ) :
    Except Stop (List MapRegion × List SpMem.Receiver) :=
  match owner with
  | some (endpoint, space) => addSpShare cfg s alloc endpoint space memTrans rxtx blen
  | none => addNwShare cfg s alloc memTrans rxtx blen

/-- The share with its regions and receivers. -/
def State.add (s : State) (i : ℕ) (memTrans : MemTransaction) (regions : List MapRegion)
    (receivers : List SpMem.Receiver) : State :=
  { s with
    bits := i :: s.bits
    shares :=
      { handle := globalHandle i
        senderId := memTrans.senderId
        memRegAttr := memTrans.memRegAttr
        flags := memTrans.flags
        tag := memTrans.tag
        regions
        receivers := receivers.map fun r => ⟨r, 0⟩ } :: s.shares
    nextMobj := s.nextMobj + 1 }

/-- `spmc_sp_add_share`. `sp_mem_remove` frees the index again. -/
def addShare (cfg : Config) (s : State) (alloc : Alloc) (owner : Option (ℕ × Vm.VmInfo))
    (memTrans : MemTransaction) (rxtx : RxTx) (blen : ℕ) : Except Fault (Reply × State) :=
  match s.freeBit with
  | none => .ok (.error .noMemory, s)
  | some i =>
    match newShare cfg s alloc owner memTrans rxtx blen with
    | .error (.fault fault) => .error fault
    | .error (.err err) => .ok (.error err, s)
    | .ok (regions, receivers) =>
      .ok (.success (globalHandle i), s.add i memTrans regions receivers)

def handleMemShare (cfg : Config) (s : State) (endpoint : ℕ) (space : Vm.VmInfo) (alloc : Alloc)
    (rxtx : RxTx) (totLen fragLen : ℕ) : Except Fault (Reply × State) :=
  if fragLen ≠ totLen then .ok (.error .notSupported, s)
  else if rxtx.size < fragLen then .ok (.error .invalidParameters, s)
  else
    match readMemTransaction rxtx.version11 rxtx.rx fragLen with
    | .error err => .ok (.error err, s)
    | .ok memTrans => addShare cfg s alloc (some (endpoint, space)) memTrans rxtx totLen

/-- `handle_mem_share_rxbuf` for memory of partitions. -/
def handleMemShareNw (cfg : Config) (s : State) (alloc : Alloc) (rxtx : RxTx) (totLen fragLen : ℕ) :
    Except Fault (Reply × State) :=
  if !rxtx.mapped || rxtx.size < fragLen then .ok (.error .denied, s)
  else
    match readMemTransaction rxtx.version11 rxtx.rx fragLen with
    | .error err => .ok (.error err, s)
    | .ok memTrans =>
      if memTrans.memAccessCount = 0
        ∨ endpointId rxtx.rx memTrans.memAccessOffs = cfg.myEndpointId then
        .ok (.unhandled, s)
      else addShare cfg s alloc none memTrans rxtx totLen

/-! ## `FFA_MEM_RETRIEVE_REQ` -/

/-- `ffa_mem_retrieve` before it uses the receiver: the share, the request, and where the region is
in it. -/
def retrieveTarget (s : State) (rxtx : RxTx) (totLen fragLen : ℕ) :
    Except Err (Share × MemTransaction × ℕ) :=
  if !rxtx.mapped || !rxtx.txIsMine then .error .denied
  else if fragLen ≠ totLen then .error .notSupported
  else if rxtx.size < fragLen then .error .invalidParameters
  else do
    let memTrans ← readMemTransaction rxtx.version11 rxtx.rx fragLen
    match s.get memTrans.globalHandle with
    | none => .error .denied
    | some share =>
      let offs := SpMem.regionOffs memTrans rxtx.rx
      if rxtx.size < offs + 16 then .error .invalidParameters else .ok (share, memTrans, offs)

def checkRetrieveRequest (receiver : Receiver) (share : Share) (memTrans : MemTransaction)
    (rxtx : RxTx) :
    Bool :=
  let perm := accessPerm rxtx.rx memTrans.memAccessOffs
  memTrans.memAccessCount = 1 && share.tag = memTrans.tag && (!isRw perm || isRw receiver.perm) &&
    (!isExe perm || isExe receiver.perm) && !memTrans.flags.testBit 2 &&
    transactionSize rxtx.version11 + 32 + 16 * share.regions.length ≤ rxtx.size

/-- The protection of `sp_map_shared`. -/
def permProt (perm : ℕ) : Vm.Prot :=
  { Vm.Prot.none with ur := true, uw := isRw perm, ux := isExe perm }

/-- The loop of `sp_map_shared`, and whether all regions were mapped. -/
def mapRegions (cfg : Config) (env : ℕ → Vm.Env) (perm : ℕ) :
    ℕ → ℕ → Vm.VmInfo → List MapRegion → Except Vm.Fault (Vm.VmInfo × Bool)
  | _, _, space, [] => .ok (space, true)
  | n, va, space, reg :: regions => do
    match ← Vm.vmMap cfg.vm (env n) space va reg.len
      (some (permProt perm)) .none reg.mobj reg.pageOffset with
    | (space, .error _) => return (space, false)
    -- `va` is now the address of this region
    | (space, .ok va) => mapRegions cfg env perm (n + 1) va space regions

/-- Whether `sp_map_shared` gets to its loop. -/
def canMap (perm va : ℕ) : Bool := !(isExe perm && isRw perm) && va = 0

def mapShared (cfg : Config) (env : ℕ → Vm.Env) (perm va : ℕ) (space : Vm.VmInfo)
    (regions : List MapRegion) :
    Except Vm.Fault (Vm.VmInfo × Bool) :=
  if canMap perm va then mapRegions cfg env perm 0 va space regions else .ok (space, false)

/-- The address that `ffa_mem_retrieve` passes on. -/
def retrieveVa (rxtx : RxTx) (offs : ℕ) : ℕ := readField rxtx.rx (offs + 16) 8

def memRetrieve (cfg : Config) (s : State) (endpoint : ℕ) (space : Vm.VmInfo) (env : ℕ → Vm.Env)
    (rxtx : RxTx) (totLen fragLen : ℕ) : Except Fault (Reply × State) :=
  match retrieveTarget s rxtx totLen fragLen with
  | .error err => .ok (.error err, s)
  | .ok (share, memTrans, offs) =>
    match share.receiver endpoint with
    | none => .error .nullReceiver
    | some receiver =>
      if !checkRetrieveRequest receiver share memTrans rxtx then .ok (.error .invalidParameters, s)
      else if receiver.refCount = 255 then .ok (.error .denied, s)
      else if receiver.refCount = 0 then
        match mapShared cfg env receiver.perm (retrieveVa rxtx offs) space share.regions with
        | .error fault => .error (.vm fault)
        | .ok (space, false) => .ok (.error .denied, s.setSpace endpoint space)
        | .ok (space, true) =>
          .ok (.success share.handle,
            (s.setSpace endpoint space).setRefCount share.handle endpoint 1)
      else .ok (.success share.handle, s.setRefCount share.handle endpoint (receiver.refCount + 1))

/-! ## `FFA_MEM_RELINQUISH` -/

/-- `ffa_mem_relinquish` before it uses the receiver. -/
def relinquishTarget (s : State) (endpoint : ℕ) (rxtx : RxTx) : Except Err Share :=
  if !rxtx.mapped then .error .denied
  else
    match s.get (readField rxtx.rx 0 8) with
    | none => .error .denied
    | some share =>
      if readField rxtx.rx 12 4 ≠ 1 then .error .invalidParameters
      else if readField rxtx.rx 16 2 ≠ endpoint then .error .denied
      else .ok share

/-- `sp_mem_get_va`. -/
def getVa (space : Vm.VmInfo) (reg : MapRegion) : Option ℕ :=
  (space.regions.find? fun r => r.mobj = reg.mobj ∧ r.offset = reg.pageOffset).map Vm.VmRegion.va

/-- `sp_unmap_ffa_regions`, and whether all regions were unmapped. -/
def unmapRegions (cfg : Config) (env : ℕ → Vm.Env) :
    ℕ → Vm.VmInfo → List MapRegion → Except Vm.Fault (Vm.VmInfo × Bool)
  | _, space, [] => .ok (space, true)
  | n, space, reg :: regions => do
    match ← Vm.vmUnmap cfg.vm (env n) space ((getVa space reg).getD 0) reg.len with
    | (space, .error _) => return (space, false)
    | (space, .ok ()) => unmapRegions cfg env (n + 1) space regions

def memRelinquish (cfg : Config) (s : State) (endpoint : ℕ) (space : Vm.VmInfo) (env : ℕ → Vm.Env)
    (rxtx : RxTx) : Except Fault (Reply × State) :=
  match relinquishTarget s endpoint rxtx with
  | .error err => .ok (.error err, s)
  | .ok share =>
    match share.receiver endpoint with
    | none => .error .nullReceiver
    | some receiver =>
      if receiver.refCount = 0 then .ok (.error .denied, s)
      else
        let s := s.setRefCount share.handle endpoint (receiver.refCount - 1)
        if receiver.refCount = 1 then
          match unmapRegions cfg env 0 space share.regions with
          | .error fault => .error (.vm fault)
          | .ok (space, false) => .ok (.error .denied, s.setSpace endpoint space)
          | .ok (space, true) => .ok (.success share.handle, s.setSpace endpoint space)
        else .ok (.success share.handle, s)

/-! ## `FFA_MEM_RECLAIM` -/

def zeroMemRegion (space : Vm.VmInfo) : List MapRegion → Except Fault Unit
  | [] => .ok ()
  | reg :: regions =>
    match space.regions.find? fun r => r.mobj = reg.mobj ∧ r.offset = reg.pageOffset with
    | none => .error .noVa
    | some r =>
      -- the core may write where the partition or the core may
      if reg.len ≠ 0 ∧ (r.size < reg.len ∨ !(r.attr.prot.uw || r.attr.prot.pw)) then .error .abort
      else zeroMemRegion space regions

def memReclaim (s : State) (caller : Option (ℕ × Vm.VmInfo)) (handle flags : ℕ) :
    Except Fault (Reply × State) :=
  match s.get handle with
  | none => .ok (.unhandled, s)
  | some share =>
    if caller.any (fun (endpoint, _) => endpoint ≠ share.senderId) then
      .ok (.error .invalidParameters, s)
    else if share.receivers.any (·.refCount ≠ 0) then .ok (.error .denied, s)
    else if flags.testBit 0 then
      match caller with
      | none => .ok (.error .denied, s)
      | some (_, space) =>
        match zeroMemRegion space share.regions with
        | .error fault => .error fault
        | .ok () => .ok (.success handle, s.remove share)
    else .ok (.success handle, s.remove share)

/-! ## Requests -/

inductive Request where
  | share (endpoint : ℕ) (alloc : Alloc) (rxtx : RxTx) (totLen fragLen : ℕ)
  | shareNw (alloc : Alloc) (rxtx : RxTx) (totLen fragLen : ℕ)
  | retrieve (endpoint : ℕ) (env : ℕ → Vm.Env) (rxtx : RxTx) (totLen fragLen : ℕ)
  | relinquish (endpoint : ℕ) (env : ℕ → Vm.Env) (rxtx : RxTx)
  | reclaim (endpoint handle flags : ℕ)
  | reclaimNw (handle flags : ℕ)

def State.withSpace (s : State) (endpoint : ℕ) (handle : Vm.VmInfo → Except Fault (Reply × State)) :
    Except Fault (Reply × State) :=
  match s.spaces endpoint with
  | none => .ok (.unhandled, s)
  | some space => handle space

/-- The reply to a request, and the state after it. -/
def respond (cfg : Config) (s : State) : Request → Except Fault (Reply × State)
  | .share endpoint alloc rxtx totLen fragLen =>
    s.withSpace endpoint fun space => handleMemShare cfg s endpoint space alloc rxtx totLen fragLen
  | .shareNw alloc rxtx totLen fragLen => handleMemShareNw cfg s alloc rxtx totLen fragLen
  | .retrieve endpoint env rxtx totLen fragLen =>
    s.withSpace endpoint fun space => memRetrieve cfg s endpoint space env rxtx totLen fragLen
  | .relinquish endpoint env rxtx =>
    s.withSpace endpoint fun space => memRelinquish cfg s endpoint space env rxtx
  | .reclaim endpoint handle flags =>
    s.withSpace endpoint fun space => memReclaim s (some (endpoint, space)) handle flags
  | .reclaimNw handle flags => memReclaim s none handle flags

def step (cfg : Config) (s : State) (req : Request) : Except Fault State :=
  (respond cfg s req).map Prod.snd

end Optee.SpmcSp
