import Optee.Ffa

/-!
# Memory shared with OP-TEE

`FFA_MEM_SHARE` and `FFA_MEM_FRAG_TX` of `core/arch/arm/kernel/thread_spmc.c`. A descriptor comes in
the RX buffer or in a buffer in physical memory, whole or in fragments. Requests are handled one at
a time; the state is that of one guest.
-/

namespace Optee.ThreadSpmc

open Ffa

/-- The build, the buffers and what can be allocated. -/
structure Config where
  mem : Memory
  version11 : Bool
  myEndpointId : ℕ
  /-- `CFG_NS_VIRTUALIZATION` and the guest. -/
  guest : Option UInt16
  /-- `CFG_SECURE_PARTITION`. -/
  securePartition : Bool
  /-- `rxtx->size`, where there is an RX buffer. -/
  rx : Option ℕ
  /-- Whether `calloc` has memory for an object or a fragment state. -/
  allocMobj : ℕ → Bool
  allocFrag : Bool
  /-- Whether `tee_mm_alloc` has room. -/
  allocVa : ℕ → Bool

/-- `struct mobj_ffa` with its cookie and pages. -/
structure Mobj where
  cookie : ℕ
  obj : PageList

structure MemShareState where
  mf : Mobj
  pageCount : ℕ
  regionCount : ℕ
  currentPageIdx : ℕ

/-- `struct mem_frag_state`, with the size of `mm`. -/
structure MemFragState where
  share : MemShareState
  mm : Option ℕ
  fragOffset : ℕ

/-- `shm_bits`, the cookies of the guest, `shm_inactive_head` and `frag_state_head`, and the buffers
in physical memory of which another number of pages was unmapped than was mapped, with both numbers.
What comes of that is not followed. -/
structure State where
  bits : List ℕ
  cookies : List ℕ
  inactive : List Mobj
  frags : List MemFragState
  strays : List (ℕ × ℕ)

def NUM_SHMS : ℕ := 64

def FMEM_INVALID_GLOBAL_ID : ℕ := 2 ^ 64 - 1

def hypervisorBit (cookie : ℕ) : Bool := cookie.testBit 63

/-- The cookie of a bit of `shm_bits`, with `FFA_MEMORY_HANDLE_NON_SECURE_BIT` and the guest. -/
def handleCookie (guest : Option UInt16) (i : ℕ) : ℕ := i + 2 ^ 44 + (guest.getD 0).toNat * 2 ^ 16

def spmcNew (cfg : Config) (s : State) (cookie numPages : ℕ) : Option (Mobj × State) :=
  if cookie ≠ FMEM_INVALID_GLOBAL_ID then
    if !hypervisorBit cookie || cfg.guest.isNone || s.cookies.contains cookie ||
        NUM_SHMS ≤ s.cookies.length then none
    else if numPages = 0 ∨ !cfg.allocMobj numPages then none
    else some (⟨cookie, .new numPages⟩, { s with cookies := s.cookies ++ [cookie] })
  else if numPages = 0 ∨ !cfg.allocMobj numPages then none
  else
    match (List.range NUM_SHMS).find? fun i => !s.bits.contains i with
    | none => none
    | some i => some (⟨handleCookie cfg.guest i, .new numPages⟩, { s with bits := i :: s.bits })

def spmcDelete (cfg : Config) (s : State) (mf : Mobj) : State :=
  if cfg.guest.isNone || !hypervisorBit mf.cookie then
    { s with bits := s.bits.filter fun i => handleCookie cfg.guest i ≠ mf.cookie }
  else s

def pushToInactive (s : State) (mf : Mobj) : State := { s with inactive := mf :: s.inactive }

/-- The address ranges of a fragment are added with `mobj_ffa_add_pages_at`. -/
def addRanges (mem : Memory) (obj : PageList) (idx : ℕ) (ranges : List AddressRange) :
    Option (PageList × ℕ) :=
  foldRanges (fun obj => obj.ffaAddPagesAt mem) obj idx ranges

/-- A number as an `int`. -/
def toInt (n : ℕ) : ℤ := if n % 2 ^ 32 < 2 ^ 31 then n % 2 ^ 32 else n % 2 ^ 32 - 2 ^ 32

/-- `add_mem_share_helper`, with the bytes used up where there is more to come. -/
def addMemShareHelper (mem : Memory) (share : MemShareState) (buf : Buffer) (offs flen : ℕ) :
    Except Err (MemShareState × ℤ) :=
  let regionCount := min (flen / 16) share.regionCount
  match addRanges mem share.mf.obj share.currentPageIdx (readRanges buf offs regionCount) with
  | none => .error .invalidParameters
  | some (obj, idx) =>
    let share' : MemShareState :=
      ⟨{ share.mf with obj := obj }, share.pageCount, share.regionCount - regionCount, idx⟩
    if share'.regionCount ≠ 0 then .ok (share', toInt (regionCount * 16))
    else if idx ≠ share.pageCount then .error .invalidParameters
    else .ok (share', 0)

/-- The reply. `negative` is an offset that is taken for an error. -/
inductive Reply where
  | error (err : Err)
  | negative
  | fragRx (handle offset : ℕ)
  | success (handle : ℕ)
  deriving DecidableEq

/-- What `add_mem_share_frag` makes of a fragment state: the next one, or the object. -/
inductive FragResult where
  | more (frag : MemFragState)
  | done (mf : Mobj)
  | failed (reply : Reply) (mf : Mobj)

/-- `add_mem_share_frag` before the state is unlinked. -/
def fragStep (mem : Memory) (frag : MemFragState) (buf : Buffer) (offs flen : ℕ) : FragResult :=
  match addMemShareHelper mem frag.share buf offs flen with
  | .error err => .failed (.error err) frag.share.mf
  | .ok (share, rc) =>
    if rc < 0 then .failed .negative share.mf
    else if 2 ^ 32 ≤ frag.fragOffset + rc.toNat then .failed (.error .invalidParameters) share.mf
    else if share.regionCount ≠ 0 then
      .more { frag with share := share, fragOffset := frag.fragOffset + rc.toNat }
    else .done share.mf

/-- An offset is returned as an `int`. -/
def moreReply (handle offset : ℕ) : Reply :=
  if toInt offset < 0 then .negative else .fragRx handle (toInt offset).toNat

/-- `add_mem_share_frag` of a state that `unlink` and `relink` take from its place and put there. -/
def addMemShareFrag (cfg : Config) (s : State) (frag : MemFragState) (unlink : List MemFragState)
    (relink : MemFragState → List MemFragState) (buf : Buffer) (offs flen : ℕ) : Reply × State :=
  match fragStep cfg.mem frag buf offs flen with
  | .more frag' =>
    (moreReply frag.share.mf.cookie frag'.fragOffset, { s with frags := relink frag' })
  | .done mf => (.success mf.cookie, pushToInactive { s with frags := unlink } mf)
  | .failed reply mf => (reply, spmcDelete cfg { s with frags := unlink } mf)

def addMemShare (cfg : Config) (s : State) (memTrans : MemTransaction) (mm : Option ℕ)
    (buf : Buffer) (blen flen : ℕ) : Reply × State :=
  match memShareInit cfg.myEndpointId memTrans buf flen with
  | .error err => (.error err, s)
  | .ok header =>
    if blen < header.regionCount * 16 + header.addrRangeOffs then (.error .invalidParameters, s)
    else
      let cookie := if memTrans.globalHandle ≠ 0 then memTrans.globalHandle
        else FMEM_INVALID_GLOBAL_ID
      match spmcNew cfg s cookie header.pageCount with
      | none => (.error .noMemory, s)
      | some (mf, s) =>
        let share : MemShareState := ⟨mf, header.pageCount, header.regionCount, 0⟩
        if flen ≠ blen then
          if !cfg.allocFrag then (.error .noMemory, spmcDelete cfg s mf)
          else
            addMemShareFrag cfg s ⟨share, mm, header.addrRangeOffs⟩ s.frags (· :: s.frags) buf
              header.addrRangeOffs (flen - header.addrRangeOffs)
        else
          match addMemShareHelper cfg.mem share buf header.addrRangeOffs
            (flen - header.addrRangeOffs) with
          | .ok (share, 0) => (.success mf.cookie, pushToInactive s share.mf)
          | .ok _ | .error _ => (.error .invalidParameters, spmcDelete cfg s mf)

def virtSetGuest (cfg : Config) (id : ℕ) : Bool := cfg.guest.all (·.toNat = id)

/-- The arguments of `FFA_MEM_SHARE` that the calling convention leaves, with the buffer that they
name. -/
structure ShareArgs where
  totLen : ℕ
  fragLen : ℕ
  addr : ℕ
  pageCount : ℕ
  buf : Buffer

/-- `handle_mem_share_tmem`. A buffer off a page boundary cannot be mapped; one of no page makes the
code that maps it panic, where this goes on to find the descriptor too short. -/
def handleMemShareTmem (cfg : Config) (s : State) (args : ShareArgs) : Reply × State :=
  let len := args.pageCount * smallPageSize
  if 2 ^ cfg.mem.sizeBits ≤ len then (.error .invalidParameters, s)
  else if !cfg.mem.pbufIsNonSec (args.addr % 2 ^ cfg.mem.paddrBits) len then
    (.error .invalidParameters, s)
  else if len < args.fragLen ∨ len - args.addr % smallPageSize < args.fragLen then
    (.error .invalidParameters, s)
  else if !cfg.allocVa len then (.error .noMemory, s)
  else if args.addr % smallPageSize ≠ 0 then (.error .invalidParameters, s)
  else
    match readMemTransaction cfg.version11 args.buf args.fragLen with
    | .error err => (.error err, s)
    | .ok memTrans =>
      if !virtSetGuest cfg memTrans.senderId then (.error .denied, s)
      else addMemShare cfg s memTrans (some len) args.buf args.totLen args.fragLen

def isSpShare (cfg : Config) (memTrans : MemTransaction) (buf : Buffer) : Bool :=
  cfg.securePartition && 1 ≤ memTrans.memAccessCount &&
    endpointId buf memTrans.memAccessOffs ≠ cfg.myEndpointId

/-- `handle_mem_share_rxbuf`. For an unknown guest the result is that of reading the descriptor,
which is success. -/
def handleMemShareRxbuf (cfg : Config) (s : State) (args : ShareArgs)
    (spmcSpAddShare : MemTransaction → Reply × State) : Reply × State :=
  match cfg.rx with
  | none => (.error .denied, s)
  | some size =>
    if size < args.fragLen then (.error .denied, s)
    else
      match readMemTransaction cfg.version11 args.buf args.fragLen with
      | .error err => (.error err, s)
      | .ok memTrans =>
        if isSpShare cfg memTrans args.buf then spmcSpAddShare memTrans
        else if !virtSetGuest cfg memTrans.senderId then (.success 0, s)
        else addMemShare cfg s memTrans none args.buf args.totLen args.fragLen

/-- `handle_mem_share`, whose other arguments are 0. -/
def handleMemShare (cfg : Config) (s : State) (args : ShareArgs)
    (spmcSpAddShare : MemTransaction → Reply × State) : Reply × State :=
  if args.totLen < args.fragLen then (.error .invalidParameters, s)
  else if args.addr = 0 then
    if args.pageCount ≠ 0 then (.error .invalidParameters, s)
    else handleMemShareRxbuf cfg s args spmcSpAddShare
  else handleMemShareTmem cfg s args

def replaceFirst (p : MemFragState → Bool) (frag : MemFragState) :
    List MemFragState → List MemFragState
  | [] => []
  | x :: xs => if p x then frag :: xs else x :: replaceFirst p frag xs

/-- Whether `rc > 0`, so that there is more to come. -/
def isFragRx : Reply → Bool
  | .fragRx .. => true
  | _ => false

/-- `core_mmu_unmap_pages` for a buffer in physical memory. -/
def State.unmap (s : State) (mm : Option ℕ) (pageCount : ℕ) : State :=
  match mm with
  | none => s
  | some bytes =>
    if pageCount = bytes / smallPageSize then s
    else { s with strays := (bytes / smallPageSize, pageCount) :: s.strays }

/-- `handle_mem_frag_tx`, for the first state with the handle. It takes the number of pages that are
shared for that of the buffer, and none where the fragment is too long. -/
def handleMemFragTx (cfg : Config) (s : State) (handle flen : ℕ) (buf : Buffer) : Reply × State :=
  let isFrag (frag : MemFragState) : Bool := frag.share.mf.cookie = handle
  match s.frags.find? isFrag with
  | none => (.error .invalidParameters, s)
  | some frag =>
    let size := frag.mm.getD (cfg.rx.getD 0)
    if size < flen then (.error .invalidParameters, s.unmap frag.mm 0)
    else
      let (reply, s) := addMemShareFrag cfg s frag (s.frags.eraseP isFrag)
        (fun frag' => replaceFirst isFrag frag' s.frags) buf 0 flen
      (reply, if isFragRx reply then s else s.unmap frag.mm frag.share.pageCount)

end Optee.ThreadSpmc
