import Optee.Ffa

/-!
# Memory of the normal world that is shared with secure partitions

`spmc_sp_add_share` of `core/arch/arm/kernel/spmc_sp_handler.c` for a descriptor from the normal
world, with the object of `core/arch/arm/mm/sp_mem.c` that is filled in from its address ranges.
-/

namespace Optee.SpMem

open Ffa

/-- The memory, the partitions, and what can be allocated. -/
structure Config where
  mem : Memory
  session : ℕ → Bool
  allocMem : Bool
  allocMobj : ℕ → Bool
  allocRest : Bool

structure Receiver where
  endpointId : ℕ
  perm : ℕ
  flags : ℕ
  deriving DecidableEq

/-- `struct sp_mem` of memory of the normal world, which has one region. -/
structure Share where
  senderId : ℕ
  memRegAttr : ℕ
  flags : ℕ
  tag : ℕ
  region : PageList
  receivers : List Receiver
  deriving DecidableEq

def FFA_MEM_ACC_MASK : ℕ := 0xf

/-- The address ranges are added with `sp_mem_add_pages`. -/
def addRanges (mem : Memory) (obj : PageList) (idx : ℕ) (ranges : List AddressRange) :
    Option (PageList × ℕ) :=
  foldRanges (fun obj => obj.spAddPages mem) obj idx ranges

/-- `spmc_sp_add_nw_region`. The object is new, so that `sp_has_exclusive_access` finds no other
share with it. -/
def addNwRegion (cfg : Config) (buf : Buffer) (offs : ℕ) : Except Err PageList :=
  let pageCount := readField buf offs 4
  let addressCount := readField buf (offs + 4) 4
  if !cfg.allocMobj pageCount then .error .noMemory
  else
    match addRanges cfg.mem (.new pageCount) 0 (readRanges buf (offs + 16) addressCount) with
    | none => .error .denied
    | some (obj, _) => if cfg.allocRest then .ok obj else .error .noMemory

def addMemRegionToSp (cfg : Config) (buf : Buffer) (offs : ℕ) (receivers : List Receiver) :
    Except Err (List Receiver) :=
  let endpoint := endpointId buf offs
  if !cfg.session endpoint then .error .denied
  else if receivers.any (·.endpointId = endpoint) then .error .denied
  else if FFA_MEM_ACC_MASK < accessPerm buf offs then .error .denied
  else if !cfg.allocRest then .error .noMemory
  else .ok (⟨endpoint, accessPerm buf offs, readField buf (offs + 3) 1⟩ :: receivers)

def addReceivers (cfg : Config) (buf : Buffer) (offs : ℕ) : List ℕ → List Receiver →
    Except Err (List Receiver)
  | [], receivers => .ok receivers
  | i :: rest, receivers => do
    let receivers ← addMemRegionToSp cfg buf (offs + 16 * i) receivers
    addReceivers cfg buf offs rest receivers

/-- Where `spmc_sp_add_share` takes the region to be. -/
def regionOffs (memTrans : MemTransaction) (buf : Buffer) : ℕ :=
  readField buf (memTrans.memAccessOffs + 4) 4

/-- `spmc_sp_add_share` without an owner. -/
def addShare (cfg : Config) (memTrans : MemTransaction) (buf : Buffer)
    (blen : ℕ) : Except Err Share := do
  if !cfg.allocMem then .error .noMemory
  else if cfg.session memTrans.senderId then .error .denied
  else if memTrans.memAccessCount = 0 then .error .denied
  else if blen < memTrans.memAccessCount * 16 + memTrans.memAccessOffs then .error .noMemory
  else
    let region ← addNwRegion cfg buf (regionOffs memTrans buf)
    let receivers ← addReceivers cfg buf memTrans.memAccessOffs
      (List.range memTrans.memAccessCount) []
    .ok ⟨memTrans.senderId, memTrans.memRegAttr, memTrans.flags, memTrans.tag, region, receivers⟩

end Optee.SpMem
