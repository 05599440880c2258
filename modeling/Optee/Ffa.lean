import Mathlib.Data.List.Basic
import Optee.Lib.Bytes
import Optee.Util

/-!
# FF-A memory transaction descriptors

What `core/arch/arm/kernel/thread_spmc.c` reads from a descriptor of the normal world, and the lists
of pages that it fills in from the address ranges (`core/arch/arm/mm/mobj_ffa.c` and
`core/arch/arm/mm/sp_mem.c`). Buffers start at a page boundary.
-/

namespace Optee.Ffa

abbrev Buffer := ℕ → UInt8

/-- `READ_ONCE` of a field with a number of bytes. -/
def readField (buf : Buffer) (offs n : ℕ) : ℕ :=
  ofLeBytes ((List.range n).map fun i => buf (offs + i))

/-- `FFA_INVALID_PARAMETERS`, `FFA_NO_MEMORY`, `FFA_DENIED` and `FFA_NOT_SUPPORTED`. -/
inductive Err where
  | invalidParameters
  | noMemory
  | denied
  | notSupported
  deriving DecidableEq

/-! ## Headers -/

/-- `struct ffa_mem_transaction_x`. -/
structure MemTransaction where
  senderId : ℕ
  memRegAttr : ℕ
  flags : ℕ
  memAccessSize : ℕ
  memAccessCount : ℕ
  memAccessOffs : ℕ
  globalHandle : ℕ
  tag : ℕ

/-- The sizes of the descriptor in both versions. -/
def transactionSize (version11 : Bool) : ℕ := if version11 then 48 else 32

/-- The descriptor of either version, before it is checked. -/
def rawTransaction (version11 : Bool) (buf : Buffer) : MemTransaction where
  senderId := readField buf 0 2
  memRegAttr := readField buf 2 (if version11 then 2 else 1)
  flags := readField buf 4 4
  memAccessSize := if version11 then readField buf 24 4 else 16
  memAccessCount := readField buf 28 4
  memAccessOffs := if version11 then readField buf 32 4 else 32
  globalHandle := readField buf 8 8
  tag := readField buf 16 8

def readMemTransaction (version11 : Bool) (buf : Buffer) (blen : ℕ) : Except Err MemTransaction :=
  let trans := rawTransaction version11 buf
  if blen < transactionSize version11 then .error .invalidParameters
  else if 255 < trans.memRegAttr ∨ 255 < trans.flags ∨ 255 < trans.memAccessSize ∨
      255 < trans.memAccessCount ∨ 65535 < trans.memAccessOffs then .error .invalidParameters
  else if blen < trans.memAccessSize * trans.memAccessCount + trans.memAccessOffs then
    .error .invalidParameters
  else .ok trans

def FFA_NORMAL_MEM_REG_ATTR : ℕ := 0x2f

def FFA_MEM_ACC_RW : ℕ := 2

def endpointId (buf : Buffer) (offs : ℕ) : ℕ := readField buf offs 2

def accessPerm (buf : Buffer) (offs : ℕ) : ℕ := readField buf (offs + 2) 1

def MemTransaction.accessOffs (trans : MemTransaction) (n : ℕ) : ℕ :=
  trans.memAccessOffs + trans.memAccessSize * n

def MemTransaction.findEndpoint (trans : MemTransaction) (buf : Buffer) (endpoint : ℕ) : Option ℕ :=
  (List.range trans.memAccessCount).find? fun n => endpointId buf (trans.accessOffs n) = endpoint

/-- Where `get_acc_perms` reads `region_offs`: it indexes once more from the access descriptor it
has found. -/
def MemTransaction.regionOffsAt (trans : MemTransaction) (n : ℕ) : ℕ :=
  trans.accessOffs n + 16 * n + 4

/-- What `mem_share_init` finds: two counts, and where the address ranges start. -/
structure RegionHeader where
  pageCount : ℕ
  regionCount : ℕ
  addrRangeOffs : ℕ
  deriving DecidableEq

def memShareInit (myEndpointId : ℕ) (trans : MemTransaction) (buf : Buffer) (blen : ℕ) :
    Except Err RegionHeader :=
  if trans.memRegAttr ≠ FFA_NORMAL_MEM_REG_ATTR then .error .invalidParameters
  else
    match trans.findEndpoint buf myEndpointId with
    | none => .error .invalidParameters
    | some n =>
      let regionOffs := readField buf (trans.regionOffsAt n) 4
      if accessPerm buf (trans.accessOffs n) ≠ FFA_MEM_ACC_RW then .error .invalidParameters
      else if blen < regionOffs + 16 then .error .invalidParameters
      else if regionOffs % 8 ≠ 0 then .error .invalidParameters
      else .ok ⟨readField buf regionOffs 4, readField buf (regionOffs + 4) 4, regionOffs + 16⟩

/-! ## Address ranges and pages -/

structure AddressRange where
  address : ℕ
  pageCount : ℕ
  deriving DecidableEq

def readRange (buf : Buffer) (offs : ℕ) : AddressRange :=
  ⟨readField buf offs 8, readField buf (offs + 8) 4⟩

def readRanges (buf : Buffer) (offs count : ℕ) : List AddressRange :=
  (List.range count).map fun i => readRange buf (offs + 16 * i)

/-- The width of `paddr_t` and `size_t`, and the areas that are non-secure. -/
structure Memory where
  paddrBits : ℕ
  sizeBits : ℕ
  nonSec : List (ℕ × ℕ)
  bits : 32 ≤ paddrBits
  inside : ∀ area ∈ nonSec, area.1 + area.2 ≤ 2 ^ paddrBits

def Memory.bufferInside (mem : Memory) (b bl a al : ℕ) : Bool :=
  let last (x xl : ℕ) := (x + 2 ^ mem.paddrBits - 1 + xl) % 2 ^ mem.paddrBits
  b ≤ last b bl && a ≤ last a al && bl ≠ 0 && al ≠ 0 && a ≤ b && last b bl ≤ last a al

/-- `core_pbuf_is` with `CORE_MEM_NON_SEC`. -/
def Memory.pbufIsNonSec (mem : Memory) (pa len : ℕ) : Bool :=
  len = 0 || mem.nonSec.any fun area => mem.bufferInside pa len area.1 area.2

/-- A memory object. A page entry is `none` until it is written. The address ranges are not kept by
the code. -/
structure PageList where
  numPages : ℕ
  pages : List (Option ℕ)
  ranges : List AddressRange
  deriving DecidableEq

/-- An object that `calloc` has cleared. -/
def PageList.new (numPages : ℕ) : PageList := ⟨numPages, List.replicate numPages none, []⟩

def Memory.pagesOf (mem : Memory) (range : AddressRange) : List ℕ :=
  (List.range range.pageCount).map fun n =>
    (range.address % 2 ^ mem.paddrBits + n * smallPageSize % 2 ^ 32) % 2 ^ mem.paddrBits

def writePages (pages : List (Option ℕ)) (idx : ℕ) (new : List ℕ) : List (Option ℕ) :=
  pages.take idx ++ new.map some ++ pages.drop (idx + new.length)

/-- The pages of a range, for an object that says it has room for `total`. -/
def PageList.addPages (mem : Memory) (total : ℕ) (obj : PageList) (idx : ℕ) (range : AddressRange) :
    Option (PageList × ℕ) :=
  if 2 ^ 32 ≤ idx + range.pageCount ∨ total < idx + range.pageCount then none
  else if !mem.pbufIsNonSec (range.address % 2 ^ mem.paddrBits)
      (range.pageCount * smallPageSize % 2 ^ 32) then none
  else
    some ({ obj with
      pages := writePages obj.pages idx (mem.pagesOf range)
      ranges := obj.ranges ++ [range] }, idx + range.pageCount)

/-- `get_page_count`, of a size with 32 bits. -/
def PageList.ffaPageCount (obj : PageList) : ℕ :=
  obj.numPages * smallPageSize % 2 ^ 32 / smallPageSize

def PageList.ffaAddPagesAt (mem : Memory) (obj : PageList) (idx : ℕ) (range : AddressRange) :
    Option (PageList × ℕ) :=
  obj.addPages mem obj.ffaPageCount idx range

/-- `get_page_count` of `sp_mem.c`. -/
def PageList.spPageCount (mem : Memory) (obj : PageList) : ℕ :=
  obj.numPages * smallPageSize % 2 ^ mem.sizeBits / smallPageSize

/-- `sp_mem_add_pages` of an object of cached non-secure memory. -/
def PageList.spAddPages (mem : Memory) (obj : PageList) (idx : ℕ) (range : AddressRange) :
    Option (PageList × ℕ) :=
  obj.addPages mem (obj.spPageCount mem) idx range

def foldRanges (add : PageList → ℕ → AddressRange → Option (PageList × ℕ)) :
    PageList → ℕ → List AddressRange → Option (PageList × ℕ)
  | obj, idx, [] => some (obj, idx)
  | obj, idx, range :: ranges => do
    let (obj, idx) ← add obj idx range
    foldRanges add obj idx ranges

end Optee.Ffa
