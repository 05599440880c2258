import Mathlib.Data.List.Basic
import Mathlib.Algebra.Group.Nat.Defs
import Mathlib.Data.Nat.Basic
import Optee.Util

/-!
# The static memory map

The part of `core/mm/core_mmu.c` that collects what the core maps when it starts: `add_phys_mem`,
and what `collect_device_mem_ranges` passes it. The array is the list of its used entries. Only the
place of a new entry is compared with its size, so that it may come to be full, and then to be left.
-/

namespace Optee.MemMap

/-- `enum teecore_memtypes`. -/
inductive MemType where
  | endOfTable
  | teeRam
  | teeRamRx
  | teeRamRo
  | teeRamRw
  | initRamRo
  | initRamRx
  | nexRamRo
  | nexRamRw
  | teeCoherent
  | teeAsan
  | identityMapRx
  | taRam
  | nsecShm
  | nexNsecShm
  | ramNsec
  | ramSec
  | romSec
  | ioNsec
  | ioSec
  | extDt
  | manifestDt
  | transferList
  | resVaspace
  | shmVaspace
  | tsVaspace
  | pagerVaspace
  | sdpMem
  | ddrOverall
  | secRamOverall
  deriving DecidableEq

def MemType.code (t : MemType) : ℕ := t.ctorIdx

/-- `TEE_MATTR_MEM_TYPE_*`, as far as the core uses them. -/
inductive CacheType where
  | dev
  | cached
  | tagged

/-- `TEE_MATTR_*` of a mapping of the core. -/
structure MapAttr where
  valid : Bool
  secure : Bool
  pr : Bool
  pw : Bool
  px : Bool
  cache : CacheType

def coreMmuTypeToAttr (extDtSecure : Bool) : MemType → Option MapAttr
  | .teeRam => some ⟨true, true, true, true, true, .tagged⟩
  | .teeRamRx | .initRamRx | .identityMapRx => some ⟨true, true, true, false, true, .tagged⟩
  | .teeRamRo | .initRamRo => some ⟨true, true, true, false, false, .tagged⟩
  | .teeRamRw | .nexRamRo | .nexRamRw | .teeAsan => some ⟨true, true, true, true, false, .tagged⟩
  | .teeCoherent => some ⟨true, true, true, true, true, .dev⟩
  | .taRam => some ⟨true, true, true, true, false, .tagged⟩
  | .nsecShm | .nexNsecShm => some ⟨true, false, true, true, false, .cached⟩
  | .manifestDt => some ⟨true, true, true, false, false, .cached⟩
  | .transferList => some ⟨true, true, true, true, false, .cached⟩
  | .extDt => some ⟨true, extDtSecure, true, true, false, .dev⟩
  | .ioNsec => some ⟨true, false, true, true, false, .dev⟩
  | .ioSec => some ⟨true, true, true, true, false, .dev⟩
  | .ramNsec => some ⟨true, false, true, true, false, .cached⟩
  | .ramSec | .secRamOverall => some ⟨true, true, true, true, false, .cached⟩
  | .romSec => some ⟨true, true, true, false, false, .cached⟩
  | .resVaspace | .shmVaspace => some ⟨false, false, false, false, false, .dev⟩
  | .pagerVaspace => some ⟨false, true, false, false, false, .dev⟩
  | .endOfTable | .tsVaspace | .sdpMem | .ddrOverall => none

/-- `struct tee_mmap_region`, whose `attr` is that of the type. -/
structure TeeMmapRegion where
  type : MemType
  regionSize : ℕ
  pa : ℕ
  va : ℕ
  size : ℕ
  deriving DecidableEq

def TeeMmapRegion.new (type : MemType) (pa size : ℕ) : TeeMmapRegion := ⟨type, 0, pa, 0, size⟩

structure PhysMem where
  type : MemType
  addr : ℕ
  size : ℕ

/-- A call of `panic()`, a failed `assert()`, or entries that are moved past the end of the
array. -/
inductive Panic where
  | outOfEntries
  | assertion
  | overrun
  deriving DecidableEq

/-- The width of `paddr_t` and the number of entries of the array. -/
structure Config where
  bits : ℕ
  numElems : ℕ

variable (cfg : Config)

/-- The test of `add_phys_mem` for an entry and a range of one type. -/
def overlaps (e : TeeMmapRegion) (mem : PhysMem) : Bool :=
  e.pa ≤ (mem.addr + (mem.size - 1)) % 2 ^ cfg.bits
    && mem.addr ≤ (e.pa + (e.size - 1)) % 2 ^ cfg.bits

def coalesce (e : TeeMmapRegion) (mem : PhysMem) : TeeMmapRegion :=
  let pa := min e.pa mem.addr
  { e with pa, size := (max e.size mem.size + (e.pa - pa)) % 2 ^ cfg.bits }

/-- The loop of `add_phys_mem`, after `n` entries. -/
def addPhysMemLoop (mem : PhysMem) : ℕ → List TeeMmapRegion → Except Panic (List TeeMmapRegion)
  | n, [] =>
    if cfg.numElems - 1 ≤ n then .error .outOfEntries
    else .ok [.new mem.type mem.addr mem.size]
  | n, e :: es =>
    if cfg.numElems - 1 ≤ n then .error .outOfEntries
    else if mem.type = e.type ∧ overlaps cfg e mem then .ok (coalesce cfg e mem :: es)
    else if mem.type.code < e.type.code ∨ mem.type = e.type ∧ mem.addr < e.pa then
      -- found the spot where to insert this memory, by moving the entries from it on
      if cfg.numElems ≤ n + (e :: es).length then .error .overrun
      else .ok (.new mem.type mem.addr mem.size :: e :: es)
    else do
      let rest ← addPhysMemLoop mem (n + 1) es
      return e :: rest

def addPhysMem (map : List TeeMmapRegion) (mem : PhysMem) : Except Panic (List TeeMmapRegion) :=
  if mem.size = 0 then .ok map else addPhysMemLoop cfg mem 0 map

structure DeviceRegion where
  baseAddress : Option ℕ
  pagesCount : Option ℕ

def DeviceRegion.physMem : DeviceRegion → Option PhysMem
  | ⟨some base, some pageCount⟩ =>
    if base % smallPageSize = 0 then
      -- the size that is passed is the end of the region
      some ⟨.ioSec, base, (base + pageCount * smallPageSize) % 2 ^ cfg.bits⟩
    else none
  | _ => none

end Optee.MemMap
