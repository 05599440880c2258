import Optee.Buffer
import Optee.MemMap

/-!
# Non-secure memory

The part of `core/mm/core_mmu.c` that stores the ranges of non-secure memory found at boot, without
what is in them that is not for the normal world: `carve_out_phys_mem`, `check_phys_mem_is_outside`,
`core_mmu_set_discovered_nsec_ddr`, and `core_pbuf_is` of `CORE_MEM_NON_SEC`.
-/

namespace Optee.NsecDdr

open MemMap

structure MemaccessArea where
  paddr : ℕ
  size : ℕ

/-- The widths of `paddr_t` and of `size_t`, the greatest physical address, and `qsort` with
`cmp_pmem_by_addr`. -/
structure Config where
  paddrBits : ℕ
  sizeBits : ℕ
  maxPa : ℕ
  qsort : List PhysMem → List PhysMem
  sizeBits_le : sizeBits ≤ paddrBits
  qsort_perm : ∀ mem, (qsort mem).Perm mem

/-- `secure_only`, `nsec_shared`, `dtb_get_sdp_region` and `register_sdp_mem`. -/
structure Platform where
  secureOnly : List MemaccessArea
  nsecShared : List MemaccessArea
  secSdp : Option MemaccessArea
  physSdpMem : List PhysMem

/-- A call of `panic()`, or a failed `assert()`. -/
inductive Panic where
  | noRange
  | carvePart
  | overlapsMap
  | endPa

variable (cfg : Config)

def carveRange (pa size : ℕ) (m : PhysMem) : List PhysMem :=
  if pa = m.addr ∧ size = m.size then []
  else if pa = m.addr then [{ m with addr := m.addr + size, size := m.size - size }]
  else if (pa + size) % 2 ^ cfg.paddrBits = (m.addr + m.size) % 2 ^ cfg.paddrBits then
    [{ m with size := m.size - size }]
  else
    -- need to split the memory entry
    [{ m with size := pa - m.addr },
      { m with addr := pa + size, size := m.size - (size + (pa - m.addr)) }]

def carveOutPhysMem (pa size : ℕ) : List PhysMem → Except Panic (List PhysMem)
  | [] => .ok []
  | m :: mem =>
    if Buffer.coreIsBufferInside cfg.paddrBits pa size m.addr m.size then
      .ok (carveRange cfg pa size m ++ mem)
    else if !Buffer.coreIsBufferOutside cfg.paddrBits pa size m.addr m.size then .error .carvePart
    else do
      let rest ← carveOutPhysMem pa size mem
      return m :: rest

def checkPhysMemIsOutside (mem : List PhysMem)
    (map : TeeMmapRegion) : Except Panic (List PhysMem) :=
  if mem.all (fun m => Buffer.coreIsBufferOutside cfg.paddrBits m.addr m.size map.pa map.size) then
    .ok mem
  else .error .overlapsMap

/-- `core_mmu_set_discovered_nsec_ddr` for an entry of the memory map. -/
def checkMap (mem : List PhysMem) (map : TeeMmapRegion) : Except Panic (List PhysMem) :=
  match map.type with
  | .nsecShm => carveOutPhysMem cfg map.pa map.size mem
  | .extDt | .manifestDt | .ramNsec | .resVaspace | .shmVaspace | .tsVaspace | .pagerVaspace =>
    .ok mem
  | _ => checkPhysMemIsOutside cfg mem map

def carveOutAreas (areas : List MemaccessArea) (mem : List PhysMem) : Except Panic (List PhysMem) :=
  areas.foldlM (fun mem a => carveOutPhysMem cfg a.paddr a.size mem) mem

/-- An area for `carve_out_phys_mem`, with a `size_t`. -/
def sdpArea (m : PhysMem) : MemaccessArea := ⟨m.addr, m.size % 2 ^ cfg.sizeBits⟩

/-- `core_mmu_set_discovered_nsec_ddr`, the first time. `before` is what it finds before the first
range where there is none. -/
def coreMmuSetDiscoveredNsecDdr (plat : Platform) (maps : List TeeMmapRegion) (before : PhysMem)
    (start : List PhysMem) : Except Panic (List PhysMem) :=
  if start = [] then .error .noRange
  else do
    let mem := cfg.qsort start
    let mem ← carveOutAreas cfg plat.secSdp.toList mem
    let mem ← carveOutAreas cfg (plat.physSdpMem.map (sdpArea cfg)) mem
    let mem ← carveOutAreas cfg plat.secureOnly mem
    let mem ← maps.foldlM (checkMap cfg) mem
    let last := mem.getLast?.getD before
    if Buffer.coreMmuCheckEndPa cfg.paddrBits cfg.sizeBits cfg.maxPa last.addr
      (last.size % 2 ^ cfg.sizeBits) then
      return mem
    else .error .endPa

/-- `core_pbuf_is` of `CORE_MEM_NON_SEC`. -/
def corePbufIsNonSec (plat : Platform) (stored : List PhysMem) (pbuf len : ℕ) : Bool :=
  if len = 0 then true
  else
    plat.nsecShared.any
      (fun a => Buffer.coreIsBufferInside cfg.paddrBits pbuf len a.paddr a.size) ||
    stored.any fun m => Buffer.coreIsBufferInside cfg.paddrBits pbuf len m.addr m.size

def checkSecNsecMemConfig (plat : Platform) : Bool :=
  plat.secureOnly.all fun s => !plat.nsecShared.any fun a =>
    Buffer.coreIsBufferIntersect cfg.paddrBits s.paddr s.size a.paddr a.size

end Optee.NsecDdr
