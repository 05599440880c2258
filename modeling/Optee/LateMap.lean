import Optee.Buffer
import Optee.Lib.PageTables
import Optee.Lib.Run
import Optee.MemMap

/-!
# Mappings after boot

`core_mmu_add_mapping` and `core_mmu_remove_mapping` of `core/mm/core_mmu.c`, with the array of the
memory map up to `MEM_AREA_END` and the translation tables, those of the one address space of a core
without `CFG_NS_VIRTUALIZATION`.
-/

namespace Optee.LateMap

open MemMap PageTables

/-- The widths of `vaddr_t` and `size_t`, and of `paddr_t`, the greatest physical address, the size
of `static_memory_map`, and the levels of the tables. -/
structure Config where
  bits : ℕ
  paddrBits : ℕ
  maxPa : ℕ
  arraySize : ℕ
  extDtSecure : Bool
  levels : Levels
  shift_le : levels.shift ≤ bits
  width_le : levels.base.vaEnd ≤ 2 ^ bits
  entries_lt : levels.numEntries < 2 ^ 32
  finer_lt : ∀ s ∈ levels.finer, levels.shift - s < 32

/-- `static_memory_map` and the translation tables. -/
structure State where
  maps : List TeeMmapRegion
  tables : Tables MapAttr

/-- A type that `core_mmu_type_to_attr` has nothing for, a range that is not of whole blocks, or an
index outside of the table. -/
inductive Panic where
  | invalidType
  | blockOffset
  | entryIndex
  deriving DecidableEq

variable (cfg : Config)

/-! ### The memory map -/

def paIsInMap (map : TeeMmapRegion) (pa len : ℕ) : Bool :=
  if len = 0 ∨ 2 ^ cfg.paddrBits ≤ pa + (len - 1) then false
  else decide (map.pa ≤ pa ∧ pa + (len - 1) ≤ Buffer.lastAddr cfg.paddrBits map.pa map.size)

def pbufInsideMapArea (p l : ℕ) (map : TeeMmapRegion) : Bool :=
  Buffer.coreIsBufferInside cfg.paddrBits (p % 2 ^ cfg.bits) l map.pa map.size

def findMapByType (maps : List TeeMmapRegion) (type : MemType) : Option (TeeMmapRegion × ℕ) :=
  maps.zipIdx.find? fun e => e.1.type = type

def findMapByTypeAndPa (maps : List TeeMmapRegion) (type : MemType)
    (pa len : ℕ) : Option (TeeMmapRegion × ℕ) :=
  maps.zipIdx.find? fun e => e.1.type = type && paIsInMap cfg e.1 pa len

def coreMmuCheckEndPa (pa len : ℕ) : Bool :=
  Buffer.coreMmuCheckEndPa cfg.paddrBits cfg.bits cfg.maxPa pa len

/-! ### Translation tables -/

/-- `core_mmu_find_table`, which does not return the base table unless foreign interrupts are
masked. -/
def coreMmuFindTable (masked : Bool) (tables : Tables MapAttr) (va : ℕ) : Option TableInfo :=
  (cfg.levels.find tables va).filter fun t => masked || t.shift ≠ cfg.levels.shift

def coreMmuVa2idx (t : TableInfo) (va : ℕ) : ℕ :=
  (va + (2 ^ cfg.bits - t.vaBase)) % 2 ^ cfg.bits / 2 ^ t.shift % 2 ^ 32

/-- What `core_mmu_set_entry` writes. -/
def descOf (pa : ℕ) (attr : MapAttr) : Desc MapAttr :=
  if attr.valid then .block pa attr else .invalid

/-- `clear_region` and `set_region`, one entry after the other. -/
def fillRegion (t : TableInfo) (region : TeeMmapRegion) (desc : ℕ → Desc MapAttr)
    (tables : Tables MapAttr) :
    Except Panic (Tables MapAttr) :=
  if region.va % 2 ^ t.shift ≠ 0 ∨ region.size % 2 ^ t.shift ≠ 0 ∨ region.pa % 2 ^ t.shift ≠ 0 then
    .error .blockOffset
  else
    let idx := coreMmuVa2idx cfg t region.va
    let last := coreMmuVa2idx cfg t ((region.va + region.size) % 2 ^ cfg.bits)
    match fill t desc (last - idx) idx tables with
    | some tables => .ok tables
    | none => .error .entryIndex

def clearRegion (t : TableInfo) (region : TeeMmapRegion)
    (tables : Tables MapAttr) : Except Panic (Tables MapAttr) :=
  fillRegion cfg t region (fun _ => .invalid) tables

def setRegion (t : TableInfo) (region : TeeMmapRegion) (attr : MapAttr) (tables : Tables MapAttr) :
    Except Panic (Tables MapAttr) :=
  fillRegion cfg t region (fun k => descOf (region.pa + k * 2 ^ t.shift) attr) tables

/-! ### Adding and removing mappings -/

/-- `ROUNDDOWN(addr, granule)`. -/
def granuleStart (t : TableInfo) (addr : ℕ) : ℕ := addr / 2 ^ t.shift * 2 ^ t.shift

/-- `ROUNDUP(len + addr - p, granule)`. -/
def granulesSize (t : TableInfo) (addr len : ℕ) : ℕ :=
  roundup (2 ^ t.shift) (len + addr - granuleStart t addr)

def alreadyMapped (maps : List TeeMmapRegion) (type : MemType)
    (addr len : ℕ) : Option TeeMmapRegion :=
  ((findMapByTypeAndPa cfg maps type addr len).map Prod.fst).filter (pbufInsideMapArea cfg addr len)

/-- `core_mmu_add_mapping` once the reserved address space and its table are found. -/
def mapReserved (st : State) (type : MemType) (addr len : ℕ) (res : TeeMmapRegion) (i : ℕ)
    (t : TableInfo) :
    Except Panic (State × Option ℕ) :=
  let p := granuleStart t addr
  let l := granulesSize t addr len % 2 ^ cfg.bits
  if res.size < l then .ok (st, none)
  else if t.numEntries ≤ coreMmuVa2idx cfg t ((res.va + len) % 2 ^ cfg.bits) then .ok (st, none)
  else
    let map : TeeMmapRegion := ⟨type, 2 ^ t.shift, p, res.va, l⟩
    let maps :=
      if st.maps.length < cfg.arraySize - 1 then
        st.maps.set i { res with va := (res.va + l) % 2 ^ cfg.bits, size := res.size - l } ++ [map]
      else
        -- there isn't room for another entry, steal the reserved entry
        st.maps.set i map
    match coreMmuTypeToAttr cfg.extDtSecure type with
    | none => .error .invalidType
    | some attr =>
      match setRegion cfg t map attr st.tables with
      | .error e => .error e
      | .ok tables => .ok (⟨maps, tables⟩, some ((map.va + addr - map.pa) % 2 ^ cfg.bits))

def coreMmuAddMapping (masked : Bool) (st : State) (type : MemType) (addr len : ℕ) :
    Except Panic (State × Option ℕ) :=
  if len = 0 then .ok (st, none)
  else if !coreMmuCheckEndPa cfg addr len then .ok (st, none)
  else
    match alreadyMapped cfg st.maps type addr len with
    | some map => .ok (st, some ((map.va + addr - map.pa) % 2 ^ cfg.bits))
    | none =>
      match findMapByType st.maps .resVaspace with
      | none => .ok (st, none)
      | some (res, i) =>
        match coreMmuFindTable cfg masked st.tables res.va with
        | none => .ok (st, none)
        | some t => mapReserved cfg st type addr len res i t

def virtToPhys (st : State) (va : ℕ) : ℕ := (cfg.levels.translate st.tables va).getD 0

def giveBack (res map : TeeMmapRegion) : TeeMmapRegion :=
  if (res.va + (2 ^ cfg.bits - map.size)) % 2 ^ cfg.bits = map.va then
    { res with va := map.va, size := (res.size + map.size) % 2 ^ cfg.bits }
  else res

/-- `core_mmu_remove_mapping` once the entry, the reserved address space and its table are found. -/
def unmapEntry (st : State) (pa len : ℕ) (map : TeeMmapRegion) (j : ℕ) (res : TeeMmapRegion) (i : ℕ)
    (t : TableInfo) : Except Panic (State × Bool) :=
  -- check that we have a full match
  if map.pa ≠ granuleStart t pa
    ∨ map.size ≠ granulesSize t pa len % 2 ^ cfg.bits then .ok (st, false)
  else
    match clearRegion cfg t map st.tables with
    | .error e => .error e
    | .ok tables => .ok (⟨(st.maps.set i (giveBack cfg res map)).eraseIdx j, tables⟩, true)

def coreMmuRemoveMapping (masked : Bool) (st : State) (type : MemType)
    (va len : ℕ) : Except Panic (State × Bool) :=
  match findMapByTypeAndPa cfg st.maps type (virtToPhys cfg st va) len with
  | none => .ok (st, false)
  | some (map, j) =>
    match findMapByType st.maps .resVaspace with
    | none => .ok (st, false)
    | some (res, i) =>
      match coreMmuFindTable cfg masked st.tables res.va with
      | none => .ok (st, false)
      | some t => unmapEntry cfg st (virtToPhys cfg st va) len map j res i t

inductive Op where
  | add (masked : Bool) (type : MemType) (addr len : ℕ)
  | remove (masked : Bool) (type : MemType) (va len : ℕ)

inductive Answer where
  | address (va : Option ℕ)
  | removed (ok : Bool)
  deriving DecidableEq

def call (st : State) : Op → Except Panic (State × Answer)
  | .add masked type addr len => do
    let (st, va) ← coreMmuAddMapping cfg masked st type addr len
    return (st, .address va)
  | .remove masked type va len => do
    let (st, ok) ← coreMmuRemoveMapping cfg masked st type va len
    return (st, .removed ok)

def step (st : State) (op : Op) : Except Panic State := do
  let (st, _) ← call cfg st op
  return st

end Optee.LateMap
