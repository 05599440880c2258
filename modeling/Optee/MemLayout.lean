import Optee.MemMap

/-!
# The virtual addresses of the core

The part of `core/mm/core_mmu.c` that gives the entries of the memory map their virtual addresses:
`assign_mem_granularity`, and `assign_mem_va_dir`, which maps the RAM of the core from a given
address on and everything else below or above it.
-/

namespace Optee.MemMap

/-- The widths of `vaddr_t` and of `paddr_t`, `core_mmu_get_va_width()`, and
`CORE_MMU_PGDIR_SIZE`. -/
structure LayoutConfig where
  bits : ℕ
  paddrBits : ℕ
  vaWidth : ℕ
  pgdirShift : ℕ
  lpae : Bool
  extDtSecure : Bool
  page_le : 12 ≤ pgdirShift
  pgdir_lt : pgdirShift < bits
  bits_le : bits ≤ paddrBits

namespace LayoutConfig

variable (cfg : LayoutConfig)

def pgdirSize : ℕ := 2 ^ cfg.pgdirShift

/-- `(pa - va) & CORE_MMU_PGDIR_MASK`. -/
def pgdirOffset (pa va : ℕ) : ℕ :=
  (pa + (2 ^ cfg.paddrBits - va)) % 2 ^ cfg.paddrBits % cfg.pgdirSize

end LayoutConfig

def mapIsTeeRam (type : MemType) : Bool :=
  match type with
  | .teeRam | .teeRamRx | .teeRamRo | .teeRamRw | .initRamRx | .initRamRo | .nexRamRw | .nexRamRo
  | .teeAsan => true
  | _ => false

/-- What `assign_mem_va_dir` maps as RAM of the core. -/
def countsAsTeeRam (type : MemType) : Bool := mapIsTeeRam type || type = .pagerVaspace

/-- A `panic()` or a failed `assert()`. -/
inductive LayoutPanic where
  | impossibleAlignment
  | invalidType
  | assertion

variable (cfg : LayoutConfig)

/-- `assign_mem_granularity` of an entry. -/
def assignGranule (map : TeeMmapRegion) : Except LayoutPanic TeeMmapRegion :=
  if map.pa % cfg.pgdirSize = 0 ∧ map.size % cfg.pgdirSize = 0 then
    .ok { map with regionSize := if mapIsTeeRam map.type then smallPageSize else cfg.pgdirSize }
  else if map.pa % smallPageSize = 0 ∧ map.size % smallPageSize = 0 then
    .ok { map with regionSize := smallPageSize }
  else .error .impossibleAlignment

def assignMemGranularity (maps : List TeeMmapRegion) : Except LayoutPanic (List TeeMmapRegion) :=
  maps.mapM (assignGranule cfg)

/-- The loop over the RAM of the core, with the address after it. -/
def placeTeeRam : ℕ → List TeeMmapRegion → Except LayoutPanic (Option (ℕ × List TeeMmapRegion))
  | va, [] => .ok (some (va, []))
  | va, map :: maps =>
    if countsAsTeeRam map.type then
      if va % map.regionSize ≠ 0 ∨ map.size % map.regionSize ≠ 0 then .error .assertion
      else
        match addOverflow cfg.bits va map.size with
        | none => .ok none
        | some next =>
          if 2 ^ cfg.vaWidth ≤ next then .ok none
          else do
            let rest ← placeTeeRam next maps
            return rest.map fun (va', maps') => (va', { map with va } :: maps')
    else do
      let rest ← placeTeeRam va maps
      return rest.map fun (va', maps') => (va', map :: maps')

/-- `va` and `va_is_secure`. -/
structure Cursor where
  va : ℕ
  secure : Bool

def Cursor.changes (c : Cursor) (secure : Bool) : Bool := !cfg.lpae && c.secure != secure

/-- `va_is_secure` after an entry. -/
def Cursor.secureAfter (c : Cursor) (secure : Bool) : Bool := if cfg.lpae then c.secure else secure

/-- `va` aligned with `pa`, below an address. -/
def alignBelow (map : TeeMmapRegion) (va : ℕ) : Option ℕ :=
  if 2 * cfg.pgdirSize < map.size then
    (subOverflow va cfg.pgdirSize).map fun va => va + cfg.pgdirOffset map.pa va
  else some va

def placeBelow (c : Cursor) (map : TeeMmapRegion) (secure : Bool) : Option (ℕ × Cursor) := do
  let va := if c.changes cfg secure then c.va / cfg.pgdirSize * cfg.pgdirSize else c.va
  let va ← subOverflow va map.size
  let va ← alignBelow cfg map (va / map.regionSize * map.regionSize)
  return (va, ⟨va, c.secureAfter cfg secure⟩)

def changeAbove (c : Cursor) (secure : Bool) : Option ℕ :=
  if c.changes cfg secure then roundupOverflow cfg.bits c.va cfg.pgdirSize else some c.va

/-- `va` aligned with `pa`, above an address. -/
def alignAbove (map : TeeMmapRegion) (va : ℕ) : Option ℕ :=
  if 2 * cfg.pgdirSize < map.size then addOverflow cfg.bits va (cfg.pgdirOffset map.pa va)
  else some va

def placeAbove (c : Cursor) (map : TeeMmapRegion) (secure : Bool) : Option (ℕ × Cursor) := do
  let va ← changeAbove cfg c secure
  let va ← roundupOverflow cfg.bits va map.regionSize
  let va ← alignAbove cfg map va
  let next ← addOverflow cfg.bits va map.size
  if 2 ^ cfg.vaWidth ≤ next then none
  else return (va, ⟨next, c.secureAfter cfg secure⟩)

/-- The loop over the other entries, in either direction. -/
def placeOthers (place : Cursor → TeeMmapRegion → Bool → Option (ℕ × Cursor)) :
    Cursor → List TeeMmapRegion → Except LayoutPanic (Option (List TeeMmapRegion))
  | _, [] => .ok (some [])
  | c, map :: maps =>
    match coreMmuTypeToAttr cfg.extDtSecure map.type with
    | none => .error .invalidType
    | some attr =>
      if map.va ≠ 0 then do
        let rest ← placeOthers place c maps
        return rest.map fun maps' => map :: maps'
      else
        match place c map attr.secure with
        | none => .ok none
        | some (va, c') => do
          let rest ← placeOthers place c' maps
          return rest.map fun maps' => { map with va } :: maps'

def assignMemVaDir (teeRamVa : ℕ) (maps : List TeeMmapRegion) (teeRamAtTop : Bool) :
    Except LayoutPanic (Option (List TeeMmapRegion)) :=
  -- 0 is by design an invalid va
  if teeRamVa = 0 then .ok none
  else do
    match ← placeTeeRam cfg teeRamVa (maps.map fun map => { map with va := 0 }) with
    | none => return none
    | some (va, maps) =>
      if teeRamAtTop then placeOthers cfg (placeBelow cfg) ⟨teeRamVa, true⟩ maps
      else placeOthers cfg (placeAbove cfg) ⟨va, true⟩ maps

end Optee.MemMap
