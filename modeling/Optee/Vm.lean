import Mathlib.Data.Bool.Basic
import Mathlib.Data.List.Sort
import Mathlib.Data.Prod.Lex
import Optee.Result
import Optee.Util

/-!
# Address spaces of user mode contexts

`core/mm/vm.c`, at the level of the region list of a context. The page tables and the pager are
modelled by whether they can do what they are asked to. Addresses and sizes are below `2 ^ bits`.

The list is a `TAILQ`, whose head also holds a pointer to the link of its last element. Removing an
element by the head of another list may take that pointer out of the list.
-/

namespace Optee.Vm

/-- The width of `vaddr_t` and `size_t` and that of `paddr_t`, `CFG_WITH_LPAE`,
`CORE_MMU_PGDIR_SIZE`, and `core_mmu_get_user_va_range`. -/
structure Config where
  bits : ℕ
  paddrBits : ℕ
  lpae : Bool
  pgdirSize : ℕ
  base : ℕ
  size : ℕ
  page_dvd_pgdirSize : smallPageSize ∣ pgdirSize
  pgdirSize_pos : 0 < pgdirSize
  page_dvd_base : smallPageSize ∣ base
  range_lt : base + size < 2 ^ bits
  page_lt : 12 < bits
  bits_le : bits ≤ paddrBits

/-- The bits of `TEE_MATTR_PROT_MASK`. -/
structure Prot where
  pr : Bool
  pw : Bool
  px : Bool
  ur : Bool
  uw : Bool
  ux : Bool
  guarded : Bool
  deriving DecidableEq

def Prot.none : Prot := ⟨false, false, false, false, false, false, false⟩

/-- `TEE_MATTR_PRW`. -/
def Prot.prw : Prot := { Prot.none with pr := true, pw := true }

/-- `TEE_MATTR_PRW | TEE_MATTR_URW`. -/
def Prot.prwUrw : Prot := { Prot.prw with ur := true, uw := true }

structure Attr where
  memType : ℕ
  secure : Bool
  prot : Prot
  deriving DecidableEq

/-- The bits `VM_FLAG_*`. -/
structure VmFlags where
  ephemeral : Bool
  permanent : Bool
  shareable : Bool
  ldelf : Bool
  readonly : Bool
  deriving DecidableEq

def VmFlags.none : VmFlags := ⟨false, false, false, false, false⟩

/-- The flags that keep regions apart. -/
def VmFlags.kept (f : VmFlags) : Bool × Bool × Bool := (f.ephemeral, f.permanent, f.shareable)

/-- A memory object, known by its address `id`. -/
structure Mobj where
  id : ℕ
  size : ℕ
  paged : Bool
  secure : Bool
  /-- What `mobj_get_mem_type` gives. -/
  memType : Option ℕ
  /-- `mobj_get_phys_offs`. -/
  physOffs : ℕ
  deriving DecidableEq

structure VmRegion where
  mobj : Mobj
  offset : ℕ
  va : ℕ
  size : ℕ
  attr : Attr
  flags : VmFlags
  deriving DecidableEq

def VmRegion.endVa (r : VmRegion) : ℕ := r.va + r.size

/-- `struct vm_info`: the regions, and whether the tail pointer is the link of the last. -/
structure VmInfo where
  regions : List VmRegion
  tail : Bool
  deriving DecidableEq

/-- After `TAILQ_INIT`. -/
def VmInfo.empty : VmInfo := ⟨[], true⟩

/-- How a call may fail to return. -/
inductive Fault where
  /-- A call to `panic()`. -/
  | panic
  /-- A failed `assert()`. -/
  | assert
  /-- Use of a tail pointer that is not in the list. -/
  | badTail
  deriving DecidableEq

abbrev Reply (α : Type) := VmInfo × TeeResult α

/-- Whether `calloc` of a region, `tee_pager_split_um_region`, `alloc_pgt`,
`tee_pager_add_um_region` and `tee_pager_set_um_region_attr` succeed, the `n`th time within a call.
While `vm_remap` restores, it is counted anew. -/
structure Env where
  mem : ℕ → Bool
  split : ℕ → Option TeeError
  pgt : ℕ → Bool
  pager : ℕ → Option TeeError
  pgtBack : ℕ → Bool
  pagerBack : ℕ → Bool
  setAttr : Bool

def Env.good : Env where
  mem _ := true
  split _ := none
  pgt _ := true
  pager _ := none
  pgtBack _ := true
  pagerBack _ := true
  setAttr := true

/-- `(x & (size - 1)) == 0` of a page. -/
def PageAligned (x : ℕ) : Prop := x % smallPageSize = 0

instance (x : ℕ) : Decidable (PageAligned x) := inferInstanceAs (Decidable (_ = _))

namespace Config

variable (cfg : Config)

def noMobj : Mobj := ⟨0, 0, false, false, none, 0⟩

/-- A dummy of `umap_add_region`. -/
def dummy (va : ℕ) : VmRegion := ⟨noMobj, 0, va, 0, ⟨0, false, Prot.none⟩, VmFlags.none⟩

def dummyFirst : VmRegion := dummy cfg.base

def dummyLast : VmRegion := dummy (cfg.base + cfg.size)

def granule (r reg : VmRegion) (granul : ℕ) : ℕ :=
  if !cfg.lpae && r.attr.secure != reg.attr.secure then cfg.pgdirSize else granul

end Config

def pad (r reg : VmRegion) : ℕ :=
  if r.flags ≠ VmFlags.none ∧ r.flags.kept ≠ reg.flags.kept then smallPageSize else 0

def selectVaInRange (cfg : Config) (prev next reg : VmRegion) (padBegin padEnd granul : ℕ) : ℕ :=
  let granul := cfg.granule prev reg granul
  match (do
    let va ← addOverflow cfg.bits prev.va prev.size
    let va ← addOverflow cfg.bits va padBegin
    let va ← addOverflow cfg.bits va (pad prev reg)
    roundupOverflow cfg.bits va granul) with
  | none => 0
  | some lowVa =>
    if reg.va ≠ 0 ∧ reg.va < lowVa then 0
    else
      let beginVa := if reg.va ≠ 0 then reg.va else lowVa
      let granul := cfg.granule next reg granul
      match (do
        let va ← addOverflow cfg.bits beginVa reg.size
        let va ← addOverflow cfg.bits va padEnd
        let va ← addOverflow cfg.bits va (pad next reg)
        roundupOverflow cfg.bits va granul) with
      | none => 0
      | some endVa => if endVa ≤ next.va then beginVa else 0

abbrev Placement := List VmRegion × VmRegion × List VmRegion

def Placement.list : Placement → List VmRegion
  | (before, r, after) => before ++ r :: after

/-- The loop of `umap_add_region`. -/
def insertRegion (cfg : Config) (tail : Bool) (reg : VmRegion) (padBegin padEnd granul : ℕ) :
    VmRegion → List VmRegion → Except Fault (Option Placement)
  | prev, [] =>
    if tail then
      match selectVaInRange cfg prev cfg.dummyLast reg padBegin padEnd granul with
      | 0 => .ok none
      | va => .ok (some ([], { reg with va }, []))
    else .error .badTail
  | prev, r :: rs =>
    match selectVaInRange cfg prev r reg padBegin padEnd granul with
    | 0 => do
      let found ← insertRegion cfg tail reg padBegin padEnd granul r rs
      return found.map fun (before, q, after) => (r :: before, q, after)
    | va => .ok (some ([], { reg with va }, r :: rs))

def umapAddRegion (cfg : Config) (s : VmInfo) (reg : VmRegion) (padBegin padEnd align : ℕ) :
    Except Fault (TeeResult Placement) :=
  if ¬ (PageAligned reg.va ∧ PageAligned reg.size ∧ PageAligned padBegin ∧ PageAligned padEnd) then
    .ok (.error .accessConflict)
  else
    match addOverflow cfg.bits reg.offset reg.size with
    | none => .ok (.error .badParameters)
    | some offsPlusSize =>
      if wrapRoundup cfg.bits smallPageSize reg.mobj.size < offsPlusSize then
        .ok (.error .badParameters)
      else if !isPowerOfTwo (max align smallPageSize) then .ok (.error .badParameters)
      else do
        match ← insertRegion cfg s.tail reg padBegin padEnd (max align smallPageSize) cfg.dummyFirst
            s.regions with
        | none => return .error .accessConflict
        | some place => return .ok place

/-- `vm_map_pad`, with no `prot` where other bits are set. -/
def vmMapPad (cfg : Config) (env : Env) (s : VmInfo) (va len : ℕ) (prot : Option Prot)
    (flags : VmFlags) (mobj : Mobj) (offs padBegin padEnd align : ℕ) : Except Fault (Reply ℕ) :=
  match prot with
  | none => .ok (s, .error .badParameters)
  | some prot =>
    if !env.mem 0 then .ok (s, .error .outOfMemory)
    else
      match (if mobj.paged then some 0 else mobj.memType) with
      | none => .ok (s, .error .generic)
      | some memType => do
        let reg : VmRegion :=
          { mobj, offset := offs, va, size := wrapRoundup cfg.bits smallPageSize len,
            attr := ⟨memType, mobj.secure, prot⟩, flags }
        match ← umapAddRegion cfg s reg padBegin padEnd align with
        | .error e => return (s, .error e)
        | .ok place =>
          if !env.pgt 0 then return (s, .error .outOfMemory)
          else
            match if mobj.paged then env.pager 0 else none with
            | some e => return (s, .error e)
            | none => return (⟨place.list, s.tail⟩, .ok place.2.1.va)

def vmMap (cfg : Config) (env : Env) (s : VmInfo) (va len : ℕ) (prot : Option Prot)
    (flags : VmFlags) (mobj : Mobj) (offs : ℕ) : Except Fault (Reply ℕ) :=
  vmMapPad cfg env s va len prot flags mobj offs 0 0 0

def findVmRegion : List VmRegion → ℕ → Option Placement
  | [], _ => none
  | r :: rs, va =>
    if r.va ≤ va ∧ va < r.endVa then some ([], r, rs)
    else (findVmRegion rs va).map fun (before, q, after) => (r :: before, q, after)

/-- `vm_get_mobj`: the mobj, how much of the length it has, its protection, and the offset in it. -/
def vmGetMobj (s : VmInfo) (va len : ℕ) : Option (Mobj × ℕ × Prot × ℕ) :=
  if ¬ (PageAligned len ∧ PageAligned va) then none
  else
    match findVmRegion s.regions va with
    | none => none
    | some (_, r, _) =>
      some (r.mobj, min (r.size - (va - r.va)) len, r.attr.prot, r.offset + (va - r.va))

/-- The first region, a region and the one after it. -/
abbrev CmpRegs := VmRegion → VmRegion → VmRegion → Bool

/-- The loop of `va_range_is_contiguous`. -/
def contiguousLoop (cmpRegs : CmpRegs) (r0 : VmRegion) (endVa : ℕ) :
    VmRegion → List VmRegion → Bool
  | r, [] => endVa ≤ r.endVa
  | r, rn :: rs =>
    if endVa ≤ r.endVa then true
    else if r.endVa ≠ rn.va then false
    else if !cmpRegs r0 r rn then false
    else contiguousLoop cmpRegs r0 endVa rn rs

def vaRangeIsContiguous (cfg : Config) (cmpRegs : CmpRegs) (r0 : VmRegion) (after : List VmRegion)
    (va len : ℕ) : Bool :=
  match addOverflow cfg.bits va len with
  | none => false
  | some endVa => contiguousLoop cmpRegs r0 endVa r0 after

def splitVmRegion (env : Env) (n : ℕ) (s : VmInfo) (before : List VmRegion) (r : VmRegion)
    (after : List VmRegion) (va : ℕ) : TeeResult VmInfo :=
  let diff := va - r.va
  if !env.mem n then .error .outOfMemory
  else
    match if r.mobj.paged then env.split n else none with
    | some e => .error e
    | none =>
      .ok ⟨before ++ { r with size := diff } ::
          { r with offset := r.offset + diff, va, size := r.size - diff } :: after,
        s.tail || after.isEmpty⟩

/-- `split_vm_range`, with the position of the first region in the range. -/
def splitVmRange (cfg : Config) (env : Env) (s : VmInfo) (va len : ℕ) (cmpRegs : CmpRegs) :
    VmInfo × TeeResult ℕ :=
  if ¬ (PageAligned va ∧ PageAligned len) then (s, .error .badParameters)
  else
    match addOverflow cfg.bits va len with
    | none => (s, .error .badParameters)
    | some endVa =>
      match findVmRegion s.regions va with
      | none => (s, .error .badParameters)
      | some (before, r, after) =>
        if !vaRangeIsContiguous cfg cmpRegs r after va len then (s, .error .badParameters)
        else
          match (if va ≠ r.va then
              (splitVmRegion env 0 s before r after va).map fun s => (s, before.length + 1)
            else .ok (s, before.length)) with
          | .error e => (s, .error e)
          | .ok (s, pos) =>
            match findVmRegion s.regions (va + len - 1) with
            | none => (s, .error .badParameters)
            | some (before, r, after) =>
              if endVa ≠ r.endVa then
                match splitVmRegion env 1 s before r after endVa with
                | .error e => (s, .error e)
                | .ok s => (s, .ok pos)
              else (s, .ok pos)

/-- Whether `merge_vm_range` makes one region of two. -/
def Mergeable (r rn : VmRegion) : Prop :=
  r.endVa = rn.va ∧ r.mobj = rn.mobj ∧ r.flags = rn.flags ∧ r.attr = rn.attr ∧
    r.offset + r.size = rn.offset

instance (r rn : VmRegion) : Decidable (Mergeable r rn) :=
  inferInstanceAs (Decidable (_ ∧ _))

/-- The loop of `merge_vm_range`. The removal of the last region finds the tail. -/
def mergeLoop (va endVa : ℕ) : Bool → VmRegion → List VmRegion → List VmRegion × Bool
  | tail, r, [] => ([r], tail)
  | tail, r, rn :: rs =>
    if r.endVa < va then
      let (l, tail) := mergeLoop va endVa tail rn rs
      (r :: l, tail)
    else if endVa < r.va then (r :: rn :: rs, tail)
    else if Mergeable r rn then
      mergeLoop va endVa (tail || rs.isEmpty) { r with size := r.size + rn.size } rs
    else
      let (l, tail) := mergeLoop va endVa tail rn rs
      (r :: l, tail)

def mergeVmRange (cfg : Config) (s : VmInfo) (va len : ℕ) : VmInfo :=
  match addOverflow cfg.bits va len, s.regions with
  | some endVa, r :: rs =>
    let (regions, tail) := mergeLoop va endVa s.tail r rs
    ⟨regions, tail⟩
  | _, _ => s

def cmpRegionForRemap : CmpRegs := fun r0 r rn =>
  r0.flags = r.flags ∧ r0.attr = r.attr ∧ r0.mobj = r.mobj ∧ rn.offset = r.offset + r.size

/-- A `cmp_regs` of NULL. -/
def cmpNull : CmpRegs := fun _ _ _ => true

def VmRegion.endsBy (endVa : ℕ) (r : VmRegion) : Bool := r.endVa ≤ endVa

/-- What `vm_remap` asks of the page tables or the pager; `paged` is whether the first region has a
`fobj`. -/
def mapRemapped (paged : Bool) (pgt : Bool) (pager : Option TeeError) (r : VmRegion) :
    Except Fault (TeeResult Unit) :=
  if !pgt then .ok (.error .outOfMemory)
  else if paged then
    match pager with
    | some e => .ok (.error e)
    | none => .ok (.ok ())
  -- the `assert` of `set_um_region`
  else if r.mobj.paged then .error .assert
  else .ok (.ok ())

/-- `vm_remap` after a failure: the regions from `r_first` to `r_last` are moved back to `regs`. -/
def takeBack (s : VmInfo) (first last : ℕ) (regs : List VmRegion) : VmInfo × List VmRegion :=
  (⟨s.regions.take first ++ s.regions.drop (last + 1),
      s.tail || (s.regions.drop (last + 1)).isEmpty⟩,
    (s.regions.take (last + 1)).drop first ++ regs)

/-- The loop of `vm_remap` ends well, or with an error and the list and `regs` to restore. -/
abbrev Remapped := VmInfo ⊕ (VmInfo × List VmRegion × TeeError)

/-- The loop of `vm_remap` after its first round, with the end of `r_last`. No region is placed
below `r_first`. -/
def remapLoop (cfg : Config) (env : Env) (paged : Bool) (first : ℕ) :
    VmInfo → ℕ → ℕ → ℕ → List VmRegion → Except Fault Remapped
  | s, _, _, _, [] => .ok (.inl s)
  | s, n, last, va, r :: rs => do
    match ← umapAddRegion cfg s { r with va } 0 0 0 with
    | .error e =>
      let (s, regs) := takeBack s first last (r :: rs)
      return .inr (s, regs, e)
    | .ok (before, r, after) =>
      let s : VmInfo := ⟨before ++ r :: after, s.tail⟩
      match ← mapRemapped paged (env.pgt n) (env.pager n) r with
      | .error e =>
        let (s, regs) := takeBack s first before.length rs
        return .inr (s, regs, e)
      | .ok () => remapLoop cfg env paged first s (n + 1) before.length r.endVa rs

/-- The loop of `vm_remap` that puts the regions back. -/
def restoreLoop (cfg : Config) (env : Env) (paged : Bool) :
    VmInfo → ℕ → ℕ → List VmRegion → Except Fault VmInfo
  | s, _, _, [] => .ok s
  | s, n, va, r :: rs => do
    match ← umapAddRegion cfg s { r with va } 0 0 0 with
    | .error _ => .error .panic
    | .ok (before, r, after) =>
      match ← mapRemapped paged (env.pgtBack n)
          (if env.pagerBack n then none else some .generic) r with
      | .error _ => .error .panic
      | .ok () => restoreLoop cfg env paged ⟨before ++ r :: after, s.tail⟩ (n + 1) (va + r.size) rs

/-- `pad_end + len - r->size`. -/
def Config.padRest (cfg : Config) (padEnd len size : ℕ) : ℕ :=
  (padEnd + len + (2 ^ cfg.bits - size)) % 2 ^ cfg.bits

/-- The loop of `vm_remap`. When there is no place for the first region, all of them are removed
from `regs` by the head of the context's list, which leaves its tail pointer in `regs`. -/
def placeRegions (cfg : Config) (env : Env) (paged : Bool) (s : VmInfo)
    (newVa len padBegin padEnd : ℕ) (r : VmRegion) (rs : List VmRegion) :
    Except Fault (ℕ × Remapped) := do
  match ← umapAddRegion cfg s { r with va := newVa } padBegin (cfg.padRest padEnd len r.size) 0 with
  | .error e => return (0, .inr ({ s with tail := false }, r :: rs, e))
  | .ok (before, r, after) =>
    let s : VmInfo := ⟨before ++ r :: after, s.tail⟩
    match ← mapRemapped paged (env.pgt 0) (env.pager 0) r with
    | .error e =>
      let (s, regs) := takeBack s before.length before.length rs
      return (0, .inr (s, regs, e))
    | .ok () =>
      return (r.va, ← remapLoop cfg env paged before.length s 1 before.length r.endVa rs)

def vmRemap (cfg : Config) (env : Env) (s : VmInfo) (newVa oldVa len padBegin padEnd : ℕ) :
    Except Fault (Reply ℕ) :=
  if len = 0 ∨ ¬ (PageAligned len ∧ PageAligned oldVa) then .ok (s, .error .badParameters)
  else
    match splitVmRange cfg env s oldVa len cmpRegionForRemap with
    | (s, .error e) => .ok (s, .error e)
    | (s, .ok pos) =>
      let after := (s.regions.drop pos).dropWhile (VmRegion.endsBy (oldVa + len))
      match (s.regions.drop pos).takeWhile (VmRegion.endsBy (oldVa + len)) with
      -- the first region of the range ends in it
      | [] => .error .panic
      | r :: rs => do
        let paged := r.mobj.paged
        let s : VmInfo := ⟨s.regions.take pos ++ after, s.tail || after.isEmpty⟩
        match ← placeRegions cfg env paged s newVa len padBegin padEnd r rs with
        | (va, .inl s) => return (s, .ok va)
        | (_, .inr (s, regs, e)) =>
          return (← restoreLoop cfg env paged s 0 oldVa regs, .error e)

def VmRegion.withProt (prot : Prot) (r : VmRegion) : VmRegion :=
  { r with attr := { r.attr with prot } }

def vmSetProt (cfg : Config) (env : Env) (s : VmInfo) (va len : ℕ) (prot : Option Prot) :
    Except Fault (Reply Unit) :=
  match prot with
  | none => .ok (s, .error .badParameters)
  | some prot =>
    if len = 0 then .ok (s, .error .badParameters)
    else
      match splitVmRange cfg env s va len cmpNull with
      | (s, .error e) => .ok (s, .error e)
      | (s, .ok pos) =>
        let regs := (s.regions.drop pos).takeWhile (VmRegion.endsBy (va + len))
        let after := (s.regions.drop pos).dropWhile (VmRegion.endsBy (va + len))
        if !env.setAttr && regs.any fun r => r.mobj.paged then .error .panic
        else
          .ok (mergeVmRange cfg
            ⟨s.regions.take pos ++ regs.map (VmRegion.withProt prot) ++ after, s.tail⟩ va len,
            .ok ())

/-- The loop of `vm_unmap`. -/
def unmapLoop (endVa : ℕ) : List VmRegion → List VmRegion
  | [] => []
  | r :: rs => if r.endVa = endVa then rs else unmapLoop endVa rs

def vmUnmap (cfg : Config) (env : Env) (s : VmInfo) (va len : ℕ) : Except Fault (Reply Unit) :=
  match roundupOverflow cfg.bits len smallPageSize with
  | none => .ok (s, .error .badParameters)
  | some l =>
    if l = 0 ∨ ¬ PageAligned va then .ok (s, .error .badParameters)
    else
      match addOverflow cfg.bits va l with
      | none => .ok (s, .error .badParameters)
      | some endVa =>
        match splitVmRange cfg env s va l cmpNull with
        | (s, .error e) => .ok (s, .error e)
        | (s, .ok pos) =>
          let after := unmapLoop endVa (s.regions.drop pos)
          .ok (⟨s.regions.take pos ++ after, s.tail || after.isEmpty⟩, .ok ())

def vmCleanParam (s : VmInfo) : VmInfo :=
  ⟨s.regions.filter fun r => !r.flags.ephemeral,
    s.tail || s.regions.getLast?.any fun r => r.flags.ephemeral⟩

/-- `struct param_mem`, of a mobj that is not NULL. -/
structure ParamMem where
  mobj : Mobj
  offs : ℕ
  size : ℕ
  deriving DecidableEq

/-- The last address of a buffer, as `paddr_t`. -/
def Config.lastAddr (cfg : Config) (b bl : ℕ) : ℕ :=
  (b + bl + (2 ^ cfg.paddrBits - 1)) % 2 ^ cfg.paddrBits

def coreIsBufferIntersect (cfg : Config) (b bl a al : ℕ) : Bool :=
  if cfg.lastAddr b bl < b ∨ cfg.lastAddr a al < a then false
  else if bl = 0 ∨ al = 0 then false
  else if cfg.lastAddr b bl < a ∨ cfg.lastAddr a al < b then false
  else true

/-- What `vm_map_param` maps: whole pages. -/
def ParamMem.pages (cfg : Config) (m : ParamMem) : ParamMem :=
  let start := (m.mobj.physOffs + m.offs) % 2 ^ cfg.bits
  let offs := start / smallPageSize * smallPageSize
  let size := wrapRoundup cfg.bits smallPageSize ((start - offs + m.size) % 2 ^ cfg.bits)
  { m with offs, size := if size = 0 then smallPageSize else size }

/-- The order of `cmp_param_mem`. -/
def ParamMem.key (m : ParamMem) : Bool ×ₗ ℕ ×ₗ ℕ ×ₗ ℕ :=
  toLex (m.mobj.secure, toLex (m.mobj.id, toLex (m.offs, m.size)))

/-- Whether `vm_map_param` makes one entry of two. -/
def ParamMem.Joins (cfg : Config) (m n : ParamMem) : Prop :=
  n.mobj = m.mobj ∧
    (n.offs = (m.offs + m.size) % 2 ^ cfg.bits ∨
      coreIsBufferIntersect cfg m.offs m.size n.offs n.size = true)

instance (cfg : Config) (m n : ParamMem) : Decidable (ParamMem.Joins cfg m n) :=
  inferInstanceAs (Decidable (_ ∧ _))

/-- The loop of `vm_map_param` that merges entries. -/
def mergeMem (cfg : Config) : ParamMem → List ParamMem → List ParamMem
  | m, [] => [m]
  | m, n :: ns =>
    if m.Joins cfg n then
      mergeMem cfg { m with size := (n.offs + n.size + (2 ^ cfg.bits - m.offs)) % 2 ^ cfg.bits } ns
    else m :: mergeMem cfg n ns

structure Params where
  mem : List ParamMem
  /-- A mobj is known by its address. -/
  mobj_eq : ∀ m ∈ mem, ∀ n ∈ mem, m.mobj.id = n.mobj.id → m.mobj = n.mobj

/-- The entries that `vm_map_param` maps. -/
def paramEntries (cfg : Config) (mem : List ParamMem) : List ParamMem :=
  match (mem.map (ParamMem.pages cfg)).insertionSort fun m n => m.key ≤ n.key with
  | [] => []
  | m :: ns => mergeMem cfg m ns

/-- `VM_FLAG_EPHEMERAL | VM_FLAG_SHAREABLE`. -/
def VmFlags.param : VmFlags := { VmFlags.none with ephemeral := true, shareable := true }

/-- The loop of `vm_map_param` that maps the entries. -/
def mapEntries (cfg : Config) (env : ℕ → Env) :
    VmInfo → ℕ → List ParamMem → Except Fault (Reply Unit)
  | s, _, [] => .ok (s, .ok ())
  | s, n, m :: ms => do
    match ← vmMap cfg (env n) s 0 m.size (some .prwUrw) .param m.mobj m.offs with
    | (s, .error e) => return (s, .error e)
    | (s, .ok _) => mapEntries cfg env s (n + 1) ms

def paramMemToUserVa (cfg : Config) (s : VmInfo) (m : ParamMem) : TeeResult ℕ :=
  let physOffs := (m.mobj.physOffs + m.offs) % 2 ^ cfg.bits
  match s.regions.find? fun r => r.flags.ephemeral && m.mobj = r.mobj && r.offset ≤ physOffs &&
      physOffs < r.offset + r.size with
  | none => .error .generic
  | some r => .ok (r.va + physOffs - r.offset)

def vmMapParam (cfg : Config) (env : ℕ → Env) (s : VmInfo) (param : Params) :
    Except Fault (Reply (List ℕ)) :=
  -- `check_param_map_empty`
  if s.regions.any fun r => r.flags.ephemeral then .error .assert
  else do
    match ← mapEntries cfg env s 0 (paramEntries cfg param.mem) with
    | (s, .error e) => return (vmCleanParam s, .error e)
    | (s, .ok ()) =>
      match param.mem.mapM (paramMemToUserVa cfg s) with
      | .error e => return (vmCleanParam s, .error e)
      | .ok vas =>
        if !(env (paramEntries cfg param.mem).length).pgt 0 then
          return (vmCleanParam s, .error .outOfMemory)
        else return (s, .ok vas)

/-- A call that changes the address space of a context. -/
inductive Call where
  | mapPad (env : Env) (va len : ℕ) (prot : Option Prot) (flags : VmFlags) (mobj : Mobj)
    (offs padBegin padEnd align : ℕ)
  | remap (env : Env) (newVa oldVa len padBegin padEnd : ℕ)
  | setProt (env : Env) (va len : ℕ) (prot : Option Prot)
  | unmap (env : Env) (va len : ℕ)
  | mapParam (env : ℕ → Env) (param : Params)
  | cleanParam

/-- The address space after a call, successful or not. -/
def step (cfg : Config) (s : VmInfo) : Call → Except Fault VmInfo
  | .mapPad env va len prot flags mobj offs padBegin padEnd align =>
    (vmMapPad cfg env s va len prot flags mobj offs padBegin padEnd align).map Prod.fst
  | .remap env newVa oldVa len padBegin padEnd =>
    (vmRemap cfg env s newVa oldVa len padBegin padEnd).map Prod.fst
  | .setProt env va len prot => (vmSetProt cfg env s va len prot).map Prod.fst
  | .unmap env va len => (vmUnmap cfg env s va len).map Prod.fst
  | .mapParam env param => (vmMapParam cfg env s param).map Prod.fst
  | .cleanParam => .ok (vmCleanParam s)

end Optee.Vm
