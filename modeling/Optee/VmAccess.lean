import Optee.Vm

/-!
# What user mode may access

The functions of `core/mm/vm.c` that tell whether a buffer is private to a context, which rights the
context has to it, and where its addresses are in physical memory and back.
-/

namespace Optee.Vm

def coreIsBufferInside (cfg : Config) (b bl a al : ℕ) : Bool :=
  if cfg.lastAddr b bl < b ∨ cfg.lastAddr a al < a then false
  else if bl = 0 ∨ al = 0 then false
  else decide (a ≤ b ∧ cfg.lastAddr b bl ≤ cfg.lastAddr a al)

/-! ### Private memory -/

def bit (n : ℕ) (b : Bool) : ℕ := if b then 2 ^ n else 0

/-- `flags` of a region as a word. -/
def VmFlags.word (f : VmFlags) : ℕ :=
  bit 0 f.ephemeral ||| bit 1 f.permanent ||| bit 2 f.shareable ||| bit 3 f.ldelf
    ||| bit 4 f.readonly

/-- With `TEE_MATTR_VALID_BLOCK` first. -/
def Attr.word (a : Attr) : ℕ :=
  bit 0 true ||| bit 4 a.prot.pr ||| bit 5 a.prot.pw ||| bit 6 a.prot.px ||| bit 7 a.prot.ur |||
    bit 8 a.prot.uw ||| bit 9 a.prot.ux ||| bit 11 a.secure ||| a.memType <<< 12
    ||| bit 15 a.prot.guarded

def vmFlagsNonpriv : ℕ := bit 0 true ||| bit 1 true ||| bit 2 true

def vmBufIsInsideUmPrivate (cfg : Config) (s : VmInfo) (va size : ℕ) : Bool :=
  s.regions.any fun r => r.flags.word &&& vmFlagsNonpriv = 0
    && coreIsBufferInside cfg va size r.va r.size

def vmBufIntersectsUmPrivate (cfg : Config) (s : VmInfo) (va size : ℕ) : Bool :=
  -- the source tests `r->attr`
  s.regions.any fun r => r.attr.word &&& vmFlagsNonpriv = 0
    && coreIsBufferIntersect cfg va size r.va r.size

/-! ### Physical addresses -/

/-- From `pa` on, for `mobj_phys` and `mobj_shm`, or where the `get_pa` of a fobj says. -/
inductive Backing where
  | phys (pa : ℕ)
  | shm (pa : ℕ)
  | withFobj (getPa : ℕ → ℕ)

def Backing.physGranule : Backing → ℕ
  | .phys _ => 0
  | .shm _ => smallPageSize
  | .withFobj _ => smallPageSize

/-- The end of each `get_pa`: an address down to a granule, with a mask that is a `size_t`. -/
def toGranule (cfg : Config) (p granule : ℕ) : TeeResult ℕ :=
  if granule = 0 then .ok p
  else if granule ≠ smallPageSize ∧ granule ≠ cfg.pgdirSize then .error .generic
  else .ok (p % 2 ^ cfg.bits / granule * granule)

def mobjGetPa (cfg : Config) (mobj : Mobj) (offs granule : ℕ) : Backing → TeeResult ℕ
  | .phys pa => toGranule cfg ((pa + offs) % 2 ^ cfg.paddrBits) granule
  | .shm pa =>
    if mobj.size ≤ offs then .error .generic
    else toGranule cfg ((pa + offs) % 2 ^ cfg.paddrBits) granule
  | .withFobj getPa =>
    toGranule cfg ((getPa (offs / smallPageSize) + offs % smallPageSize) % 2 ^ cfg.paddrBits)
      granule

/-- Where the loop of `tee_mmu_user_va2pa_attr` stops. -/
def userRegion (cfg : Config) (s : VmInfo) (ua : ℕ) : Option VmRegion :=
  s.regions.find? fun r => coreIsBufferInside cfg ua 1 r.va r.size

/-- `tee_mmu_user_va2pa_attr` of no address. -/
def userVaAttr (cfg : Config) (s : VmInfo) (ua : ℕ) : TeeResult Attr :=
  match userRegion cfg s ua with
  | none => .error .accessDenied
  | some r => .ok r.attr

def vmVa2pa (cfg : Config) (back : Mobj → Backing) (s : VmInfo) (ua : ℕ) : TeeResult ℕ :=
  match userRegion cfg s ua with
  | none => .error .accessDenied
  | some r => do
    let granule := max (back r.mobj).physGranule smallPageSize
    let offset := (r.offset + (ua - r.va) / granule * granule) % 2 ^ cfg.bits
    let p ← mobjGetPa cfg r.mobj offset granule (back r.mobj)
    return p ||| ua % granule

/-- The loop of `vm_pa2va` over a region. -/
def scanRegion (cfg : Config) (b : Backing) (r : VmRegion) (pa paSize : ℕ) : ℕ → ℕ → Option ℕ
  | 0, _ => none
  | fuel + 1, ofs =>
    if ofs < r.size then
      let granule := b.physGranule
      let size := if granule = 0 then r.size else min (granule - ofs % granule) (r.size - ofs)
      match mobjGetPa cfg r.mobj ofs granule b with
      | .error _ => scanRegion cfg b r pa paSize fuel (ofs + size)
      | .ok p =>
        if coreIsBufferInside cfg pa paSize p size then some (r.va + (ofs - r.offset) + (pa - p))
        else scanRegion cfg b r pa paSize fuel (ofs + size)
    else none

/-- `vm_pa2va`. No granule is empty, so the loop makes at most `size` steps. -/
def vmPa2va (cfg : Config) (back : Mobj → Backing) (s : VmInfo) (pa paSize : ℕ) : Option ℕ :=
  s.regions.findSome? fun r => scanRegion cfg (back r.mobj) r pa paSize (r.size + 1) r.offset

/-! ### Access rights -/

/-- The bits `TEE_MEMORY_ACCESS_*`. -/
structure AccessFlags where
  read : Bool
  write : Bool
  anyOwner : Bool
  nonsecure : Bool
  secure : Bool

/-- What `vm_check_access_rights` asks of a page. -/
def AccessFlags.grants (f : AccessFlags) (attr : Attr) : Bool :=
  !(f.nonsecure && attr.secure) && !(f.secure && !attr.secure) && !(f.write && !attr.prot.uw) &&
    !(f.read && !attr.prot.ur)

/-- The loop of `vm_check_access_rights`, `none` where it goes on. -/
def checkPages (cfg : Config) (s : VmInfo) (flags : AccessFlags)
    (endAddr : ℕ) : ℕ → ℕ → Option (TeeResult Unit)
  | 0, _ => none
  | fuel + 1, a =>
    if a < endAddr then
      match userVaAttr cfg s a with
      | .error e => some (.error e)
      | .ok attr =>
        if flags.grants attr then checkPages cfg s flags endAddr fuel
          ((a + smallPageSize) % 2 ^ cfg.bits)
        else some (.error .accessDenied)
    else some (.ok ())

def vmCheckAccessRights (cfg : Config) (s : VmInfo) (flags : AccessFlags) (uaddr len : ℕ) :
    Option (TeeResult Unit) :=
  match addOverflow cfg.bits uaddr len with
  | none => some (.error .accessDenied)
  | some endAddr =>
    if flags.nonsecure && flags.secure then some (.error .accessDenied)
    else if !flags.anyOwner && !vmBufIsInsideUmPrivate cfg s uaddr len then
      some (.error .accessDenied)
    else checkPages cfg s flags endAddr (2 ^ cfg.bits) (uaddr / smallPageSize * smallPageSize)

end Optee.Vm
