import Optee.Lib.Memory
import Optee.Util

/-!
# The property segment of a TA

`parse_property_segment` and `check_phdr_in_range` of `ldelf/ta_elf.c`, with `CFG_TA_BTI`, which
needs a core of 64 bits. The places that are read are recorded, as offsets from the start of the
segment and sizes.
-/

namespace Optee.TaElf

/-- `struct ta_elf`, and the memory from the start of the segment on. The addresses of a TA are in
the lower half. -/
structure Elf where
  loadAddr : ℕ
  maxAddr : ℕ
  propStart : ℕ
  propMemsz : ℕ
  propAlign : ℕ
  mem : ByteMem
  load_le : loadAddr ≤ maxAddr
  max_lt : maxAddr < 2 ^ 63

def checkPhdrInRange (elf : Elf) : Bool :=
  elf.propStart + elf.propMemsz < 2 ^ 64
    && elf.propStart + elf.propMemsz ≤ elf.maxAddr - elf.loadAddr

def NT_GNU_PROPERTY_TYPE_0 : ℕ := 5

def GNU_PROPERTY_AARCH64_FEATURE_1_AND : ℕ := 0xc0000000

/-- `ELF_NOTE_GNU` with its terminating zero. -/
def ELF_NOTE_GNU : List UInt8 := [71, 78, 85, 0]

def confineArrayIndex (index size : ℕ) : ℕ := if index < size then index else 0

structure Parsed where
  btiEnabled : Bool
  reads : List (ℕ × ℕ)

variable (elf : Elf)

def prType (desc offset : ℕ) : ℕ := elf.mem.u32 (desc + offset)

def prDatasz (desc offset : ℕ) : ℕ := elf.mem.u32 (desc + offset + 4)

/-- The loop of `parse_property_segment`. -/
def parseRecords (desc descsz : ℕ) : ℕ → ℕ → Parsed → Option Parsed
  | 0, _, _ => none
  | rounds + 1, propOffset, p =>
    if descsz < propOffset + 8 then some p
    else
      let dataOffset := confineArrayIndex (propOffset + 8) descsz
      let p := { p with reads := (desc + propOffset, 8) :: p.reads }
      let feature := prType elf desc propOffset = GNU_PROPERTY_AARCH64_FEATURE_1_AND
      if feature ∧ descsz < dataOffset + 4 ∧ prDatasz elf desc propOffset ≠ 4 then some p
      else
        let p := if feature then
            ⟨p.btiEnabled || elf.mem.u32 (desc + dataOffset) % 2 = 1,
              (desc + dataOffset, 4) :: p.reads⟩
          else p
        let propOffset :=
          (propOffset + wrapRoundup 64 elf.propAlign (8 + prDatasz elf desc propOffset)) % 2 ^ 64
        if propOffset < descsz then parseRecords desc descsz rounds propOffset p else some p

/-- `parse_property_segment`. The header and the name of the note have 16 bytes, a record 8 at
least. -/
def parsePropertySegment : Option Parsed :=
  if elf.propStart = 0 ∨ elf.propMemsz < 16 then some ⟨false, []⟩
  else
    let descsz := elf.mem.u32 4
    if elf.mem.u32 8 ≠ NT_GNU_PROPERTY_TYPE_0 ∨ elf.mem.u32 0 ≠ 4 ∨ elf.mem.read 12 4 ≠ ELF_NOTE_GNU
        ∨ isPowerOfTwo elf.propAlign = false then some ⟨false, [(0, 16)]⟩
    else
      let descOffset := wrapRoundup 64 elf.propAlign 16
      if elf.propMemsz < descOffset
        ∨ elf.propMemsz < wrapRoundup 64 elf.propAlign (descOffset + descsz) then
        some ⟨false, [(0, 16)]⟩
      else parseRecords elf descOffset descsz (descsz + 1) 0 ⟨false, [(0, 16)]⟩

end Optee.TaElf
