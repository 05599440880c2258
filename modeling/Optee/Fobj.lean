import Mathlib.Algebra.Group.Nat.Defs
import Mathlib.Data.Nat.Basic
import Mathlib.Logic.Function.Basic
import Optee.Util

/-!
# Read-only pages with relocations

The read-only paged objects of `core/mm/fobj.c` that have relocations: `get_num_rels`, `init_rels`,
`fobj_ro_reloc_paged_alloc` and `rrp_load_page`. What loading a page does is the list of the offsets
in the page at which `map_offset` is added. Allocations succeed.
-/

namespace Optee.Fobj

def UINT16_MAX : ℕ := 65535

/-- A failed `assert()`, or a write past `relocs`. -/
inductive Fault where
  | assertion
  | outOfBounds

/-- `page_reloc_idx`, and `relocs` as far as it is filled in. -/
structure Rels where
  pageRelocIdx : ℕ → ℕ
  relocs : List ℕ

structure FobjRoRelocPaged extends Rels where
  numRelocs : ℕ
  numPages : ℕ

def getNumRels (wordSize numPages relocOffs : ℕ) : ℕ → List ℕ → Except Fault ℕ
  | _, [] => .ok 0
  | offs, r :: reloc =>
    if r % wordSize = 0 ∧ offs < r then do
      let nrels ← getNumRels wordSize numPages relocOffs r reloc
      return if relocOffs ≤ r ∧ r ≤ (relocOffs + numPages * smallPageSize) % 2 ^ 32 then nrels + 1
        else nrels
    else .error .assertion

/-- A relocation at an offset. The index is a `uint16_t`. -/
def Rels.add (rels : Rels) (r : ℕ) : Rels where
  pageRelocIdx := Function.update rels.pageRelocIdx (r / smallPageSize)
    (if rels.pageRelocIdx (r / smallPageSize) = UINT16_MAX then rels.relocs.length % 2 ^ 16
    else rels.pageRelocIdx (r / smallPageSize))
  relocs := rels.relocs ++ [r % smallPageSize]

def Rels.none : Rels := ⟨fun _ => UINT16_MAX, []⟩

/-- The end of `init_rels`. -/
def checkRels (numRelocs : ℕ) (rels : Rels) : Except Fault Rels :=
  if rels.relocs.length = numRelocs then .ok rels else .error .assertion

def initRels (npg relocOffs numRelocs : ℕ) (rels : Rels) : List ℕ → Except Fault Rels
  | [] => checkRels numRelocs rels
  | r :: reloc =>
    if r < relocOffs then initRels npg relocOffs numRelocs rels reloc
    else if npg ≤ (r - relocOffs) / smallPageSize then checkRels numRelocs rels
    else if numRelocs ≤ rels.relocs.length then .error .outOfBounds
    else initRels npg relocOffs numRelocs (rels.add (r - relocOffs)) reloc

def fobjRoRelocPagedAlloc (wordSize numPages relocOffs : ℕ) (reloc : List ℕ) :
    Except Fault (Option FobjRoRelocPaged) :=
  if numPages = 0 then .error .assertion
  else if reloc = [] then .ok none
  else do
    let nrels ← getNumRels wordSize numPages relocOffs 0 reloc
    if nrels = 0 then return none
    let rels ← initRels numPages relocOffs nrels .none reloc
    return some { rels with numRelocs := nrels, numPages := numPages }

def FobjRoRelocPaged.endRel (rrp : FobjRoRelocPaged) (pageIdx : ℕ) : ℕ :=
  match (List.range' (pageIdx + 1) (rrp.numPages - (pageIdx + 1))).find? fun n =>
    rrp.pageRelocIdx n ≠ UINT16_MAX with
  | some n => rrp.pageRelocIdx n
  | none => rrp.numRelocs

/-- The offsets at which `rrp_load_page` adds `map_offset`. -/
def loadPage (pageIdx : ℕ) : Option FobjRoRelocPaged → List ℕ
  | none => []
  | some rrp => (rrp.relocs.take (rrp.endRel pageIdx)).drop (rrp.pageRelocIdx pageIdx)

end Optee.Fobj
