import Mathlib.Algebra.Group.Nat.Defs
import Mathlib.Data.Nat.Basic
import Optee.Util

/-!
# Buffers given as a list of pages

`msg_param_mobj_from_noncontig` of `core/kernel/msg_param.c` with `mobj_reg_shm_alloc` and
`mobj_reg_shm_get_pa` of `core/arch/arm/mm/mobj_dyn_shm.c`, on a 64 bit core. The memory of the
normal world does not change during the call.
-/

namespace Optee.MsgParam

structure Normal where
  word : ℕ → ℕ
  nonSec : ℕ → Bool

structure MobjRegShm where
  size : ℕ
  cookie : ℕ
  pageOffset : ℕ
  pages : List ℕ

variable (ns : Normal)

/-- The checks of a page in `mobj_reg_shm_alloc`. -/
def pageOk (page : ℕ) : Bool := page % smallPageSize = 0 && ns.nonSec page

def mobjRegShmAlloc (pages : List ℕ) (pageOffset cookie : ℕ) : Option MobjRegShm :=
  if pages.length = 0 ∨ smallPageSize ≤ pageOffset then none
  else if pages.all (pageOk ns) then
    some ⟨(pages.length * smallPageSize + 2 ^ 64 - pageOffset) % 2 ^ 64, cookie, pageOffset, pages⟩
  else none

/-- `mobj_reg_shm_get_pa`, `none` for an error. -/
def MobjRegShm.getPa (m : MobjRegShm) (offst granule : ℕ) : Option ℕ :=
  if m.size ≤ offst then none
  else
    let fullOffset := offst + m.pageOffset
    let page := m.pages.getD (fullOffset / smallPageSize) 0
    if granule = 0 then some (page + fullOffset % smallPageSize)
    else if granule = smallPageSize then some page
    else none

structure Mapped where
  now : List ℕ
  log : List ℕ

/-- `mobj_mapped_shm_alloc` of a list page. -/
def Mapped.alloc (w : Mapped) (page : ℕ) : Option Mapped :=
  if pageOk ns page then some ⟨page :: w.now, w.log ++ [page]⟩ else none

/-- `mobj_put`. -/
def Mapped.put (w : Mapped) (page : ℕ) : Mapped := { w with now := w.now.erase page }

/-- The last entry of a list page is the next one. -/
def turn (page idx : ℕ) (w : Mapped) : Except Mapped (ℕ × ℕ × Mapped) :=
  if (idx + 1) * 8 % smallPageSize = 0 then
    let next := ns.word (page + idx * 8)
    if next % smallPageSize ≠ 0 then .error (w.put page)
    else
      match (w.put page).alloc ns next with
      | none => .error (w.put page)
      | some w => .ok (next, 0, w)
  else .ok (page, idx, w)

/-- The loop of `msg_param_extract_pages`, from a list page and an index on. -/
def extractLoop : ℕ → ℕ → ℕ → List ℕ → Mapped → Option (List ℕ) × Mapped
  | 0, page, _, pages, w => (some pages, w.put page)
  | n + 1, page, idx, pages, w =>
    match turn ns page idx w with
    | .error w => (none, w)
    | .ok (page, idx, w) =>
      let entry := ns.word (page + idx * 8)
      if entry % smallPageSize ≠ 0 then (none, w.put page)
      else extractLoop n page (idx + 1) (pages ++ [entry]) w

def msgParamExtractPages (buffer numPages : ℕ) (w : Mapped) : Option (List ℕ) × Mapped :=
  if buffer % smallPageSize ≠ 0 then (none, w)
  else
    match w.alloc ns buffer with
    | none => (none, w)
    | some w => extractLoop ns numPages buffer 0 [] w

def numPages (sizePlusOffs : ℕ) : ℕ := (sizePlusOffs + (2 ^ 64 - 1)) % 2 ^ 64 / smallPageSize + 1

def msgParamMobjFromNoncontig (bufPtr size shmRef : ℕ) (w : Mapped) : Option MobjRegShm × Mapped :=
  let pageOffset := bufPtr % smallPageSize
  if 2 ^ 64 ≤ size + pageOffset then (none, w)
  else if 2 ^ 64 ≤ numPages (size + pageOffset) * 8 then (none, w)
  else
    match msgParamExtractPages ns (bufPtr - pageOffset) (numPages (size + pageOffset)) w with
    | (none, w) => (none, w)
    | (some pages, w) => (mobjRegShmAlloc ns pages pageOffset shmRef, w)

end Optee.MsgParam
