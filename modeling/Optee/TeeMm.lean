import Optee.Lib.Run
import Optee.Lib.Walk
import Optee.Util

/-!
# The pool allocator

`core/mm/tee_mm.c` on a core with 64-bit addresses. A pool is cut into granules of `1 << shift`
bytes, and its entries are kept in a list, from the first granule on or from the last. Offsets and
sizes of entries count granules, at type `uint32_t`.
-/

namespace Optee.TeeMm

/-- `tee_mm_entry_t`, with its address. -/
structure TeeMmEntry where
  id : ℕ
  offset : ℕ
  size : ℕ
  deriving DecidableEq

/-- `tee_mm_pool_t`, with the entries after `pool->entry` and the next address of `malloc`. -/
structure TeeMmPool where
  entry : TeeMmEntry
  entries : List TeeMmEntry
  lo : ℕ
  size : ℕ
  shift : ℕ
  hiAlloc : Bool
  fresh : ℕ
  deriving DecidableEq

inductive Panic where
  | undefinedShift
  | assertion
  | invalidPool
  | invalidMmEntry
  deriving DecidableEq

def uint32Max : ℕ := 2 ^ 32 - 1

/-- Conversion to `uint32_t`. -/
def u32 (n : ℕ) : ℕ := n % 2 ^ 32

/-- Subtraction of type `uint32_t`. -/
def sub32 (a b : ℕ) : ℕ := (a + (2 ^ 32 - b % 2 ^ 32)) % 2 ^ 32

/-- Conversion to `paddr_t` and `size_t`. -/
def u64 (n : ℕ) : ℕ := n % 2 ^ 64

/-- Subtraction of type `paddr_t` and `size_t`. -/
def sub64 (a b : ℕ) : ℕ := (a + (2 ^ 64 - b % 2 ^ 64)) % 2 ^ 64

def rounddown (v granule : ℕ) : ℕ := v / granule * granule

/-- `tee_mm_init`. A shift of `1` by 31 is not defined. -/
def teeMmInit (lo size shift : ℕ) (hiAlloc malloc : Bool) : Except Panic (Option TeeMmPool) :=
  if 31 ≤ shift then .error .undefinedShift
  else
    let initialLo := lo
    let lo := wrapRoundup 64 (2 ^ shift) lo
    let rounded := sub64 lo initialLo
    let size := rounddown (sub64 size rounded) (2 ^ shift)
    if uint32Max ≤ size / 2 ^ shift then .error .assertion
    else if malloc then
      let offset := if hiAlloc then u32 (sub64 size 1 / 2 ^ shift + 1) else 0
      .ok (some ⟨⟨0, offset, 0⟩, [], lo, size, shift, hiAlloc, 1⟩)
    else .ok none

def teeMmAdd (pool : TeeMmPool) (passed rest : List TeeMmEntry) (offset size : ℕ) :
    TeeMmEntry × TeeMmPool :=
  let nn := ⟨pool.fresh, u32 offset, u32 size⟩
  (nn, { pool with entries := passed ++ nn :: rest, fresh := pool.fresh + 1 })

def gap (hiAlloc : Bool) (entry next : TeeMmEntry) : ℕ :=
  if hiAlloc then sub32 (sub32 entry.offset next.offset) next.size
  else sub32 (sub32 next.offset entry.size) entry.offset

def granules (size shift : ℕ) : ℕ := if size = 0 then 0 else (size - 1) / 2 ^ shift + 1

def teeMmAlloc (pool : TeeMmPool) (size : ℕ) (malloc : Bool) :
    Except Panic (Option TeeMmEntry × TeeMmPool) :=
  if ¬malloc then .ok (none, pool)
  else
    let psize := granules size pool.shift
    let (passed, rest) := walk (fun entry next => gap pool.hiAlloc entry next < psize)
      pool.entry pool.entries
    let entry := passed.getLastD pool.entry
    let remaining :=
      if pool.hiAlloc then u32 (entry.offset * 2 ^ pool.shift)
      else sub64 pool.size (u32 (u32 (entry.offset + entry.size) * 2 ^ pool.shift))
    if rest = [] ∧ ¬pool.hiAlloc ∧ pool.size = 0 then .error .invalidPool
    else if rest = [] ∧ remaining < size then .ok (none, pool)
    else
      let offset := if pool.hiAlloc then sub64 entry.offset psize else entry.offset + entry.size
      let (nn, pool) := teeMmAdd pool passed rest offset psize
      .ok (some nn, pool)

def fitInGap (pool : TeeMmPool) (e : TeeMmEntry) (next : Option TeeMmEntry)
    (offslo offshi : ℕ) : Bool :=
  if pool.hiAlloc then
    !(e.offset < offshi || next.any (fun n => offslo < u32 (n.offset + n.size))
      || pool.size < sub64 (u64 (offshi * 2 ^ pool.shift)) 1)
  else
    !(offslo < u32 (e.offset + e.size) || next.any (fun n => n.offset < offshi)
      || pool.size < u64 (offshi * 2 ^ pool.shift))

/-- `tee_mm_alloc2`, whose sum may wrap. -/
def teeMmAlloc2 (pool : TeeMmPool) (base size : ℕ)
    (malloc : Bool) : Option TeeMmEntry × TeeMmPool :=
  if 2 ^ 64 ≤ base + size ∨ base < pool.lo then (none, pool)
  else if ¬malloc then (none, pool)
  else
    let offslo := (base - pool.lo) / 2 ^ pool.shift
    let offshi := u64 (sub64 (base - pool.lo + size) 1 / 2 ^ pool.shift + 1)
    let (passed, rest) := walk (fun _ next =>
        if pool.hiAlloc then offshi < u32 (next.offset + next.size) else next.offset < offslo)
      pool.entry pool.entries
    if fitInGap pool (passed.getLastD pool.entry) rest.head? offslo offshi then
      let (mm, pool) := teeMmAdd pool passed rest offslo (sub64 offshi offslo)
      (some mm, pool)
    else (none, pool)

def teeMmFree (pool : TeeMmPool) (id : ℕ) : Except Panic TeeMmPool :=
  if pool.entries.any (·.id = id) then
    .ok { pool with entries := pool.entries.eraseP (·.id = id) }
  else .error .invalidMmEntry

/-! ## Looking up -/

/-- Conversion to `uint16_t`. -/
def u16 (n : ℕ) : ℕ := n % 2 ^ 16

def teeMmAddrIsWithinRange (pool : TeeMmPool) (addr : ℕ) : Bool :=
  pool.lo ≤ addr ∧ addr ≤ u64 (pool.lo + sub64 pool.size 1)

def teeMmFind (pool : TeeMmPool) (addr : ℕ) : Option TeeMmEntry :=
  let offset := u16 (sub64 addr pool.lo / 2 ^ pool.shift)
  if teeMmAddrIsWithinRange pool addr then
    pool.entries.find? fun entry => entry.offset ≤ offset ∧ offset < u32 (entry.offset + entry.size)
  else none

/-! ## Sequences of calls -/

/-- A call, and whether `malloc` finds memory in it. -/
inductive Call where
  | alloc (size : ℕ) (malloc : Bool)
  | alloc2 (base size : ℕ) (malloc : Bool)
  | free (id : ℕ)

def step (pool : TeeMmPool) : Call → Except Panic TeeMmPool
  | .alloc size malloc => (teeMmAlloc pool size malloc).map Prod.snd
  | .alloc2 base size malloc => .ok (teeMmAlloc2 pool base size malloc).2
  | .free id => teeMmFree pool id

end Optee.TeeMm
