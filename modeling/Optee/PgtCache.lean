import Optee.Buffer
import Optee.Lib.Piles
import Optee.Vm

/-!
# The cache of page tables

The part of `core/mm/pgt_cache.c` that is built without `CFG_CORE_PREALLOC_EL0_TBLS`. A table is
known by its index in `pgt_entries`. Each call runs under `pgt_mu`; a thread in `pgt_get_all` that
waits for tables gives the lock up and tries again later.
-/

namespace Optee.PgtCache

open Vm (VmRegion)

def pgdirsOf (cfg : Vm.Config) (r : VmRegion) : List ℕ :=
  let va := r.va / cfg.pgdirSize * cfg.pgdirSize
  (List.range ((r.va + r.size - va + (cfg.pgdirSize - 1)) / cfg.pgdirSize)).map fun i =>
    va + i * cfg.pgdirSize

def pgdirs (cfg : Vm.Config) (regions : List VmRegion) : List ℕ := regions.flatMap (pgdirsOf cfg)

structure Config extends Vm.Config where
  cacheSize : ℕ
  withPager : Bool
  pagedUserTa : Bool
  dvd_cacheSize : withPager = true → lpae = false → 4 ∣ cacheSize

namespace Config

variable (cfg : Config)

/-- `CFG_WITH_PAGER` without `CFG_WITH_LPAE`. -/
def shared : Bool := cfg.withPager && !cfg.lpae

def numFree : ℕ := if cfg.shared then cfg.cacheSize / 4 else 1

def parentOf (p : ℕ) : ℕ := if cfg.shared then p / 4 else 0

end Config

variable {ι : Type} [DecidableEq ι]

structure Pgt (ι : Type) where
  tbl : ℕ → ℕ
  vabase : ℕ
  ctx : Option ι
  populated : Bool
  numUsedEntries : ℕ

/-- In a free list, in `pgt_cache_list`, in the list of a context or in none. -/
inductive Place (ι : Type) where
  | free (n : ℕ)
  | cache
  | ctx (c : ι)
  | held
  deriving DecidableEq

/-- The tables and lists, `num_used` of the parents, and whether a context waits. -/
structure State (ι : Type) where
  table : ℕ → Pgt ι
  lists : Place ι → List ℕ
  numUsed : ℕ → ℕ
  waiting : ι → Bool

inductive Fault where
  | assertion

namespace State

variable (s : State ι)

def move (p : ℕ) (k k' : Place ι) (i : ℕ) : State ι :=
  { s with lists := Piles.move s.lists p k k' i }

def setTable (p : ℕ) (t : Pgt ι) : State ι := { s with table := Function.update s.table p t }

def setNumUsed (n : ℕ) (v : ℕ) : State ι := { s with numUsed := Function.update s.numUsed n v }

def setWaiting (c : ι) (b : Bool) : State ι := { s with waiting := Function.update s.waiting c b }

end State

variable (cfg : Config)

def pgtInit (contents : ℕ → ℕ → ℕ) : State ι where
  table p := ⟨contents p, 0, none, false, 0⟩
  lists
    | .free n =>
      if n < cfg.numFree then
        (if cfg.shared then (List.range 4).map (4 * n + ·) else List.range cfg.cacheSize).reverse
      else []
    | _ => []
  numUsed _ := 0
  waiting _ := false

/-! ### Taking a table from a list -/

def firstFree (s : State ι) : Option (ℕ × ℕ) :=
  (List.range cfg.numFree).findSome? fun n => (s.lists (.free n)).head?.map fun p => (n, p)

/-- A table with `memset(p->tbl, 0, PGT_SIZE)`, not populated. -/
def Pgt.cleared (t : Pgt ι) : Pgt ι := { t with tbl := fun _ => 0, populated := false }

def popFromFreeList (s : State ι) : Option (State ι × ℕ) :=
  match firstFree cfg s with
  | none => none
  | some (n, p) =>
    let s := if cfg.shared then s.setNumUsed n (s.numUsed n + 1) else s
    some ((s.move p (.free n) .held 0).setTable p (s.table p).cleared, p)

def pushToFreeList (p : ℕ) (s : State ι) : Except Fault (State ι) :=
  let n := cfg.parentOf p
  if cfg.shared then
    if 0 < s.numUsed n then .ok ((s.move p .held (.free n) 0).setNumUsed n (s.numUsed n - 1))
    else .error .assertion
  else .ok (s.move p .held (.free n) 0)

def pushToCacheList (p : ℕ) (s : State ι) : State ι := s.move p .held .cache 0

def matchPgt (t : Pgt ι) (vabase : ℕ) (c : ι) : Bool :=
  decide (t.ctx = some c) && decide (t.vabase = vabase)

def popFromCacheList (vabase : ℕ) (c : ι) (s : State ι) : State ι × Option ℕ :=
  match s.lists .cache with
  | [] => (s, none)
  | pgt :: rest =>
    if matchPgt (s.table pgt) vabase c then (s.move pgt .cache .held 0, some pgt)
    else
      match rest.find? fun p => matchPgt (s.table p) vabase c with
      | none => (s, none)
      | some p => (s.move p .cache .held 0, some p)

def getNumUsedEntries (t : Pgt ι) : ℕ := if cfg.pagedUserTa then t.numUsedEntries else 0

/-- The loop of `pop_least_used_from_cache_list`. -/
def leastUsed (s : State ι) : ℕ → List ℕ → ℕ
  | pgt, [] => pgt
  | pgt, p :: rest =>
    if getNumUsedEntries cfg (s.table p)
      ≤ getNumUsedEntries cfg (s.table pgt) then leastUsed s p rest
    else leastUsed s pgt rest

def popLeastUsedFromCacheList (s : State ι) : Option (State ι × ℕ) :=
  match s.lists .cache with
  | [] => none
  | pgt :: rest => some (s.move (leastUsed cfg s pgt rest) .cache .held 0, leastUsed cfg s pgt rest)

/-- `tee_pager_pgt_save_and_release_entries`. -/
def Pgt.savedAndReleased (t : Pgt ι) : Pgt ι :=
  if cfg.pagedUserTa then { t with numUsedEntries := 0 } else t

def popFromSomeList (vabase : ℕ) (c : ι) (s : State ι) : Option (State ι × ℕ) :=
  match popFromCacheList vabase c s with
  | (s, some p) => some (s, p)
  | (s, none) =>
    match popFromFreeList cfg s with
    | some (s, p) => some (s.setTable p { s.table p with ctx := some c, vabase }, p)
    | none =>
      match popLeastUsedFromCacheList cfg s with
      | none => none
      | some (s, p) =>
        some (s.setTable p { ((s.table p).savedAndReleased cfg).cleared with
          ctx := some c, vabase }, p)

/-! ### Giving tables back -/

def Pgt.disowned (t : Pgt ι) : Pgt ι := { t.savedAndReleased cfg with ctx := none, vabase := 0 }

def flushTable (k : Place ι) (p : ℕ) (s : State ι) : Except Fault (State ι) :=
  pushToFreeList cfg p ((s.move p k .held 0).setTable p ((s.table p).disowned cfg))

/-- The loop of `pgt_free_unlocked`. -/
def freeTables (c : ι) : List ℕ → State ι → Except Fault (State ι)
  | [], s => .ok s
  | p :: rest, s =>
    if cfg.pagedUserTa && decide (getNumUsedEntries cfg (s.table p) = 0) then do
      let s ← flushTable cfg (.ctx c) p s
      freeTables c rest s
    else freeTables c rest (pushToCacheList p (s.move p (.ctx c) .held 0))

def pgtFreeUnlocked (c : ι) (s : State ι) : Except Fault (State ι) :=
  freeTables cfg c (s.lists (.ctx c)) s

def flushHead (hits : Pgt ι → Bool) (k : Place ι) :
    List ℕ → State ι → Except Fault (State ι × List ℕ)
  | [], s => .ok (s, [])
  | p :: rest, s =>
    if hits (s.table p) then do
      let s ← flushTable cfg k p s
      flushHead hits k rest s
    else .ok (s, p :: rest)

def flushNext (hits : Pgt ι → Bool) (k : Place ι) : List ℕ → State ι → Except Fault (State ι)
  | [], s => .ok s
  | p :: rest, s =>
    if hits (s.table p) then do
      let s ← flushTable cfg k p s
      flushNext hits k rest s
    else flushNext hits k rest s

def flushList (hits : Pgt ι → Bool) (k : Place ι) (s : State ι) : Except Fault (State ι) := do
  let (s, rest) ← flushHead cfg hits k (s.lists k) s
  match rest with
  | [] => return s
  | _ :: rest => flushNext cfg hits k rest s

def pgtFlush (c : ι) (s : State ι) : Except Fault (State ι) :=
  flushList cfg (fun t => decide (t.ctx = some c)) .cache s

def pgtEntryMatches (c : ι) (first last : ℕ) (t : Pgt ι) : Bool :=
  if t.ctx ≠ some c then false
  else if last ≤ first then false
  else Buffer.coreIsBufferInside cfg.paddrBits t.vabase cfg.pgdirSize first (last - first)

def pgtFlushRange (c : ι) (first last : ℕ) (s : State ι) : Except Fault (State ι) := do
  let s ← flushList cfg (pgtEntryMatches cfg c first last) (.ctx c) s
  flushList cfg (pgtEntryMatches cfg c first last) .cache s

/-- What `pgt_clear_range` clears in a table. -/
def clearedIn (vabase first last idx : ℕ) : Bool :=
  let b := max vabase first
  let e := min (vabase + cfg.pgdirSize) last
  decide (b < e ∧ (b - vabase) / smallPageSize ≤ idx
    ∧ idx < (b - vabase) / smallPageSize + (e - b) / smallPageSize)

/-- A round of the loop of `clear_ctx_range_from_list`. -/
def clearTable (c : ι) (first last : ℕ) (s : State ι) (p : ℕ) : State ι :=
  if (s.table p).ctx = some c then
    s.setTable p { s.table p with
      tbl := fun idx => if clearedIn cfg (s.table p).vabase first last idx then 0
      else (s.table p).tbl idx }
  else s

def clearCtxRangeFromList (k : Place ι) (c : ι) (first last : ℕ) (s : State ι) : State ι :=
  (s.lists k).foldl (clearTable cfg c first last) s

def pgtClearRange (c : ι) (first last : ℕ) (s : State ι) : State ι :=
  clearCtxRangeFromList cfg .cache c first last (clearCtxRangeFromList cfg (.ctx c) c first last s)

/-! ### The tables of a context -/

/-- The loop of `pgt_alloc_unlocked`, with the number of its tables and the last of them. -/
def allocTables (c : ι) : List ℕ → ℕ → Option ℕ → State ι → Except Fault (State ι × Bool)
  | [], _, _, s => .ok (s, true)
  | va :: vas, n, pgt, s =>
    if pgt.any fun p => decide ((s.table p).vabase = va) then allocTables c vas n pgt s
    else
      match popFromSomeList cfg va c s with
      | none => do
        let s ← pgtFreeUnlocked cfg c s
        return (s, false)
      | some (s, p) => allocTables c vas (n + 1) (some p) (s.move p .held (.ctx c) n)

def pgtAllocUnlocked (c : ι) (regions : List VmRegion)
    (s : State ι) : Except Fault (State ι × Bool) :=
  allocTables cfg c (pgdirs cfg.toConfig regions) 0 none s

/-- The loop of `pgt_check_avail`. -/
def countTables : List ℕ → ℕ → ℕ → ℕ
  | [], count, _ => count
  | va :: vas, count, lastVa =>
    if va = lastVa then countTables vas count lastVa else countTables vas (count + 1) va

def pgtCheckAvail (regions : List VmRegion) : Bool :=
  countTables (pgdirs cfg.toConfig regions) 0 0 ≤ cfg.cacheSize

/-- The loop of `pgt_get_all`, up to where it waits. -/
def tryAlloc (c : ι) (regions : List VmRegion) (s : State ι) : Except Fault (State ι) := do
  let (s, ok) ← pgtAllocUnlocked cfg c regions s
  if ok then return s.setWaiting c false
  else if pgtCheckAvail cfg regions then return s.setWaiting c true
  else .error .assertion

def pgtGetAll (c : ι) (regions : List VmRegion) (s : State ι) : Except Fault (State ι) :=
  if regions = [] then .ok s
  else do
    let s ← pgtFreeUnlocked cfg c s
    tryAlloc cfg c regions s

def pgtPutAll (c : ι) (s : State ι) : Except Fault (State ι) :=
  if s.lists (.ctx c) = [] then .ok s else pgtFreeUnlocked cfg c s

def install (p idx val used : ℕ) (s : State ι) : State ι :=
  s.setTable p { s.table p with
    tbl := Function.update (s.table p).tbl idx val, numUsedEntries := used }

/-! ### Runs -/

inductive Call (ι : Type) where
  | getAll (c : ι) (regions : List VmRegion)
  | retry (c : ι) (regions : List VmRegion)
  | putAll (c : ι)
  | flush (c : ι)
  | flushRange (c : ι) (first last : ℕ)
  | clearRange (c : ι) (first last : ℕ)
  | pop (vabase : ℕ) (c : ι)
  | push (p : ℕ)
  | install (c : ι) (p idx val used : ℕ)

def step (s : State ι) : Call ι → Except Fault (State ι)
  | .getAll c regions => pgtGetAll cfg c regions s
  | .retry c regions => tryAlloc cfg c regions s
  | .putAll c => pgtPutAll cfg c s
  | .flush c => pgtFlush cfg c s
  | .flushRange c first last => pgtFlushRange cfg c first last s
  | .clearRange c first last => .ok (pgtClearRange cfg c first last s)
  | .pop vabase c => .ok (popFromCacheList vabase c s).1
  | .push p => .ok (pushToCacheList p s)
  | .install _ p idx val used => .ok (install p idx val used s)

def Sound (s : State ι) : Call ι → Prop
  | .retry c _ => s.waiting c = true
  | .push p => p ∈ s.lists .held
  | .install c p _ _ _ =>
    p ∈ s.lists (.ctx c) ∨ (p ∈ s.lists .cache ∨ p ∈ s.lists .held) ∧ (s.table p).ctx = some c
  | _ => True

instance (s : State ι) : ∀ a : Call ι, Decidable (Sound s a)
  | .retry _ _ => inferInstanceAs (Decidable (_ = true))
  | .push _ => inferInstanceAs (Decidable (_ ∈ _))
  | .install _ _ _ _ _ => inferInstanceAs (Decidable (_ ∨ _))
  | .getAll _ _ | .putAll _ | .flush _ | .flushRange _ _ _ | .clearRange _ _ _ | .pop _ _ =>
    isTrue trivial

end Optee.PgtCache
