import Mathlib.Data.Fin.Basic
import Mathlib.Data.Int.Notation
import Mathlib.Logic.Function.Basic
import Optee.Lib.Run

/-!
# Mutexes and condition variables

`core/kernel/mutex.c` and `core/kernel/wait_queue.c` for one mutex and its condition variables. Each
section under a spin lock is one step. A waiter is an element of the queue from `wq_wait_init` until
`wq_wait_final` finds it done; `notif_wait` may return at any time.
-/

namespace Optee.Mutex

variable {n : ℕ}

/-- A conversion to `short`. -/
def short (z : ℤ) : ℤ := z.bmod (2 ^ 16)

/-- `struct wait_queue_elem`, known by its thread. -/
structure Wqe (n : ℕ) where
  handle : Fin n
  done : Bool
  waitRead : Bool
  cv : Option ℕ

/-- What a thread calls. -/
inductive Op where
  | lock
  | trylock
  | readLock
  | readTrylock
  | unlock
  | readUnlock
  | wait (cv : ℕ)
  | signal (cv : ℕ) (onlyOne : Bool)

/-- Where a thread is, before the next section of its call. -/
inductive Pc where
  | idle
  /-- `woken` after a return from `wq_wait_final`. -/
  | lock (read woken : Bool)
  | trylock (read : Bool)
  | unlock (read : Bool)
  /-- `wake_read` once it is assigned. `condvar_wait` has its own wait after it, for reading or
  not. -/
  | wakeNext (wakeRead : Option Bool) (final : Option Bool)
  /-- In `wq_wait_final`, to lock the mutex afterwards. -/
  | waitFinal (read : Bool)
  /-- `condvar_wait` before the condition variable is linked. -/
  | waitLink (cv : ℕ)
  | waitRelease (cv : ℕ)
  /-- `cv_signal` before `cv->m` is read. -/
  | signal (cv : ℕ) (onlyOne : Bool)
  | promote (cv : ℕ) (onlyOne : Bool)
  deriving DecidableEq

structure Thread where
  pc : Pc
  reads : ℕ
  writes : ℕ

structure State (n : ℕ) where
  state : ℤ
  wq : List (Wqe n)
  linked : ℕ → Bool
  threads : Fin n → Thread

/-- `MUTEX_INITIALIZER`, with no thread in a call. -/
def State.init : State n := ⟨0, [], fun _ => false, fun _ => ⟨.idle, 0, 0⟩⟩

def State.setThread (s : State n) (t : Fin n) (th : Thread) : State n :=
  { s with threads := Function.update s.threads t th }

def State.setPc (s : State n) (t : Fin n) (pc : Pc) : State n :=
  s.setThread t { s.threads t with pc := pc }

/-- Where a call starts. -/
def Op.start : Op → Pc
  | .lock => .lock false false
  | .trylock => .trylock false
  | .readLock => .lock true false
  | .readTrylock => .trylock true
  | .unlock => .unlock false
  | .readUnlock => .unlock true
  | .wait cv => .waitLink cv
  | .signal cv onlyOne => .signal cv onlyOne

/-! ## The wait queue -/

/-- What `wq_wait_init_condvar` adds. -/
def Wqe.new (t : Fin n) (waitRead : Bool) (cv : Option ℕ) : Wqe n := ⟨t, false, waitRead, cv⟩

/-- The first element that `wq_wake_next` can wake is done. -/
def wakeFirst (wakeRead : Option Bool) : List (Wqe n) → Option (Wqe n × List (Wqe n))
  | [] => none
  | e :: wq =>
    if e.cv = none ∧ e.done = false ∧ e.waitRead = wakeRead.getD e.waitRead then
      some (e, { e with done := true } :: wq)
    else (wakeFirst wakeRead wq).map fun x => (x.1, e :: x.2)

/-- `wq_promote_condvar`. -/
def promote (cv : ℕ) (onlyOne : Bool) : List (Wqe n) → List (Wqe n)
  | [] => []
  | e :: wq =>
    if e.cv = some cv then
      { e with cv := none } :: if onlyOne then wq else promote cv onlyOne wq
    else e :: promote cv onlyOne wq

/-- `wqe->done` of a thread's element. -/
def isDone (t : Fin n) (wq : List (Wqe n)) : Bool := wq.any fun e => e.handle = t && e.done

/-! ## Sections -/

def canLock (read : Bool) (state : ℤ) : Bool := if read then state ≠ -1 else state = 0

def State.acquire (s : State n) (t : Fin n) (read : Bool) : State n :=
  let th := s.threads t
  if read then
    { s with state := short (s.state + 1) }.setThread t ⟨.idle, th.reads + 1, th.writes⟩
  else { s with state := -1 }.setThread t ⟨.idle, th.reads, th.writes + 1⟩

def State.lock (s : State n) (t : Fin n) (read : Bool) : State n :=
  if canLock read s.state then s.acquire t read
  else { s with wq := s.wq ++ [Wqe.new t read none] }.setPc t (.waitFinal read)

def State.trylock (s : State n) (t : Fin n) (read : Bool) : State n :=
  if canLock read s.state then s.acquire t read else s.setPc t .idle

def Thread.release (th : Thread) (read : Bool) (pc : Pc) : Thread :=
  if read then ⟨pc, th.reads - 1, th.writes⟩ else ⟨pc, th.reads, th.writes - 1⟩

/-- The section of `mutex_unlock`. -/
def State.unlock (s : State n) (t : Fin n) : Except Unit (State n) :=
  if s.state = 0 then .error ()
  else .ok ({ s with state := 0 }.setThread t ((s.threads t).release false (.wakeNext none none)))

/-- The section of `mutex_read_unlock`. -/
def State.readUnlock (s : State n) (t : Fin n) : Except Unit (State n) :=
  if s.state ≤ 0 then .error ()
  else
    let state := short (s.state - 1)
    let pc : Pc := if state = 0 then .wakeNext none none else .idle
    .ok ({ s with state := state }.setThread t ((s.threads t).release true pc))

/-- `condvar_wait` under the spin lock of the mutex. -/
def State.waitRelease (s : State n) (t : Fin n) (cv : ℕ) : Except Unit (State n) :=
  if s.state = 0 then .error ()
  else
    let read := decide (0 < s.state)
    let state := if 1 < s.state then short (s.state - 1) else 0
    let pc : Pc := if state = 0 then .wakeNext none (some read) else .waitFinal read
    .ok ({ s with state := state, wq := s.wq ++ [Wqe.new t read (some cv)] }.setThread t
      ((s.threads t).release read pc))

/-- Where a thread goes after `wq_wake_next`. -/
def afterWake : Option Bool → Pc
  | none => .idle
  | some read => .waitFinal read

/-- One turn of the loop of `wq_wake_next`. -/
def State.wakeNext (s : State n) (t : Fin n) (wakeRead final : Option Bool) : State n :=
  match wakeFirst wakeRead s.wq with
  | none => s.setPc t (afterWake final)
  | some (e, wq) =>
    { s with wq := wq }.setPc t
      (if wakeRead.getD e.waitRead then .wakeNext (some true) final else afterWake final)

/-- One turn of the loop of `wq_wait_final`. -/
def State.waitFinal (s : State n) (t : Fin n) (read : Bool) : State n :=
  if isDone t s.wq then
    { s with wq := s.wq.eraseP fun e => e.handle = t }.setPc t (.lock read true)
  else s

/-- The next section of a thread, an error for `panic()`. -/
def State.run (s : State n) (t : Fin n) : Except Unit (State n) :=
  match (s.threads t).pc with
  | .idle => .ok s
  | .lock read _ => .ok (s.lock t read)
  | .trylock read => .ok (s.trylock t read)
  | .unlock false => s.unlock t
  | .unlock true => s.readUnlock t
  | .wakeNext wakeRead final => .ok (s.wakeNext t wakeRead final)
  | .waitFinal read => .ok (s.waitFinal t read)
  | .waitLink cv =>
    .ok ({ s with linked := Function.update s.linked cv true }.setPc t (.waitRelease cv))
  | .waitRelease cv => s.waitRelease t cv
  | .signal cv onlyOne => .ok (s.setPc t (if s.linked cv then .promote cv onlyOne else .idle))
  | .promote cv onlyOne => .ok ({ s with wq := promote cv onlyOne s.wq }.setPc t .idle)

inductive Move (n : ℕ) where
  | call (t : Fin n) (op : Op)
  | run (t : Fin n)

def step (s : State n) : Move n → Except Unit (State n)
  | .call t op => .ok (if (s.threads t).pc = .idle then s.setPc t op.start else s)
  | .run t => s.run t

end Optee.Mutex
