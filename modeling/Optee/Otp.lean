import Mathlib.Algebra.Group.Nat.Defs
import Mathlib.Data.List.Count
import Mathlib.Logic.Function.Basic

/-!
# The anti-rollback counter in OTP memory

`core/drivers/adi/adrv906x/adi_adrv906x_otp.c` and `plat_set_enforcement_counter` of
`core/arch/arm/plat-adi/adrv906x.c`. The counter is kept three times, as a string of ones over nine
registers. The power may be cut after any register, and one of the copies may be unreadable.
-/

namespace Optee.Otp

def ROLLBACK_COUNTER_MAX_VALUE : ℕ := 256

def BITS_PER_OTP_REGISTER : ℕ := 32

def ROLLBACK_COUNTER_NUM_REGS : ℕ := ROLLBACK_COUNTER_MAX_VALUE / BITS_PER_OTP_REGISTER + 1

def ROLLBACK_COUNTER_NUM_COPIES : ℕ := 3

def OTP_ROLLBACK_COUNTER_BASE : ℕ := 0x0600

abbrev Mem := ℕ → ℕ

/-- `op_program`. -/
def program (mem : Mem) (write : ℕ × ℕ) : Mem :=
  Function.update mem write.1 (mem write.1 ||| write.2)

def counterAddr (n : ℕ) : ℕ := OTP_ROLLBACK_COUNTER_BASE + n * ROLLBACK_COUNTER_NUM_REGS

/-! ## Reading -/

/-- `get_most_common_value` from an index on, with the greatest count so far, its value, and whether
it is the only one. -/
def mostCommonFrom (size : ℕ) : List ℕ → ℕ → ℕ → Bool → ℕ × Bool
  | [], _, value, unique => (value, unique)
  | x :: rest, maxCount, value, unique =>
    let count := rest.count x + 1
    let unique := if count = maxCount then false else unique
    let (maxCount, value, unique) :=
      if maxCount < count then (count, x, true) else (maxCount, value, unique)
    if size / 2 < maxCount then (value, unique) else mostCommonFrom size rest maxCount value unique

def getMostCommonValue (data : List ℕ) : ℕ × Bool := mostCommonFrom data.length data 0 0 false

/-- The loop of `get_rollback_counter_n`, over the bits of the registers. -/
def countLoop : ℕ → List ℕ → ℕ → ℕ → ℕ
  | 0, _, count, _ => count
  | rounds + 1, regs, count, index =>
    if regs.getD index 0 = 0 then count
    else
      let regs := regs.set index (regs.getD index 0 / 2)
      let index := if (count + 1) % BITS_PER_OTP_REGISTER = 0 then index + 1 else index
      if index = ROLLBACK_COUNTER_NUM_REGS then count + 1
      else countLoop rounds regs (count + 1) index

/-- What `get_rollback_counter_n` finds in a copy. -/
def copyValue (mem : Mem) (n : ℕ) : ℕ :=
  countLoop (BITS_PER_OTP_REGISTER * ROLLBACK_COUNTER_NUM_REGS)
    ((List.range ROLLBACK_COUNTER_NUM_REGS).map fun i => mem (counterAddr n + i)) 0 0

/-- `get_rollback_counter_n`, where a copy may be unreadable. -/
def getRollbackCounterN (mem : Mem) (unreadable : Option (Fin 3)) (n : ℕ) : Option ℕ :=
  if unreadable.any (·.val = n) then none else some (copyValue mem n)

def getRollbackCounter (mem : Mem) (unreadable : Option (Fin 3)) : Option ℕ :=
  let counters :=
    (List.range ROLLBACK_COUNTER_NUM_COPIES).filterMap (getRollbackCounterN mem unreadable)
  if counters.length = 0 then none
  else
    let (value, unique) := getMostCommonValue counters
    if unique then some value else none

/-! ## Writing -/

/-- The loop of `set_rollback_counter_n`. -/
def counterRegs (value : ℕ) : List ℕ :=
  ((List.range value).foldl (fun (regs, index) i =>
      (regs.set index ((regs.getD index 0 * 2 + 1) % 2 ^ 32),
        if (i + 1) % BITS_PER_OTP_REGISTER = 0 then index + 1 else index))
    (List.replicate ROLLBACK_COUNTER_NUM_REGS 0, 0)).1

/-- What `adrv906x_otp_set_rollback_counter` programs. -/
def counterWrites (value : ℕ) : List (ℕ × ℕ) :=
  (List.range ROLLBACK_COUNTER_NUM_COPIES).flatMap fun n =>
    (List.range ROLLBACK_COUNTER_NUM_REGS).map fun i =>
      (counterAddr n + i, (counterRegs value).getD i 0)

inductive Outcome where
  | success
  | error
  | powerCut

/-- `adrv906x_otp_set_rollback_counter`, with a power cut after a number of registers. -/
def setRollbackCounter (mem : Mem) (value : ℕ) (cut : Option ℕ) : Mem × Outcome :=
  if ROLLBACK_COUNTER_MAX_VALUE < value then (mem, .error)
  else
    match cut with
    | none => ((counterWrites value).foldl program mem, .success)
    | some k => (((counterWrites value).take k).foldl program mem, .powerCut)

def platSetEnforcementCounter (mem : Mem) (unreadable : Option (Fin 3)) (value : ℕ)
    (cut : Option ℕ) :
    Mem × Outcome :=
  match getRollbackCounter mem unreadable with
  | none => (mem, .error)
  | some current =>
    if value < current then (mem, .error)
    else if value = current then (mem, .success)
    else setRollbackCounter mem value cut

/-! ## Histories -/

inductive Event where
  | update (value : ℕ) (unreadable : Option (Fin 3)) (cut : Option ℕ)
  | read (unreadable : Option (Fin 3))

structure History where
  mem : Mem
  reports : List ℕ

def Event.unreadable : Event → Option (Fin 3)
  | .update _ unreadable _ => unreadable
  | .read unreadable => unreadable

def Event.apply (mem : Mem) : Event → Mem
  | .update value unreadable cut => (platSetEnforcementCounter mem unreadable value cut).1
  | .read _ => mem

def step (h : History) (event : Event) : Except Empty History :=
  .ok ⟨event.apply h.mem, (getRollbackCounter h.mem event.unreadable).toList ++ h.reports⟩

def blank : History := ⟨fun _ => 0, []⟩

end Optee.Otp
