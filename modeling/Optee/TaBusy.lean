import Optee.Lib.Run
import Mathlib.Logic.Function.Basic
import Mathlib.Data.Fin.Basic

/-!
# Busy contexts

`tee_ta_try_set_busy` and `tee_ta_clear_busy` of `core/kernel/tee_ta_manager.c`, with the recursive
single-instance lock, without `CFG_CONCURRENT_SINGLE_INSTANCE_TA` and with assertions. Each is one
section under `tee_ta_mutex`, which waits, with nothing changed, or runs to its end.
-/

namespace Optee.TaManager

structure TaFlags where
  singleInstance : Bool
  multiSession : Bool
  instanceKeepAlive : Bool
  concurrent : Bool
  secureDataPath : Bool

/-- A section under `tee_ta_mutex` waits, fails an `assert()`, or is done. -/
inductive Section (α : Type) where
  | wait
  | assert
  | done (a : α)
  deriving DecidableEq

variable {n : ℕ}

/-- `tee_ta_single_instance_thread` and `tee_ta_single_instance_count`. -/
structure SingleInstance (n : ℕ) where
  thread : Option (Fin n)
  count : ℕ
  deriving DecidableEq

def lockSingleInstance (l : SingleInstance n) (t : Fin n) : Section (SingleInstance n) :=
  if l.thread ≠ some t then
    if l.thread ≠ none then .wait
    else if l.count ≠ 0 then .assert
    else .done ⟨some t, 1⟩
  else .done { l with count := l.count + 1 }

def unlockSingleInstance (l : SingleInstance n) (t : Fin n) : Section (SingleInstance n) :=
  if l.thread ≠ some t then .assert
  else if l.count = 0 then .assert
  else if l.count - 1 = 0 then .done ⟨none, 0⟩
  else .done { l with count := l.count - 1 }

def hasSingleInstanceLock (l : SingleInstance n) (t : Fin n) : Bool := l.thread = some t

/-- `tee_ta_try_set_busy` with the single-instance lock where the context asks for it. -/
def trySetBusyLocked (flags : TaFlags) (busy : Bool) (l : SingleInstance n) (t : Fin n) :
    Section (Bool × Bool × SingleInstance n) :=
  if hasSingleInstanceLock l t then
    if busy then
      -- waiting now would only cause a dead-lock
      if flags.singleInstance then
        match unlockSingleInstance l t with
        | .wait => .wait
        | .assert => .assert
        | .done l => .done (false, true, l)
      else .done (false, true, l)
    else .done (true, true, l)
  else if busy then .wait
  else .done (true, true, l)

def teeTaTrySetBusy (flags : TaFlags) (busy : Bool) (l : SingleInstance n) (t : Fin n) :
    Section (Bool × Bool × SingleInstance n) :=
  if flags.concurrent then .done (true, busy, l)
  else if flags.singleInstance then
    match lockSingleInstance l t with
    | .wait => .wait
    | .assert => .assert
    | .done l => trySetBusyLocked flags busy l t
  else trySetBusyLocked flags busy l t

def teeTaClearBusy (flags : TaFlags) (busy : Bool) (l : SingleInstance n) (t : Fin n) :
    Section (Bool × SingleInstance n) :=
  if flags.concurrent then .done (busy, l)
  else if !busy then .assert
  else if flags.singleInstance then
    match unlockSingleInstance l t with
    | .wait => .wait
    | .assert => .assert
    | .done l => .done (false, l)
  else .done (false, l)

/-! ## Threads that enter and leave -/

variable {κ : Type} [DecidableEq κ]

structure Entries (n : ℕ) (κ : Type) where
  busy : κ → Bool
  lock : SingleInstance n
  inside : Fin n → List κ
  want : Fin n → Option κ

def Entries.idle : Entries n κ := ⟨fun _ => false, ⟨none, 0⟩, fun _ => [], fun _ => none⟩

inductive Move (n : ℕ) (κ : Type) where
  | call (t : Fin n) (c : κ)
  | enter (t : Fin n)
  | leave (t : Fin n)

/-- An `assert()` that fails is an error. -/
def Entries.step (flags : κ → TaFlags) (s : Entries n κ) : Move n κ → Except Unit (Entries n κ)
  | .call t c =>
    match s.want t with
    | some _ => .ok s
    | none => .ok { s with want := Function.update s.want t (some c) }
  | .enter t =>
    match s.want t with
    | none => .ok s
    | some c =>
      match teeTaTrySetBusy (flags c) (s.busy c) s.lock t with
      | .wait => .ok s
      | .assert => .error ()
      | .done (rc, busy, lock) => .ok
        { busy := Function.update s.busy c busy
          lock := lock
          inside := if rc then Function.update s.inside t (c :: s.inside t) else s.inside
          want := Function.update s.want t none }
  | .leave t =>
    match s.want t, s.inside t with
    | none, c :: cs =>
      match teeTaClearBusy (flags c) (s.busy c) s.lock t with
      | .done (busy, lock) => .ok
        { s with
          busy := Function.update s.busy c busy
          lock := lock
          inside := Function.update s.inside t cs }
      | _ => .error ()
    | _, _ => .ok s

def Entries.WaitsFor (flags : κ → TaFlags) (s : Entries n κ) (t u : Fin n) : Prop :=
  ∃ c, s.want t = some c ∧ teeTaTrySetBusy (flags c) (s.busy c) s.lock t = .wait
    ∧ if (flags c).singleInstance then s.lock.thread = some u else c ∈ s.inside u

def CallsUpward (flags : κ → TaFlags) (rank : κ → ℕ) (s : Entries n κ) : Move n κ → Prop
  | .call t c => s.lock.thread ≠ some t → (flags c).concurrent = false →
      (flags c).singleInstance = false →
      ∀ d ∈ s.inside t, (flags d).concurrent = false → rank d < rank c
  | _ => True

instance (flags : κ → TaFlags) (rank : κ → ℕ) (s : Entries n κ) :
    (m : Move n κ) → Decidable (CallsUpward flags rank s m)
  | .call t c => inferInstanceAs (Decidable (s.lock.thread ≠ some t → (flags c).concurrent = false →
      (flags c).singleInstance = false →
      ∀ d ∈ s.inside t, (flags d).concurrent = false → rank d < rank c))
  | .enter _ => isTrue trivial
  | .leave _ => isTrue trivial

end Optee.TaManager
