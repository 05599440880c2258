import Mathlib.Algebra.Group.Nat.Defs
import Mathlib.Data.Nat.Basic
import Optee.Util

/-!
# The time at which an invocation is cancelled

`set_invoke_timeout` and `tee_ta_session_is_cancelled` of `core/kernel/tee_ta_manager.c`. The system
time is an argument, `none` if `tee_time_get_sys_time` fails.
-/

namespace Optee.TaTimeout

structure TeeTime where
  seconds : BitVec 32
  millis : BitVec 32
  deriving DecidableEq

/-- The fields of `struct tee_ta_session` for cancellation. -/
structure Session where
  cancel : Bool
  cancelMask : Bool
  cancelTime : TeeTime

def TEE_TIMEOUT_INFINITE : BitVec 32 := 0xFFFFFFFF

def TeeTime.infinite : TeeTime := ⟨0xFFFFFFFF, 0xFFFFFFFF⟩

/-- `ADD_OVERFLOW` of `uint32_t`. -/
def addOverflow32 (a b : BitVec 32) : Option (BitVec 32) :=
  (addOverflow 32 a.toNat b.toNat).map (BitVec.ofNat 32)

/-- `cancel_time` of `set_invoke_timeout`, `none` where it goes to `infinite`. -/
def finiteTimeout (currentTime : TeeTime) (cancelReqTo : BitVec 32) : Option TeeTime := do
  let seconds ← addOverflow32 currentTime.seconds (cancelReqTo / 1000)
  let millis := currentTime.millis + cancelReqTo % 1000
  if 1000 < millis then
    let seconds ← addOverflow32 currentTime.seconds 1
    return ⟨seconds + 1, millis - 1000⟩
  return ⟨seconds, millis⟩

def setInvokeTimeout (sysTime : Option TeeTime) (sess : Session)
    (cancelReqTo : BitVec 32) : Session :=
  { sess with
    cancelTime :=
      if cancelReqTo = TEE_TIMEOUT_INFINITE then .infinite
      else (sysTime.bind fun currentTime => finiteTimeout currentTime cancelReqTo).getD .infinite }

def teeTaSessionIsCancelled (sysTime : Option TeeTime) (s : Session)
    (currTime : Option TeeTime) : Bool :=
  if s.cancelMask then false
  else if s.cancel then true
  else if s.cancelTime.seconds = 0xFFFFFFFF then false
  else
    match currTime.or sysTime with
    | none => false
    | some currentTime =>
      s.cancelTime.seconds < currentTime.seconds ||
        (currentTime.seconds = s.cancelTime.seconds && s.cancelTime.millis ≤ currentTime.millis)

end Optee.TaTimeout
