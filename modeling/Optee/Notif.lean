import Optee.Ffa

/-!
# Notifications to the normal world

The bitmaps of notifications of `core/arch/arm/kernel/thread_spmc.c`, with OP-TEE as the only
sender. Each request runs under `spmc_notif_lock`. The log of what was created, sent and got is no
part of the program.
-/

namespace Optee.Notif

open Ffa (Err)

/-- The arguments of a request. -/
structure Args where
  a1 : BitVec 64
  a2 : BitVec 64
  a3 : BitVec 64
  a4 : BitVec 64
  a5 : BitVec 64
  a6 : BitVec 64
  a7 : BitVec 64

/-- The bitmaps, their owner, and the notification of OP-TEE. -/
structure State where
  pending : BitVec 64
  bound : BitVec 64
  vmIdValid : Bool
  vmId : BitVec 16
  isReady : Bool
  intid : BitVec 32
  doBottomHalfValue : BitVec 32

def State.init : State := ⟨0, 0, false, 0, false, -1, -1⟩

/-- `FFA_DST`, and `a1` as a `uint16_t`. -/
def dst (a1 : BitVec 64) : BitVec 16 := a1.setWidth 16

/-- `reg_pair_to_64(args->a4, args->a3)`. -/
def Args.bitmap (args : Args) : BitVec 64 :=
  (args.a4.setWidth 32 ++ args.a3.setWidth 32 : BitVec 64)

def Args.onlyVm (args : Args) : Bool :=
  (args.a1 >>> 16).setWidth 16 = (0 : BitVec 16) && args.a3 = 0 && args.a4 = 0 && args.a5 = 0
    && args.a6 = 0 && args.a7 = 0

def State.owned (s : State) (vmId : BitVec 16) : Bool := s.vmIdValid && vmId = s.vmId

/-- An error, or the bitmap in `w3` and `w2`. -/
abbrev Reply := Except Err (BitVec 64)

def handleNotificationBitmapCreate (s : State) (args : Args) : Reply × State :=
  if args.onlyVm then
    if s.vmIdValid then (.error (if dst args.a1 = s.vmId then .denied else .noMemory), s)
    else (.ok 0, { s with vmId := dst args.a1, vmIdValid := true })
  else (.error .invalidParameters, s)

def handleNotificationBitmapDestroy (s : State) (args : Args) : Reply × State :=
  if args.onlyVm && s.owned (dst args.a1) then
    if s.pending ≠ 0 ∨ s.bound ≠ 0 then (.error .denied, s)
    else (.ok 0, { s with vmIdValid := false })
  else (.error .invalidParameters, s)

def handleNotificationBind (s : State) (args : Args) : Reply × State :=
  if args.a5 ≠ 0 ∨ args.a6 ≠ 0 ∨ args.a7 ≠ 0 then (.error .invalidParameters, s)
  else if args.a2 ≠ 0 then (.error .notSupported, s)
  else if s.owned (dst args.a1) then
    if args.bitmap &&& s.bound ≠ 0 then (.error .denied, s)
    else (.ok 0, { s with bound := s.bound ||| args.bitmap })
  else (.error .invalidParameters, s)

def handleNotificationUnbind (s : State) (args : Args) : Reply × State :=
  if args.a2 ≠ 0 ∨ args.a5 ≠ 0 ∨ args.a6 ≠ 0 ∨ args.a7 ≠ 0 then (.error .invalidParameters, s)
  else if s.owned (dst args.a1) then
    if args.bitmap &&& s.pending ≠ 0 then (.error .denied, s)
    else (.ok 0, { s with bound := s.bound &&& ~~~args.bitmap })
  else (.error .invalidParameters, s)

def handleNotificationGet (s : State) (args : Args) : Reply × State :=
  if args.a5 ≠ 0 ∨ args.a6 ≠ 0 ∨ args.a7 ≠ 0 then (.error .invalidParameters, s)
  else if args.a2.getLsbD 0 = false then (.ok 0, s)
  else if s.owned (dst args.a1) then (.ok s.pending, { s with pending := 0 })
  else (.error .invalidParameters, s)

def setAsyncNotifIntid (s : State) (intid : BitVec 32) : State :=
  { s with intid := intid, isReady := true }

def enableAsyncNotif (s : State) (bottomHalfValue : BitVec 32) : State :=
  if s.isReady then { s with doBottomHalfValue := bottomHalfValue } else s

def NOTIF_VALUE_DO_BOTTOM_HALF : BitVec 32 := 0

/-- A failed `assert()`, or a shift past the width. -/
inductive Fault where
  | assertion
  | shift

def notifSendAsync (s : State) (value : BitVec 32) : Except Fault State :=
  if value = NOTIF_VALUE_DO_BOTTOM_HALF ∧ s.isReady ∧ 0 ≤ s.doBottomHalfValue.toInt
    ∧ 0 ≤ s.intid.toInt then
    if s.doBottomHalfValue.toNat < 64 then
      .ok { s with pending := s.pending ||| BitVec.twoPow 64 s.doBottomHalfValue.toNat }
    else .error .shift
  else .error .assertion

inductive Event where
  | bitmapCreate (args : Args)
  | bitmapDestroy (args : Args)
  | bind (args : Args)
  | unbind (args : Args)
  | get (args : Args)
  | setIntid (intid : BitVec 32)
  | enable (bottomHalfValue : BitVec 32)
  | send (value : BitVec 32)

inductive Obs where
  | created (vmId : BitVec 16)
  | destroyed
  | sent (i : ℕ)
  | got (vmId : BitVec 16) (bits : BitVec 64)
  deriving DecidableEq

structure History where
  state : State
  log : List Obs

def History.init : History := ⟨.init, []⟩

def History.answered (h : History) (obs : BitVec 64 → List Obs) (r : Reply × State) : History :=
  match r.1 with
  | .ok bits => ⟨r.2, obs bits ++ h.log⟩
  | .error _ => ⟨r.2, h.log⟩

def step (h : History) : Event → Except Fault History
  | .bitmapCreate args =>
    .ok (h.answered (fun _ => [.created (dst args.a1)])
      (handleNotificationBitmapCreate h.state args))
  | .bitmapDestroy args =>
    .ok (h.answered (fun _ => [.destroyed]) (handleNotificationBitmapDestroy h.state args))
  | .bind args => .ok (h.answered (fun _ => []) (handleNotificationBind h.state args))
  | .unbind args => .ok (h.answered (fun _ => []) (handleNotificationUnbind h.state args))
  | .get args =>
    .ok (h.answered (fun bits => [.got (dst args.a1) bits]) (handleNotificationGet h.state args))
  | .setIntid intid => .ok { h with state := setAsyncNotifIntid h.state intid }
  | .enable value => .ok { h with state := enableAsyncNotif h.state value }
  | .send value => do
    let s ← notifSendAsync h.state value
    return ⟨s, .sent h.state.doBottomHalfValue.toNat :: h.log⟩

end Optee.Notif
