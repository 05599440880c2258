import Optee.Lib.Bytes
import Optee.Otp

/-!
# MAC addresses in OTP memory

The pseudo TA of `core/pta/adi/otp_macs.c` with `core/drivers/adi/adrv906x/adi_adrv906x_otp.c`. Each
address is kept three times, in two registers, and the power may be cut after any register. A MAC
address is the number whose bytes, the lowest one first, are those of `mac`.
-/

namespace Optee.OtpMacs

open Otp

def MAC_ADDRESS_NUM_REGS : ℕ := 2

def MAC_ADDRESS_NUM_COPIES : ℕ := 3

def NUM_MAC_ADDRESSES : ℕ := 6

def OTP_MAC_ADDRESSES_BASE : ℕ :=
  OTP_ROLLBACK_COUNTER_BASE + ROLLBACK_COUNTER_NUM_COPIES * ROLLBACK_COUNTER_NUM_REGS

def macAddr (macNumber n : ℕ) : ℕ :=
  OTP_MAC_ADDRESSES_BASE + (macNumber - 1) * MAC_ADDRESS_NUM_REGS * MAC_ADDRESS_NUM_COPIES
    + n * MAC_ADDRESS_NUM_REGS

def getMacAddrN (mem : Mem) (macNumber n : ℕ) : ℕ :=
  mem (macAddr macNumber n) % 2 ^ 32 ||| (mem (macAddr macNumber n + 1) % 2 ^ 16) <<< 32

/-- `adrv906x_otp_get_mac_addr`. `get_most_common_mac` is `get_most_common_value` on addresses. -/
def getMacAddr (mem : Mem) (macNumber : ℕ) : Option ℕ :=
  if macNumber = 0 ∨ NUM_MAC_ADDRESSES < macNumber then none
  else
    let (mac, unique) :=
      getMostCommonValue ((List.range MAC_ADDRESS_NUM_COPIES).map (getMacAddrN mem macNumber))
    if unique then some mac else none

/-- What `adrv906x_otp_set_mac_addr` programs. -/
def macWrites (macNumber mac : ℕ) : List (ℕ × ℕ) :=
  (List.range MAC_ADDRESS_NUM_COPIES).flatMap fun n =>
    [(macAddr macNumber n, mac % 2 ^ 32), (macAddr macNumber n + 1, mac >>> 32)]

inductive Cmd where
  | read
  | write
  | other
  deriving DecidableEq

structure Request where
  cmd : Cmd
  typesOk : Bool
  interface : BitVec 32
  a : BitVec 32
  b : BitVec 32
  cut : Option ℕ

/-- `uint8_t interface`. -/
def Request.number (r : Request) : ℕ := r.interface.toNat % 2 ^ 8

/-- The address in the parameters of `otp_macs_write_handler`. -/
def Request.mac (r : Request) : ℕ :=
  ofLeBytes ((leBytes 2 r.a.toNat).reverse ++ (leBytes 4 r.b.toNat).reverse)

inductive Reply where
  | badParameters
  | generic
  | value (a b : ℕ)
  | written

def otpMacsCheckParams (r : Request) : Bool :=
  r.typesOk && !(r.number = 0 || NUM_MAC_ADDRESSES < r.number)

def otpMacsReadHandler (mem : Mem) (r : Request) : Reply :=
  match getMacAddr mem r.number with
  | none => .generic
  | some mac =>
    .value (ofLeBytes ((leBytes 6 mac).take 2).reverse) (ofLeBytes ((leBytes 6 mac).drop 2).reverse)

def otpMacsWriteHandler (mem : Mem) (r : Request) : Mem × Option Reply :=
  match getMacAddr mem r.number with
  | some 0 =>
    match r.cut with
    | none => ((macWrites r.number r.mac).foldl program mem, some .written)
    | some k => (((macWrites r.number r.mac).take k).foldl program mem, none)
  | _ => (mem, some .generic)

def invokeCommand (mem : Mem) (r : Request) : Mem × Option Reply :=
  if r.cmd = .other ∨ otpMacsCheckParams r = false then (mem, some .badParameters)
  else if r.cmd = .read then (mem, some (otpMacsReadHandler mem r))
  else otpMacsWriteHandler mem r

def step (mem : Mem) (r : Request) : Except Empty Mem := .ok (invokeCommand mem r).1

end Optee.OtpMacs
