import Mathlib.Data.List.Basic
import Mathlib.Algebra.Group.Nat.Defs
import Mathlib.Data.Nat.Basic
import Mathlib.Logic.Function.Basic

/-!
# The I2C driver

`core/drivers/adi/adi_twi_i2c.c`. A transfer sends the address of a device and the bytes that are
written to `TWI_TXDATA8`, and receives bytes into the buffer that holds the bytes to be written.
The controller is polled: each round of the loop that waits reads `TWI_ISTAT` once, and the loop
need not end.
-/

namespace Optee.Twi

/-- The `flags` of a transfer. -/
inductive I2cM where
  | write
  | read
  | readCombo
  deriving DecidableEq

/-- A read of `TWI_ISTAT`, the byte in `TWI_RXDATA8`, and whether the timeout has elapsed after the
round. -/
structure Poll where
  txserv : Bool
  rxserv : Bool
  merr : Bool
  mcomp : Bool
  rxdata : UInt8
  elapsed : Bool

/-- Whether the registers can be mapped, the controller is enabled and the bus becomes idle in
time, and what the polls find. -/
structure Controller where
  mapped : Bool
  enabled : Bool
  idle : Bool
  polls : ℕ → Poll

/-- A transfer under way: what was sent, the address bytes left, the buffer with the place and the
number of the bytes that are left to be written, and of those that are left to be read. -/
structure Xfer where
  sent : List UInt8
  addrBuf : List UInt8
  buf : ℕ → UInt8
  writeOffs : ℕ
  writeDataLen : ℕ
  readOffs : ℕ
  readDataLen : ℕ

/-- The next byte is written to `TWI_TXDATA8`. -/
def Xfer.push (x : Xfer) : Xfer :=
  match x.addrBuf with
  | b :: addrBuf => { x with sent := x.sent ++ [b], addrBuf := addrBuf }
  | [] =>
    if x.writeDataLen = 0 then x
    else { x with
      sent := x.sent ++ [x.buf x.writeOffs]
      writeOffs := x.writeOffs + 1
      writeDataLen := x.writeDataLen - 1 }

/-- `TWI_RXDATA8` is read into the buffer. -/
def Xfer.receive (x : Xfer) (b : UInt8) : Xfer :=
  if x.readDataLen = 0 then x
  else { x with
    buf := Function.update x.buf x.readOffs b
    readOffs := x.readOffs + 1
    readDataLen := x.readDataLen - 1 }

/-- How the loop of `wait_for_completion` is left. -/
inductive Ending where
  | unexpected
  | error
  | complete
  | timeout
  deriving DecidableEq

/-- A round of the loop of `wait_for_completion`. -/
def waitRound (flags : I2cM) (x : Xfer) (p : Poll) : Xfer × Option Ending :=
  if p.txserv ∧ flags = .read then (x, some .unexpected)
  else
    let x := if p.txserv then x.push else x
    if p.rxserv ∧ flags = .write then (x, some .unexpected)
    else
      let x := if p.rxserv then x.receive p.rxdata else x
      if p.merr then (x, some .error)
      else if p.mcomp ∧ ¬(flags = .readCombo ∧ x.readDataLen ≠ 0) then (x, some .complete)
      else if p.elapsed then (x, some .timeout)
      else (x, none)

/-- `wait_for_completion` up to the given round. -/
def waitForCompletion (flags : I2cM) (polls : ℕ → Poll) (x : Xfer) : ℕ → Xfer × Option Ending
  | 0 => (x, none)
  | n + 1 =>
    match waitForCompletion flags polls x n with
    | (x, some ending) => (x, some ending)
    | (x, none) => waitRound flags x (polls n)

/-- What the callers see: an error is negative as an `int`, but `-TEE_ERROR_BAD_PARAMETERS` is
not. -/
inductive Ret where
  | success
  | negative
  | negatedBadParameters
  deriving DecidableEq

/-- A transfer that was started, and how it has ended, if it has. -/
structure Transfer where
  devAddr : ℕ
  flags : I2cM
  xfer : Xfer
  ending : Option Ending

/-- `addr` in `addr_len` bytes, most significant first. -/
def addrBytes (addr addrLen : ℕ) : List UInt8 :=
  (List.range addrLen).map fun i => UInt8.ofNat (addr / 256 ^ (addrLen - 1 - i))

def maxAddrBytes : ℕ := 2

/-- The checks of the lengths, which differ between the operations. -/
def lengthsInvalid (flags : I2cM) (writeDataLen readDataLen : ℕ) : Bool :=
  match flags with
  | .write => readDataLen ≠ 0 || writeDataLen = 0
  | .read => readDataLen = 0 || writeDataLen ≠ 0
  | .readCombo => readDataLen = 0 || writeDataLen = 0

/-- `adi_twi_i2c_xfer` up to a round of the loop that waits: what it returns, if it has returned,
and the transfer, if it has started one. `data` is `none` for a null pointer. -/
def adiTwiI2cXfer (c : Controller) (rounds : ℕ) (flags : I2cM) (devAddr addr addrLen : ℕ)
    (data : Option (ℕ → UInt8)) (writeDataLen readDataLen : ℕ) : Option Ret × Option Transfer :=
  let devAddr := devAddr % 2 ^ 8
  let addr := addr % 2 ^ 32
  let addrLen := addrLen % 2 ^ 32
  let writeDataLen := writeDataLen % 2 ^ 32
  let readDataLen := readDataLen % 2 ^ 32
  if lengthsInvalid flags writeDataLen readDataLen then (some .negatedBadParameters, none)
  else if 0x7F < devAddr then (some .negative, none)
  else if maxAddrBytes < addrLen then (some .negative, none)
  else
    match data with
    -- one of the lengths is not 0
    | none => (some .negative, none)
    | some buf =>
      if ¬c.enabled then (some .negative, none)
      else if ¬c.idle then (some .negative, none)
      else
        let flags := if flags = .read ∧ addrLen ≠ 0 then .readCombo else flags
        let x := Xfer.push ⟨[], addrBytes addr addrLen, buf, 0, writeDataLen, 0, readDataLen⟩
        let (x, ending) := waitForCompletion flags c.polls x rounds
        let ret := (x.writeDataLen + x.readDataLen) % 2 ^ 32
        (ending.map fun _ => if ret = 0 then .success else .negative,
          some ⟨devAddr, flags, x, ending⟩)

def adiTwiI2cInit (c : Controller) : Ret := if c.mapped then .success else .negative

end Optee.Twi
