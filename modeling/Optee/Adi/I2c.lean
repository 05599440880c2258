import Optee.Adi.Twi
import Optee.Lib.Bytes

/-!
# The I2C pseudo TA

`core/pta/adi/i2c/i2c.c`. A request names a bus, a slave and a register address, which a table must
have an entry for, and how many bytes of the address, how many bytes of data and at what speed to
send. Neither the size of the parameters nor that of the data buffer is compared with anything.
-/

namespace Optee.I2c

open Twi

/-- `TA_ADI_I2C_GET`, `TA_ADI_I2C_SET` and `TA_ADI_I2C_SET_GET` -/
inductive Cmd where
  | get
  | set
  | setGet

/-- `i2c_params_t`, of values of type `uint64_t`. -/
structure I2cParams where
  bus : ℕ
  slave : ℕ
  address : ℕ
  length : ℕ
  setBytes : ℕ
  getBytes : ℕ
  speed : ℕ

/-- The size of `i2c_params_t`. -/
def sizeofI2cParams : ℕ := 56

def I2cParams.ofBytes (bytes : List UInt8) : I2cParams :=
  let field (i : ℕ) := ofLeBytes ((bytes.drop (8 * i)).take 8)
  ⟨field 0, field 1, field 2, field 3, field 4, field 5, field 6⟩

/-- `init_i2c_params`: the bytes of `params[0]` are copied over those of the last request, or over
what stands behind them. -/
def initI2cParams (last params : List UInt8) : Option I2cParams :=
  if sizeofI2cParams < params.length then none
  else some (.ofBytes (params ++ last.drop params.length))

/-- `i2c_entry_t` -/
structure I2cEntry where
  bus : ℕ
  slave : ℕ
  address : ℕ
  read : Bool
  write : Bool
  writeRead : Bool

def I2cEntry.allows (e : I2cEntry) : Cmd → Bool
  | .get => e.read
  | .set => e.write
  | .setGet => e.writeRead

def i2cSpeedMin : ℕ := 21 * 1000

def i2cSpeedMax : ℕ := 400 * 1000

def adiI2cMaxBytes : ℕ := 256

def adiI2cGetCurrentEntry (table : List I2cEntry) (p : I2cParams) : Option I2cEntry :=
  table.find? fun e => p.bus = e.bus && p.slave = e.slave && p.address = e.address

def adiI2cVerifyAccess (table : List I2cEntry) (p : I2cParams) (cmd : Cmd) : Bool :=
  match adiI2cGetCurrentEntry table p with
  | none => false
  | some e => e.allows cmd

/-- `adi_i2c_check_params`, where `typesOk` says that the parameter types are those of the
command. -/
def adiI2cCheckParams (table : List I2cEntry) (p : I2cParams) (cmd : Cmd) (typesOk : Bool) : Bool :=
  typesOk && adiI2cVerifyAccess table p cmd && i2cSpeedMin ≤ p.speed && p.speed ≤ i2cSpeedMax
    && p.setBytes ≤ adiI2cMaxBytes && p.getBytes ≤ adiI2cMaxBytes

inductive Result where
  | success
  | badParameters
  | generic

/-- What a request has led to: its result, if it has ended, the transfer, if one was started, and
what was copied to the caller's buffer from its start on. -/
structure Reply where
  result : Option Result
  transfer : Option Transfer
  out : List UInt8

def Cmd.flags : Cmd → I2cM
  | .get => .read
  | .set => .write
  | .setGet => .readCombo

def Cmd.writeLen (cmd : Cmd) (p : I2cParams) : ℕ :=
  match cmd with
  | .get => 0
  | _ => p.setBytes

def Cmd.readLen (cmd : Cmd) (p : I2cParams) : ℕ :=
  match cmd with
  | .set => 0
  | _ => p.getBytes

/-- `params[0]`, the caller's data buffer, and whether the parameter types are right. -/
structure Request where
  typesOk : Bool
  params : List UInt8
  client : List UInt8

/-- The controller, what stands behind the caller's buffer and the memory that `malloc` returns. -/
structure Env where
  controller : Controller
  beyond : ℕ → UInt8
  heap : Option (ℕ → UInt8)

/-- The byte at an offset from the start of the caller's buffer. -/
def Env.byteAt (env : Env) (client : List UInt8) (i : ℕ) : UInt8 :=
  client.getD i (env.beyond (i - client.length))

/-- `i2c_set`, `i2c_get` and `i2c_set_get` up to a round of the wait for the controller. -/
def i2cXfer (env : Env) (rounds : ℕ) (p : I2cParams) (cmd : Cmd) (client : List UInt8) : Reply :=
  match env.heap with
  | none => ⟨some .generic, none, []⟩
  | some heap =>
    let buf i := if i < cmd.writeLen p then env.byteAt client i else heap i
    if p.bus ≠ 0 then ⟨some .generic, none, []⟩
    else if adiTwiI2cInit env.controller = .negative then ⟨some .generic, none, []⟩
    else
      let (ret, transfer) := adiTwiI2cXfer env.controller rounds cmd.flags p.slave p.address
        p.length (some buf) (cmd.writeLen p) (cmd.readLen p)
      match ret with
      | none => ⟨none, transfer, []⟩
      | some .negative => ⟨some .generic, transfer, []⟩
      | some _ =>
        let buf := (transfer.map (·.xfer.buf)).getD buf
        ⟨some .success, transfer, (List.range (cmd.readLen p)).map buf⟩

/-- `invoke_command`: nothing is said of a request that writes behind `i2c_params`. -/
def i2cCommand (table : List I2cEntry) (last : List UInt8) (env : Env) (rounds : ℕ) (cmd : Cmd)
    (req : Request) : Option Reply :=
  (initI2cParams last req.params).map fun p =>
    if adiI2cCheckParams table p cmd req.typesOk then i2cXfer env rounds p cmd req.client
    else ⟨some .badParameters, none, []⟩

end Optee.I2c
