import Optee.Lib.TwoStepLock

/-!
# The runtime log

`core/arch/arm/plat-adi/runtime_log.c`, and the text that `get_runtime_logs` of
`core/pta/adi/runtime_log.c` delivers. Each load and store of a variable is a step of its own. A
message is the memory it lies in, which the loop reads up to the first zero.
-/

namespace Optee.RuntimeLog

open Access

def SIZE_OF_OPTEE_RUNTIME_BUFFER : ℕ := 500

def GROUP_SEPARATOR : UInt8 := 0x1D

structure Shared where
  bufferLength : ℤ
  readIndex : ℤ
  runtimeLog : ℤ → UInt8
  writeIndex : ℤ

variable {α : Type}

def writeCharToBuffer (write : UInt8) (k : Access Shared α) : Access Shared α :=
  get (·.bufferLength) fun length =>
  if length = SIZE_OF_OPTEE_RUNTIME_BUFFER then k
  else
    get (·.writeIndex) fun i =>
    .store (fun s => { s with runtimeLog := Function.update s.runtimeLog i write }) <|
    get (·.bufferLength) fun length =>
    .store (fun s => { s with bufferLength := length + 1 }) <|
    get (·.writeIndex) fun i =>
    .store (fun s => { s with writeIndex := i + 1 }) <|
    get (·.writeIndex) fun i =>
    if i = SIZE_OF_OPTEE_RUNTIME_BUFFER then .store (fun s => { s with writeIndex := 0 }) k else k

def readCharFromBuffer (k : UInt8 → Access Shared α) : Access Shared α :=
  get (·.readIndex) fun i =>
  get (·.runtimeLog i) fun read =>
  get (·.readIndex) fun i =>
  .store (fun s => { s with readIndex := i + 1 }) <|
  get (·.bufferLength) fun length =>
  .store (fun s => { s with bufferLength := length - 1 }) <|
  get (·.readIndex) fun i =>
  if i = SIZE_OF_OPTEE_RUNTIME_BUFFER then .store (fun s => { s with readIndex := 0 }) (k read)
  else k read

/-- The loop of `write_to_runtime_buffer`. -/
def writeMessage : List UInt8 → Access Shared (List UInt8)
  | [] => writeCharToBuffer GROUP_SEPARATOR (.done [])
  | c :: message =>
    if c = 0 then writeCharToBuffer GROUP_SEPARATOR (.done [])
    else writeCharToBuffer c (writeMessage message)

/-- The loop of `read_from_runtime_buffer`, with the room left and what is in the buffer of the
caller. -/
def readLoop (k : List UInt8 → Access Shared α) : ℕ → List UInt8 → Access Shared α
  | 0, message => get (·.readIndex) fun _ => get (·.writeIndex) fun _ => k message
  | room + 1, message =>
    get (·.readIndex) fun r =>
    get (·.writeIndex) fun w =>
    if r = w then k message else readCharFromBuffer fun c => readLoop k room (message ++ [c])

/-- The call of `memset`, from the end of the buffer. -/
def clearLog (k : Access Shared α) : ℕ → Access Shared α
  | 0 => k
  | i + 1 =>
    .store (fun s => { s with runtimeLog := Function.update s.runtimeLog i 0 }) (clearLog k i)

/-- The end of `read_from_runtime_buffer`. -/
def clearBuffer (message : List UInt8) : Access Shared (List UInt8) :=
  (clearLog · SIZE_OF_OPTEE_RUNTIME_BUFFER) <|
  get (·.writeIndex) fun w =>
  .store (fun s => { s with readIndex := w }) <|
  .store (fun s => { s with bufferLength := 0 }) (.done message)

inductive Op where
  | write (message : List UInt8)
  | read (size : ℤ)
  deriving DecidableEq

/-- What `write_to_runtime_buffer` and `read_from_runtime_buffer` do with the lock. -/
def body : Op → Access Shared (List UInt8)
  | .write message => writeMessage message
  | .read size => readLoop clearBuffer size.toNat []

def cleared : Shared := ⟨0, 0, fun _ => 0, 0⟩

abbrev State (n : ℕ) := Locked n Shared (List UInt8) Op

/-- What `get_runtime_logs` copies, from an array of zeros, `none` where `strlen` passes its end. -/
def delivered (message : List UInt8) : Option (List UInt8) :=
  let log := message ++ List.replicate (SIZE_OF_OPTEE_RUNTIME_BUFFER - message.length) 0
  if 0 ∈ log then some (log.takeWhile (· ≠ 0)) else none

end Optee.RuntimeLog
