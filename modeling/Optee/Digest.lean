import Optee.Result
import Mathlib.Data.List.Basic
import Mathlib.Logic.Function.Basic

/-!
# Digest operations

`lib/libutee/tee_api_operations.c` for digests of fixed length, with the calls of
`core/tee/tee_svc_cryp.c` that it makes. What the core computes from a context that is final already
is not specified.
-/

namespace Optee.Digest

structure Algorithm where
  digestLength : ℕ
  hash : List UInt8 → List UInt8
  stale : List UInt8
  length_hash : ∀ m, (hash m).length = digestLength

/-- A hash context of the core. -/
inductive Context where
  | updated (data : List UInt8)
  | final

inductive OperationState where
  | initial
  | active
  | extracting
  deriving DecidableEq

/-- `struct __TEE_OperationHandle`. Of `handleState` it has `TEE_HANDLE_FLAG_EXTRACTING`, as the
flags for the key and for initialisation are always set for digests. -/
structure Operation where
  algorithm : ℕ
  extracting : Bool
  operationState : OperationState
  buffer : List UInt8
  bufferOffs : ℕ
  state : Context

inductive Answer where
  | done
  | bytes (hash : List UInt8)
  | shortBuffer (hashLen : ℕ)
  deriving DecidableEq

variable (D : ℕ → Algorithm)

def Operation.blockSize (op : Operation) : ℕ := (D op.algorithm).digestLength

def allocateOperation (algorithm : ℕ) : Operation :=
  ⟨algorithm, false, .initial, List.replicate (D algorithm).digestLength 0, 0, .updated []⟩

def Context.update (chunk : List UInt8) : Context → Context
  | .updated data => .updated (data ++ chunk)
  | .final => .final

def Context.digest (a : Algorithm) : Context → List UInt8
  | .updated data => a.hash data
  | .final => a.stale

/-- `syscall_hash_final`, which looks at the length before it takes the data. -/
def hashFinal (op : Operation) (chunk : List UInt8) (hashLen : ℕ) : Answer × Context :=
  if hashLen < op.blockSize D then (.shortBuffer (op.blockSize D), op.state)
  else (.bytes ((op.state.update chunk).digest (D op.algorithm)), .final)

def initHashOperation (op : Operation) : Operation :=
  { op with state := .updated [], bufferOffs := 0 }

def digestUpdate (op : Operation) (chunk : List UInt8) : Operation :=
  { op with operationState := .active, state := op.state.update chunk }

/-- The bytes that are copied from the buffer. -/
def Operation.buffered (op : Operation) (hashLen : ℕ) : List UInt8 :=
  (op.buffer.drop op.bufferOffs).take (min (op.blockSize D - op.bufferOffs) hashLen)

def digestDoFinal (op : Operation) (chunk : List UInt8)
    (hashLen : ℕ) : TeeResult (Operation × Answer) :=
  if op.operationState = .extracting ∧ chunk ≠ [] then .error .badParameters
  else if op.operationState = .extracting then
    .ok ({ initHashOperation op with operationState := .initial }, .bytes (op.buffered D hashLen))
  else
    match hashFinal D op chunk hashLen with
    | (.bytes hash, _) =>
      .ok ({ initHashOperation op with operationState := .initial }, .bytes hash)
    | (answer, state) => .ok ({ op with state := state }, answer)

/-- `TEE_DigestExtract` once the buffer holds the digest. -/
def extractBuffered (op : Operation) (hashLen : ℕ) : Operation × Answer :=
  ({ op with bufferOffs := op.bufferOffs + min (op.blockSize D - op.bufferOffs) hashLen },
    .bytes (op.buffered D hashLen))

def digestExtract (op : Operation) (hashLen : ℕ) : TeeResult (Operation × Answer) := do
  if op.operationState = .extracting then
    .ok (extractBuffered D op hashLen)
  else
    let digest := op.state.digest (D op.algorithm)
    assert (op.bufferOffs = 0)
    .ok (extractBuffered D { op with
      buffer := digest
      state := .final
      extracting := true
      operationState := .extracting } hashLen)

def resetOperation (op : Operation) : Operation :=
  { op with operationState := .initial, state := .updated [] }

/-- `TEE_CopyOperation`, which panics with code 0 for another algorithm. -/
def copyOperation (dst src : Operation) : TeeResult Operation :=
  if dst.algorithm ≠ src.algorithm then .error .generic
  else .ok { src with algorithm := dst.algorithm }

inductive Request where
  | update (chunk : List UInt8)
  | extract (hashLen : ℕ)
  | doFinal (chunk : List UInt8) (hashLen : ℕ)
  | reset

def Operation.request (op : Operation) : Request → TeeResult (Operation × Answer)
  | .update chunk => .ok (digestUpdate op chunk, .done)
  | .extract hashLen => digestExtract D op hashLen
  | .doFinal chunk hashLen => digestDoFinal D op chunk hashLen
  | .reset => .ok (resetOperation op, .done)

inductive Call (ι : Type) where
  | on (i : ι) (r : Request)
  | copy (dst src : ι)

variable {ι : Type} [DecidableEq ι]

def step (ops : ι → Operation) : Call ι → TeeResult ((ι → Operation) × Answer)
  | .on i r => do
    let (op, answer) ← (ops i).request D r
    .ok (Function.update ops i op, answer)
  | .copy dst src => do
    let op ← copyOperation (ops dst) (ops src)
    .ok (Function.update ops dst op, .done)

end Optee.Digest
