import Optee.Fault
import Optee.HtreeRun
import Optee.Util

/-!
# A file of the normal world

The part of `core/tee/tee_ree_fs.c` that works on one open file. Every header, node and block
written is one step, and so is the truncation of the file of the normal world. A failed access to a
block and a failed sync close the tree and leave a null pointer in the handle.
-/

namespace Optee.ReeFs

open Htree

def blockSize : ℕ := 4096

structure RootHash where
  bytes : ByteVec 32
  blocks : List (ByteVec blockSize)
  length : ℕ

variable (C : Crypto)

/-! ## Where things lie in the file -/

inductive HtreeType where
  | head
  | node
  | block

/-- The sizes of `struct tee_fs_htree_node_image` and `struct tee_fs_htree_image`. -/
def nodeSize : ℕ := 66

def imageSize : ℕ := 68

def getOffsSize (type : HtreeType) (idx : ℕ) (vers : Bool) : ℕ × ℕ :=
  let blockNodes := blockSize / (nodeSize * 2)
  match type with
  | .head => (imageSize * vers.toNat, imageSize)
  | .node =>
    let pbn := 1 + idx / blockNodes * blockNodes * 2
    (pbn * blockSize + 2 * nodeSize * (idx % blockNodes) + nodeSize * vers.toNat, nodeSize)
  | .block =>
    let bidx := 2 * idx + vers.toNat
    let pbn := 2 + bidx + bidx / (blockNodes * 2 - 1)
    (pbn * blockSize, blockSize)

/-- The element lies in the first `size` bytes. -/
def fits (size : ℕ) (type : HtreeType) (idx : ℕ) (vers : Bool) : Bool :=
  (getOffsSize type idx vers).1 + (getOffsSize type idx vers).2 ≤ size

/-- The file cut to its first `size` bytes. -/
def truncateStorage (S : Storage) (size : ℕ) : Storage where
  head v := if fits size .head 0 v then S.head v else none
  node i v := if fits size .node i v then S.node i v else none
  block i v := if fits size .block i v then S.block i v else none

/-! ## The tree of an open file -/

/-- The handle as the functions on one file see it, the data last written to each block, and the
file of the normal world. -/
structure FileState where
  ht : Option TeeFsHtree
  hash : RootHash
  blocks : List (ByteVec blockSize)
  file : Storage
  oracle : Oracle

abbrev FileM := Prog FileState TeeError Stop

namespace FileM

def liftOracle {α : Type} (m : OracleM α) : FileM α :=
  Prog.zoom FileState.oracle (fun o s => { s with oracle := o }) id m

def setHt (ht : Option TeeFsHtree) : FileM Unit := Prog.modify fun s => { s with ht := ht }

def setBlocks (blocks : List (ByteVec blockSize)) : FileM Unit :=
  Prog.modify fun s => { s with blocks := blocks }

def setHash (hash : RootHash) : FileM Unit := Prog.modify fun s => { s with hash := hash }

def rpcWrites : List Write → FileM Unit
  | [] => pure ()
  | w :: ws => do
    liftOracle tick
    Prog.modify fun s => { s with file := s.file.write w }
    rpcWrites ws

def orClose {α : Type} (m : FileM α) : FileM α := do
  match ← Prog.attempt m with
  | .ok a => pure a
  | .error e =>
    setHt none
    Prog.throw e

def checkHt : FileM TeeFsHtree := do
  let s ← Prog.get
  match s.ht with
  | none => Prog.throw .corruptObject
  | some ht => pure ht

/-- `tee_fs_htree_get_meta(fdp->ht)->length`. -/
def getLength : FileM ℕ := do
  let s ← Prog.get
  match s.ht with
  | none => Prog.halt .nullPointer
  | some ht => pure ht.imeta.fileMeta.length.toNat

/-- `meta->length` is set, and `tee_fs_htree_meta_set_dirty`. -/
def setLength (length : ℕ) : FileM Unit := do
  let s ← Prog.get
  match s.ht with
  | none => Prog.halt .nullPointer
  | some ht => setHt (teeFsHtreeMetaSetDirty (teeFsHtreeSetMeta ht ⟨BitVec.ofNat 64 length⟩))

/-- `tee_fs_htree_open` of a new file. -/
def htreeCreate (uuid : Uuid) : FileM Unit := do
  liftOracle tickAlloc
  let fek ← liftOracle draw
  let rnd ← liftOracle draw
  let (ht, ws) := teeFsHtreeCreate C (some uuid) 0 fek rnd
  rpcWrites ws
  setHt ht
  setHash ⟨ht.rootNode.hash, [], 0⟩

def htreeWriteBlock (blockNum : ℕ) (block : ByteVec blockSize) : FileM Unit := do
  let ht ← checkHt
  orClose do
    liftOracle tickAlloc
    let rnd ← liftOracle draw
    let (ht, ws) ← Prog.ofTeeResult (teeFsHtreeWriteBlock C ht blockNum block.toList rnd)
    rpcWrites ws
    setHt ht
  let s ← Prog.get
  setBlocks (writeContents s.blocks blockNum block)

def htreeReadBlock (blockNum : ℕ) : FileM (ByteVec blockSize) := do
  let ht ← checkHt
  orClose do
    let s ← Prog.get
    liftOracle tick
    let p ← Prog.ofTeeResult (teeFsHtreeReadBlock C blockSize s.file ht blockNum)
    if h : p.length = blockSize then pure (.ofList p h) else Prog.throw .generic

def htreeTruncate (blockNum : ℕ) : FileM Unit := do
  let ht ← checkHt
  let ht ← Prog.ofTeeResult (teeFsHtreeTruncate ht blockNum)
  setHt ht
  let s ← Prog.get
  setBlocks (s.blocks.take (blockNum + 1))

/-! ## Bytes -/

def posToBlockNum (position : ℕ) : ℤ := (BitVec.ofNat 32 position).toInt / blockSize

/-- An `int` converted to `size_t`. -/
def toSize (i : ℤ) : ℕ := (i % 2 ^ 64).toNat

/-- How many bytes of a block an access covers. -/
def chunk (pos remain : ℕ) : ℕ :=
  let size := min remain blockSize
  if blockSize < size + pos % blockSize then blockSize - pos % blockSize else size

/-- The block that `out_of_place_write` starts from. -/
def oldBlock (blockNum length : ℕ) : FileM (ByteVec blockSize) :=
  if blockNum * blockSize < roundup blockSize length then htreeReadBlock C blockNum
  else pure (ByteVec.zero blockSize)

/-- The loop of `out_of_place_write`, to its last position. A buffer of the user may not be
readable. -/
def outOfPlaceWriteLoop (user : Bool) :
    (count blockNum pos : ℕ) → (data : List UInt8) → FileM ℕ
  | 0, _, pos, _ => pure pos
  | count + 1, blockNum, pos, data => do
    let size := chunk pos data.length
    let length ← getLength
    let block ← oldBlock C blockNum length
    Prog.when user (liftOracle tick)
    htreeWriteBlock C blockNum (block.patch (pos % blockSize) (data.take size))
    outOfPlaceWriteLoop user count (blockNum + 1) (pos + size) (data.drop size)

/-- `out_of_place_write`, with zeros for a null buffer. -/
def outOfPlaceWrite (pos : ℕ) (data : List UInt8) (user : Bool) : FileM Unit := do
  let startBlockNum := toSize (posToBlockNum pos)
  let endBlockNum := toSize (posToBlockNum (pos + data.length - 1))
  if data.length = 0 then
    Prog.throw .badParameters
  else
    liftOracle tickAlloc
    let pos ← outOfPlaceWriteLoop C user (endBlockNum + 1 - startBlockNum) startBlockNum pos data
    let length ← getLength
    Prog.when (length < pos) (setLength pos)

def reeFsFtruncateInternal (newFileLen : ℕ) : FileM Unit := do
  let length ← getLength
  if length < newFileLen then
    outOfPlaceWrite C length (List.replicate (newFileLen - length) 0) false
  else
    let (offs, sz) := getOffsSize .block (roundup blockSize newFileLen / blockSize) true
    htreeTruncate (newFileLen / blockSize)
    liftOracle tick
    Prog.modify fun s => { s with file := truncateStorage s.file (offs + sz) }
    setLength newFileLen

end FileM

end Optee.ReeFs
