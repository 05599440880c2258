import Optee.Lib.Run
import Optee.Htree

/-!
# Runs on one file

A client of the hash tree writes blocks in order, cuts blocks off, changes the meta data and
synchronises. A run keeps, next to the storage and the handle, the data last written to each block,
every handle that a sync returned and every seal of a block.
-/

namespace Optee.Htree

open BinTree

/-- Steps of a client, which marks the meta data dirty as `ree_fs_ftruncate_internal` does. A write
and a sync draw an IV. -/
inductive Op (blockSize : ℕ) where
  | writeBlock (blockNum : ℕ) (data : ByteVec blockSize) (rnd : ByteVec 16)
  | truncate (blockNum : ℕ)
  | setMeta (fileMeta : FileMeta)
  | sync (rnd : ByteVec 16)

/-- What `authenc_encrypt_final` is given. -/
structure Seal where
  key : ByteVec 16
  iv : ByteVec 16
  aad : List UInt8
  plain : List UInt8

def AuthencCtx.seal (ctx : AuthencCtx) (plain : List UInt8) : Seal :=
  ⟨ctx.key, ctx.iv, ctx.aad, plain⟩

structure RunState (blockSize : ℕ) where
  storage : Storage
  handle : TeeFsHtree
  /-- The data last written to each block. -/
  contents : List (ByteVec blockSize)
  /-- The handle after each sync, the last sync first. -/
  synced : List TeeFsHtree
  /-- Every seal of a block, the last first. -/
  sealed : List Seal

def writeContents {α : Type} (contents : List α) (blockNum : ℕ) (data : α) : List α :=
  if blockNum < contents.length then contents.set blockNum data else contents ++ [data]

variable (C : Crypto) {blockSize : ℕ}

/-- The state after `tee_fs_htree_open` with `create`. -/
def RunState.create (blockSize : ℕ) (uuid : Option Uuid) (minCounter : BitVec 32)
    (fek rnd : ByteVec 16) : RunState blockSize :=
  let (ht, ws) := teeFsHtreeCreate C uuid minCounter fek rnd
  { storage := (Storage.empty blockSize).writes ws, handle := ht, contents := [], synced := [ht],
    sealed := [] }

def RunState.step (s : RunState blockSize) : Op blockSize → TeeResult (RunState blockSize)
  | .writeBlock b data rnd => do
    let (ht, ws) ← teeFsHtreeWriteBlock C s.handle b data.toList rnd
    .ok { s with
      storage := s.storage.writes ws, handle := ht, contents := writeContents s.contents b data,
      sealed := (authencInit .encrypt rnd s.handle (some .zero)).seal data.toList :: s.sealed }
  | .truncate b => do
    let ht ← teeFsHtreeTruncate s.handle b
    .ok { s with handle := teeFsHtreeMetaSetDirty ht, contents := s.contents.take (b + 1) }
  | .setMeta m => .ok { s with handle := teeFsHtreeMetaSetDirty (teeFsHtreeSetMeta s.handle m) }
  | .sync rnd =>
    let (ht, ws) := teeFsHtreeSyncToStorage C s.handle rnd
    .ok { s with storage := s.storage.writes ws, handle := ht, synced := ht :: s.synced }

/-- `tee_ree_fs` writes no block past the next. -/
def WritesInOrder (s : RunState blockSize) : Op blockSize → Prop
  | .writeBlock b _ _ => b ≤ s.contents.length
  | _ => True

instance (s : RunState blockSize) : (op : Op blockSize) → Decidable (WritesInOrder s op)
  | .writeBlock b _ _ => inferInstanceAs (Decidable (b ≤ _))
  | .truncate _ => isTrue trivial
  | .setMeta _ => isTrue trivial
  | .sync _ => isTrue trivial

def cutDirty (k : ℕ) : ℕ → NodeTree → Bool
  | _, .nil => true
  | i, .node n c0 c1 =>
    (decide (k < i) || decide ((BinTree.node n c0 c1).cut k i = .node n c0 c1)
        || ((BinTree.node n c0 c1).cut k i).any HtreeNode.dirty)
      && cutDirty k (2 * i) c0 && cutDirty k (2 * i + 1) c1

def TruncatesDirty (s : RunState blockSize) : Op blockSize → Prop
  | .truncate b =>
    (cutDirty (b + 1) 2 (s.handle.tree.child false)
      && cutDirty (b + 1) 3 (s.handle.tree.child true))
      = true
  | _ => True

instance (s : RunState blockSize) : (op : Op blockSize) → Decidable (TruncatesDirty s op)
  | .writeBlock _ _ _ => isTrue trivial
  | .truncate _ => inferInstanceAs (Decidable (_ = true))
  | .setMeta _ => isTrue trivial
  | .sync _ => isTrue trivial

/-! ## Transactions -/

/-- A call of `tee_fs_htree_write_block`, with the IV that it draws. -/
structure BlockWrite (blockSize : ℕ) where
  blockNum : ℕ
  data : ByteVec blockSize
  rnd : ByteVec 16

/-- A sequence of calls of `tee_fs_htree_write_block`. -/
def writeBlocks : TeeFsHtree → List (BlockWrite blockSize) → TeeResult (TeeFsHtree × List Write)
  | ht, [] => .ok (ht, [])
  | ht, w :: ws => do
    let (ht, log) ← teeFsHtreeWriteBlock C ht w.blockNum w.data.toList w.rnd
    let (ht, log') ← writeBlocks ht ws
    .ok (ht, log ++ log')

def transaction (ht : TeeFsHtree) (ws : List (BlockWrite blockSize)) (rnd : ByteVec 16) :
    TeeResult (TeeFsHtree × List Write) := do
  let (ht, log) ← writeBlocks C ht ws
  let (ht, log') := teeFsHtreeSyncToStorage C ht rnd
  .ok (ht, log ++ log')

def writeAll (contents : List (ByteVec blockSize)) (ws : List (BlockWrite blockSize)) :
    List (ByteVec blockSize) :=
  ws.foldl (fun contents w => writeContents contents w.blockNum w.data) contents

def InOrder : List (ByteVec blockSize) → List (BlockWrite blockSize) → Prop
  | _, [] => True
  | contents, w :: ws =>
    w.blockNum ≤ contents.length ∧ InOrder (writeContents contents w.blockNum w.data) ws

instance InOrder.decidable :
  (contents : List (ByteVec blockSize)) → (ws : List (BlockWrite blockSize)) →
    Decidable (InOrder contents ws)
  | _, [] => isTrue trivial
  | contents, w :: ws =>
    have := InOrder.decidable (writeContents contents w.blockNum w.data) ws
    inferInstanceAs (Decidable (_ ∧ _))

/-! ## The monotonic counter -/

def nvCounterIncrReeFsTo (nvCounter value : BitVec 32) : BitVec 32 :=
  if nvCounter < value then value else nvCounter

structure CountedRun (blockSize : ℕ) where
  run : RunState blockSize
  nvCounter : BitVec 32
  commits : ℕ

/-- The file is created as `open_dirh` does. -/
def CountedRun.create (blockSize : ℕ) (uuid : Option Uuid) (minCounter : BitVec 32)
    (fek rnd : ByteVec 16) : CountedRun blockSize where
  run := .create C blockSize uuid minCounter fek rnd
  nvCounter := minCounter
  commits := 0

/-- The counter is raised after each sync, as in `commit_dirh_writes`. It stays zero where nothing
is dirty. -/
def CountedRun.step (s : CountedRun blockSize) (op : Op blockSize) :
    TeeResult (CountedRun blockSize) := do
  let run ← s.run.step C op
  match op with
  | .sync _ =>
    let counter := if s.run.handle.dirty then run.handle.head.counter else 0
    .ok { run := run, nvCounter := nvCounterIncrReeFsTo s.nvCounter counter,
          commits := s.commits + s.run.handle.dirty.toNat }
  | _ => .ok { s with run := run }

/-! ## A sample file -/

def writeOps (count : ℕ) : List (Op 1) :=
  (List.range count).map fun i => .writeBlock i ⟨[UInt8.ofNat i], rfl⟩ (ByteVec.zero 16)

abbrev createPlain : RunState 1 := .create .plain 1 none 0 (ByteVec.zero 16) (ByteVec.zero 16)

abbrev createPlainAt (minCounter : BitVec 32) : CountedRun 1 :=
  .create .plain 1 none minCounter (ByteVec.zero 16) (ByteVec.zero 16)

abbrev touchOps : List (Op 1) := [.setMeta ⟨1⟩, .sync (ByteVec.zero 16)]

/-! ## Nodes -/

/-- `addNodes` where `calloc` has memory for some numbers, with whether it has for all. -/
def addNodesMem (mem : ℕ → Bool) : (count : ℕ) → (n : ℕ) → NodeTree → TeeResult (NodeTree × Bool)
  | 0, _, t => .ok (t, true)
  | count + 1, n, t => do
    let node ← findClosestNode t n
    if node.id = n then
      addNodesMem mem count (n + 1) t
    else
      assert (n / 2 = node.id)
      assert (t.get (pathOf n)).isNone
      if mem n then addNodesMem mem count (n + 1) (t.insert (.new n) (pathOf n)) else .ok (t, false)

/-- `get_node` with `create`: the handle, also where memory runs out. -/
def getNodeMem (mem : ℕ → Bool) (ht : TeeFsHtree) (nodeId : ℕ) : TeeResult TeeFsHtree := do
  let node ← findClosestNode ht.tree nodeId
  if node.id = nodeId then
    .ok ht
  else
    let (t, grown) ← addNodesMem mem (nodeId - node.id) (node.id + 1) ht.tree
    .ok { ht with
      tree := t
      imeta := { ht.imeta with
        maxNodeId := if grown && ht.imeta.maxNodeId < nodeId then nodeId % 2 ^ 32
        else ht.imeta.maxNodeId } }

inductive NodeOp where
  | get (mem : ℕ → Bool) (nodeId : ℕ)
  | truncate (blockNum : ℕ)

def NodeOp.step (ht : TeeFsHtree) : NodeOp → TeeResult TeeFsHtree
  | .get mem nodeId => getNodeMem mem ht nodeId
  | .truncate blockNum =>
    teeFsHtreeTruncateLoop (ht.imeta.maxNodeId - blockNumToNodeId blockNum % 2 ^ 64) ht

end Optee.Htree
