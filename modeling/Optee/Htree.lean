import Optee.Lib.HeapTree
import Optee.Crypto

/-!
# The hash tree of a secure storage file

`core/tee/fs_htree.c`. A file is a binary tree with heap numbering, node `b + 1` standing for data
block `b`. Headers, nodes and blocks have two versions in storage: a flag of the node tells the one
of a block or a child that is in use, and the parity of the counter in the header that of the root.

An operation returns the handle it leaves and the writes it makes. A write that fails ends it with
the handle closed.
-/

namespace Optee.Htree

open BinTree

/-! ## Images -/

structure NodeImage where
  hash : ByteVec 32
  iv : ByteVec 16
  tag : ByteVec 16
  flags : BitVec 16
  deriving DecidableEq

/-- `struct tee_fs_htree_meta` -/
structure FileMeta where
  length : BitVec 64
  deriving DecidableEq

/-- `struct tee_fs_htree_imeta` -/
structure Imeta where
  fileMeta : FileMeta
  maxNodeId : ℕ
  deriving DecidableEq

/-- `struct tee_fs_htree_image` -/
structure Image where
  iv : ByteVec 16
  tag : ByteVec 16
  encFek : ByteVec 16
  imeta : ByteVec 16
  counter : BitVec 32
  deriving DecidableEq

def NodeImage.zero : NodeImage := ⟨ByteVec.zero 32, ByteVec.zero 16, ByteVec.zero 16, 0⟩

def Image.zero : Image := ⟨ByteVec.zero 16, ByteVec.zero 16, ByteVec.zero 16, ByteVec.zero 16, 0⟩

/-- The bytes of `struct tee_fs_htree_meta`. -/
def FileMeta.bytes (m : FileMeta) : List UInt8 := leBytes 8 m.length.toNat

/-- `struct tee_fs_htree_imeta`, with four bytes of padding. -/
def Imeta.bytes (im : Imeta) : List UInt8 :=
  im.fileMeta.bytes ++ leBytes 4 im.maxNodeId ++ [0, 0, 0, 0]

/-- `struct tee_fs_htree_imeta` laid over 16 bytes. -/
def Imeta.ofBytes (bs : List UInt8) : Imeta :=
  ⟨⟨BitVec.ofNat 64 (ofLeBytes (bs.take 8))⟩, ofLeBytes ((bs.drop 8).take 4)⟩

def committedBlock : BitVec 16 := BitVec.twoPow 16 0

/-- `HTREE_NODE_COMMITTED_CHILD(n)` -/
def committedChild (n : Bool) : BitVec 16 := BitVec.twoPow 16 (1 + n.toNat)

def blockVers (flags : BitVec 16) : Bool := flags.getLsbD 0

def childVers (flags : BitVec 16) (n : Bool) : Bool := flags.getLsbD (1 + n.toNat)

/-! ## Storage -/

/-- What the normal world answers to a read, `none` where it is too short. -/
structure Storage where
  head : Bool → Option Image
  node : ℕ → Bool → Option NodeImage
  block : ℕ → Bool → Option (List UInt8)

def Storage.empty (blockSize : ℕ) : Storage where
  head _ := some Image.zero
  node _ _ := some NodeImage.zero
  block _ _ := some (List.replicate blockSize 0)

/-- `rpc_write` of one of the three types. -/
inductive Write where
  | head (vers : Bool) (data : Image)
  | node (idx : ℕ) (vers : Bool) (data : NodeImage)
  | block (idx : ℕ) (vers : Bool) (data : List UInt8)

def Storage.write (S : Storage) : Write → Storage
  | .head v d => { S with head := fun v' => if v' = v then some d else S.head v' }
  | .node i v d =>
    { S with node := fun i' v' => if i' = i ∧ v' = v then some d else S.node i' v' }
  | .block i v d =>
    { S with block := fun i' v' => if i' = i ∧ v' = v then some d else S.block i' v' }

def Storage.writes (S : Storage) (ws : List Write) : Storage := ws.foldl Storage.write S

def Storage.rpcReadHead (S : Storage) (vers : Bool) : TeeResult Image :=
  match S.head vers with
  | some h => .ok h
  | none => .error .corruptObject

def Storage.rpcReadNode (S : Storage) (nodeId : ℕ) (vers : Bool) : TeeResult NodeImage :=
  match S.node (nodeId - 1) vers with
  | some n => .ok n
  | none => .error .corruptObject

/-! ## The tree in memory -/

structure HtreeNode where
  id : ℕ
  dirty : Bool
  blockUpdated : Bool
  node : NodeImage
  deriving DecidableEq

/-- A node as `calloc` leaves it, with its number set. -/
def HtreeNode.new (id : ℕ) : HtreeNode := ⟨id, false, false, NodeImage.zero⟩

abbrev NodeTree := BinTree HtreeNode

structure TeeFsHtree where
  tree : NodeTree
  head : Image
  fek : ByteVec 16
  imeta : Imeta
  dirty : Bool
  uuid : Option Uuid
  deriving DecidableEq

/-- `ht->root.node` -/
def TeeFsHtree.rootNode (ht : TeeFsHtree) : NodeImage :=
  match ht.tree with
  | .nil => NodeImage.zero
  | .node n _ _ => n.node

def uintMax : ℕ := 2 ^ 32 - 1

/-- `find_closest_node`. The bits of `node_id` below its leading one are turns. -/
def findClosestNode (t : NodeTree) (nodeId : ℕ) : TeeResult HtreeNode := do
  assert (0 < nodeId && nodeId < uintMax)
  match t.closest (pathOf nodeId) with
  | some n => .ok n
  | none => .error .generic

def findNode (t : NodeTree) (nodeId : ℕ) : TeeResult (Option HtreeNode) := do
  let n ← findClosestNode t nodeId
  .ok (if n.id = nodeId then some n else none)

/-- The loop of `get_node` that adds nodes. -/
def addNodes : (count : ℕ) → (n : ℕ) → NodeTree → TeeResult NodeTree
  | 0, _, t => .ok t
  | count + 1, n, t => do
    let node ← findClosestNode t n
    if node.id = n then
      addNodes count (n + 1) t
    else
      assert (n / 2 = node.id)
      assert (t.get (pathOf n)).isNone
      addNodes count (n + 1) (t.insert (.new n) (pathOf n))

def getNode (ht : TeeFsHtree) (create : Bool) (nodeId : ℕ) : TeeResult TeeFsHtree := do
  let node ← findClosestNode ht.tree nodeId
  if node.id = nodeId then
    .ok ht
  else if !create then
    .error .generic
  else
    let t ← addNodes (nodeId - node.id) (node.id + 1) ht.tree
    .ok { ht with
      tree := t
      imeta := { ht.imeta with
        maxNodeId := if ht.imeta.maxNodeId < nodeId then nodeId % 2 ^ 32
          else ht.imeta.maxNodeId } }

/-! ## Hashes and encryption -/

def NodeImage.hashedBytes (ni : NodeImage) : List UInt8 :=
  ni.iv.toList ++ ni.tag.toList ++ leBytes 2 ni.flags.toNat

def childHash : NodeTree → List UInt8
  | .nil => []
  | .node n _ _ => n.node.hash.toList

def metaBytes : Option FileMeta → List UInt8
  | none => []
  | some m => m.bytes

/-- What `calc_node_hash` feeds to the hash. -/
def nodeHashInput (ni : NodeImage) (fm : Option FileMeta) (c0 c1 : NodeTree) : List UInt8 :=
  ni.hashedBytes ++ metaBytes fm ++ childHash c0 ++ childHash c1

def fekSize : ℕ := 16

def ivSize : ℕ := 16

def hashSize : ℕ := 32

/-- What `crypto_authenc_init` and `crypto_authenc_update_aad` are given. -/
structure AuthencCtx where
  key : ByteVec 16
  iv : ByteVec 16
  aadLen : ℕ
  aad : List UInt8

/-- `authenc_init`, for a block with its node and for the header without. An encryption draws the IV
`rnd`. -/
def authencInit (mode : OperationMode) (rnd : ByteVec 16) (ht : TeeFsHtree)
    (ni : Option NodeImage) :
    AuthencCtx :=
  let iv := match mode with
    | .encrypt => rnd
    | .decrypt => match ni with
      | some n => n.iv
      | none => ht.head.iv
  { key := ht.fek
    iv := iv
    aadLen := fekSize + ivSize + match ni with
      | some _ => 0
      | none => hashSize + 4
    aad := (match ni with
        | some _ => []
        | none => ht.rootNode.hash.toList.take fekSize ++ leBytes 4 ht.head.counter.toNat)
      ++ ht.head.encFek.toList ++ iv.toList }

variable (C : Crypto)

def authencEncryptFinal (ctx : AuthencCtx) (plain : List UInt8) : List UInt8 × ByteVec 16 :=
  C.enc ctx.key ctx.iv ctx.aad plain

def authencDecryptFinal (ctx : AuthencCtx) (tag : ByteVec 16) (crypt : List UInt8) :
    TeeResult (List UInt8) :=
  match C.dec ctx.key ctx.iv ctx.aad crypt tag with
  | some p => .ok p
  | none => .error .corruptObject

theorem Imeta.bytes_length (im : Imeta) : im.bytes.length = 16 := by
  simp [Imeta.bytes, FileMeta.bytes]

/-! ## Opening -/

def getIdxFromCounter (counter0 counter1 : BitVec 32) : Option Bool :=
  if !counter0.getLsbD 0 then
    if !counter1.getLsbD 0 then some false
    else if counter1 < counter0 then some false
    else some true
  else if counter1.getLsbD 0 then some true
  else none

def initHeadFromData (S : Storage) (hash : Option (ByteVec 32)) (minCounter : BitVec 32) :
    TeeResult (NodeImage × Image) := do
  let (root, head) ← match hash with
    | some h => do
      let n0 ← S.rpcReadNode 1 false
      if n0.hash = h then
        let head ← S.rpcReadHead false
        pure (n0, head)
      else
        let n1 ← S.rpcReadNode 1 true
        if n1.hash = h then
          let head ← S.rpcReadHead true
          pure (n1, head)
        else .error .corruptObject
    | none => do
      let head0 ← S.rpcReadHead false
      let head1 ← S.rpcReadHead true
      match getIdxFromCounter head0.counter head1.counter with
      | none => .error .security
      | some idx =>
        let root ← S.rpcReadNode 1 idx
        pure (root, if idx then head1 else head0)
  if head.counter < minCounter then .error .security
  else .ok (root, head)

def verifyRoot (ht : TeeFsHtree) : TeeResult TeeFsHtree := do
  let ht := { ht with fek := C.fekCrypt ht.uuid .decrypt ht.head.encFek }
  let p ← authencDecryptFinal C (authencInit .decrypt ht.head.iv ht none) ht.head.tag
    ht.head.imeta.toList
  .ok { ht with imeta := .ofBytes p }

/-- The loop of `init_tree_from_data`. -/
def initTreeFromDataLoop (S : Storage) :
    (count : ℕ) → (nodeId : ℕ) → TeeFsHtree → TeeResult TeeFsHtree
  | 0, _, ht => .ok ht
  | count + 1, nodeId, ht => do
    match ← findNode ht.tree (nodeId / 2) with
    | none => .error .generic
    | some parent =>
      let img ← S.rpcReadNode nodeId (childVers parent.node.flags (nodeId.testBit 0))
      let ht ← getNode ht true nodeId
      initTreeFromDataLoop S count (nodeId + 1)
        { ht with tree := ht.tree.modify (fun n => { n with node := img }) (pathOf nodeId) }

def initTreeFromData (S : Storage) (ht : TeeFsHtree) : TeeResult TeeFsHtree :=
  initTreeFromDataLoop S (ht.imeta.maxNodeId - 1) 2 ht

/-- `verify_node` for every node, children first, the root with the meta data. -/
def verifyNode (fm : Option FileMeta) : NodeTree → Bool
  | .nil => true
  | .node n c0 c1 =>
    verifyNode none c0 && verifyNode none c1
      && decide (C.hash (nodeHashInput n.node fm c0 c1) = n.node.hash)

def verifyTree (ht : TeeFsHtree) : TeeResult Unit :=
  if verifyNode C (some ht.imeta.fileMeta) ht.tree then .ok () else .error .corruptObject

/-- The handle after `init_head_from_data`. -/
def TeeFsHtree.ofHead (root : NodeImage) (head : Image) (uuid : Option Uuid) : TeeFsHtree :=
  { tree := .node ⟨1, false, false, root⟩ .nil .nil, head := head, fek := ByteVec.zero 16,
    imeta := ⟨⟨0⟩, 0⟩, dirty := false, uuid := uuid }

def teeFsHtreeOpen (S : Storage) (hash : Option (ByteVec 32)) (minCounter : BitVec 32)
    (uuid : Option Uuid) : TeeResult TeeFsHtree := do
  let (root, head) ← initHeadFromData S hash minCounter
  let ht ← verifyRoot C (.ofHead root head uuid)
  let ht ← initTreeFromData S ht
  verifyTree C ht
  .ok ht

/-! ## Synchronising to storage -/

def HtreeNode.childSynced (n : HtreeNode) (b : Bool) (childDirty : Bool) : HtreeNode :=
  if childDirty then
    { n with dirty := true, node := { n.node with flags := n.node.flags ^^^ committedChild b } }
  else n

/-- `htree_sync_node_to_storage` for every node, children first: the tree, the nodes written and
whether the node was dirty. `fm` is the meta data where the node is the root. -/
def htreeSyncNodeToStorage (fm : Option FileMeta) (vers : Bool) :
    NodeTree → NodeTree × List Write × Bool
  | .nil => (.nil, [], false)
  | .node n c0 c1 =>
    let (c0, ws0, d0) := htreeSyncNodeToStorage none (!childVers n.node.flags false) c0
    let (c1, ws1, d1) := htreeSyncNodeToStorage none (!childVers n.node.flags true) c1
    let n := (n.childSynced false d0).childSynced true d1
    if n.dirty then
      let img := { n.node with hash := C.hash (nodeHashInput n.node fm c0 c1) }
      (.node { n with dirty := false, blockUpdated := false, node := img } c0 c1,
        ws0 ++ ws1 ++ [.node (n.id - 1) vers img], true)
    else (.node n c0 c1, ws0 ++ ws1, false)

def updateRoot (ht : TeeFsHtree) (rnd : ByteVec 16) : TeeFsHtree :=
  let ht := { ht with head := { ht.head with counter := ht.head.counter + 1 } }
  let ctx := authencInit .encrypt rnd ht none
  { ht with head := { ht.head with
    iv := ctx.iv
    tag := (authencEncryptFinal C ctx ht.imeta.bytes).2
    imeta := ⟨(authencEncryptFinal C ctx ht.imeta.bytes).1,
      (C.enc_length _ _ _ _).trans ht.imeta.bytes_length⟩ } }

def teeFsHtreeSyncToStorage (ht : TeeFsHtree) (rnd : ByteVec 16) : TeeFsHtree × List Write :=
  if !ht.dirty then (ht, [])
  else
    let (t, ws, _) :=
      htreeSyncNodeToStorage C (some ht.imeta.fileMeta) (!ht.head.counter.getLsbD 0) ht.tree
    let ht := updateRoot C { ht with tree := t } rnd
    ({ ht with dirty := false }, ws ++ [.head (ht.head.counter.getLsbD 0) ht.head])

/-- `tee_fs_htree_open` of a new file. The header written last only marks the other version as not
in use. -/
def teeFsHtreeCreate (uuid : Option Uuid) (minCounter : BitVec 32) (fek rnd : ByteVec 16) :
    TeeFsHtree × List Write :=
  let head := { Image.zero with encFek := C.fekCrypt uuid .encrypt fek }
  let imeta : Imeta := ⟨⟨0⟩, 0⟩
  let root := { NodeImage.zero with
    hash := C.hash (nodeHashInput .zero (some imeta.fileMeta) .nil .nil) }
  let (ht, ws) := teeFsHtreeSyncToStorage C
    { tree := .node ⟨1, true, false, root⟩ .nil .nil, head := head, fek := fek, imeta := imeta,
      dirty := true, uuid := uuid } rnd
  (ht, ws ++ [.head false { Image.zero with counter := minCounter }])

/-! ## Blocks and meta data -/

def teeFsHtreeMetaSetDirty (ht : TeeFsHtree) : TeeFsHtree :=
  { ht with dirty := true, tree := ht.tree.modify (fun n => { n with dirty := true }) [] }

/-- A change through `tee_fs_htree_get_meta`. -/
def teeFsHtreeSetMeta (ht : TeeFsHtree) (m : FileMeta) : TeeFsHtree :=
  { ht with imeta := { ht.imeta with fileMeta := m } }

def blockNumToNodeId (num : ℕ) : ℕ := num + 1

/-- `tee_fs_htree_write_block`. The version not in use is written, and again until the next sync. -/
def teeFsHtreeWriteBlock (ht : TeeFsHtree) (blockNum : ℕ) (block : List UInt8) (rnd : ByteVec 16) :
    TeeResult (TeeFsHtree × List Write) := do
  let nodeId := blockNumToNodeId blockNum
  let ht ← getNode ht true nodeId
  match ht.tree.get (pathOf nodeId) with
  | none => .error .generic
  | some n =>
    let flags := if n.blockUpdated then n.node.flags else n.node.flags ^^^ committedBlock
    let ctx := authencInit .encrypt rnd ht (some { n.node with flags := flags })
    let (encBlock, tag) := authencEncryptFinal C ctx block
    let img := { n.node with flags := flags, iv := ctx.iv, tag := tag }
    .ok ({ ht with
        dirty := true
        tree := ht.tree.modify
          (fun _ => { n with node := img, blockUpdated := true, dirty := true })
          (pathOf nodeId) },
      [.block blockNum (blockVers flags) encBlock])

def teeFsHtreeReadBlock (blockSize : ℕ) (S : Storage) (ht : TeeFsHtree) (blockNum : ℕ) :
    TeeResult (List UInt8) := do
  let nodeId := blockNumToNodeId blockNum
  let ht ← getNode ht false nodeId
  match ht.tree.get (pathOf nodeId) with
  | none => .error .generic
  | some n =>
    match S.block blockNum (blockVers n.node.flags) with
    | none => .error .corruptObject
    | some encBlock =>
      if encBlock.length ≠ blockSize then
        .error .corruptObject
      else
        let ctx := authencInit .decrypt n.node.iv ht (some n.node)
        authencDecryptFinal C ctx n.node.tag encBlock

/-- The loop of `tee_fs_htree_truncate`. -/
def teeFsHtreeTruncateLoop : (count : ℕ) → TeeFsHtree → TeeResult TeeFsHtree
  | 0, ht => .ok ht
  | count + 1, ht => do
    let p := pathOf ht.imeta.maxNodeId
    let node ← findClosestNode ht.tree ht.imeta.maxNodeId
    assert (node.id = ht.imeta.maxNodeId)
    assert ((ht.tree.get (p ++ [false])).isNone && (ht.tree.get (p ++ [true])).isNone)
    assert (p ≠ [])
    teeFsHtreeTruncateLoop count { ht with
      tree := ht.tree.remove p
      imeta := { ht.imeta with maxNodeId := ht.imeta.maxNodeId - 1 }
      dirty := true }

def teeFsHtreeTruncate (ht : TeeFsHtree) (blockNum : ℕ) : TeeResult TeeFsHtree :=
  teeFsHtreeTruncateLoop (ht.imeta.maxNodeId - blockNumToNodeId blockNum) ht

end Optee.Htree
