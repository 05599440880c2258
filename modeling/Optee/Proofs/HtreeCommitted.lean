import Optee.Proofs.HtreeBlock

/-!
# Synchronised files

A file is committed where a handle that a sync returned is in storage with its blocks, and the other
version of the root is not taken for it (`Committed`). It is then opened and reads back as what it
holds.
-/

namespace Optee.Htree

open BinTree

variable {C : Crypto} {blockSize : ℕ}

/-! ## Sealing a header -/

/-- The version of the root and of the header, by the parity of the counter. -/
def TeeFsHtree.vers (ht : TeeFsHtree) : Bool := ht.head.counter.getLsbD 0

theorem Imeta.ofBytes_bytes {im : Imeta}
    (h : im.maxNodeId < 2 ^ 32) : Imeta.ofBytes im.bytes = im := by
  have h8 : im.bytes.take 8 = im.fileMeta.bytes := by
    simp [Imeta.bytes, FileMeta.bytes]
  have h4 : (im.bytes.drop 8).take 4 = leBytes 4 im.maxNodeId := by
    simp [Imeta.bytes, FileMeta.bytes]
  have hl : im.fileMeta.length.toNat < 256 ^ 8 := im.fileMeta.length.isLt.trans_le (by decide)
  rw [Imeta.ofBytes, h8, h4, FileMeta.bytes, ofLeBytes_leBytes hl, ofLeBytes_leBytes (by simpa)]
  simp

theorem getLsbD_zero_add_one (c : BitVec 32) : (c + 1).getLsbD 0 = !c.getLsbD 0 := by
  simp only [BitVec.getLsbD, BitVec.toNat_add, Nat.testBit_zero]
  rw [Nat.mod_mod_of_dvd _ (by decide : 2 ∣ 2 ^ 32)]
  have h1 : (1 : BitVec 32).toNat = 1 := by decide
  rw [h1]
  rcases Nat.mod_two_eq_zero_or_one c.toNat with h | h <;> simp [h] <;> omega

/-- The walk of a sync, from the root on. -/
def syncTree (C : Crypto) (ht : TeeFsHtree) : NodeTree × List Write × Bool :=
  htreeSyncNodeToStorage C (some ht.imeta.fileMeta) (!ht.head.counter.getLsbD 0) ht.tree

variable {ht ht' a : TeeFsHtree} {S : Storage} {minCounter : BitVec 32}

theorem syncToStorage_dirty (rnd : ByteVec 16) (hd : ht.dirty = true)
    (hfek : C.fekCrypt ht.uuid .decrypt ht.head.encFek = ht.fek)
    (hu : ht.imeta.maxNodeId < uintMax) :
    ∃ head, teeFsHtreeSyncToStorage C ht rnd
        = ({ ht with tree := (syncTree C ht).1, head := head, dirty := false },
          (syncTree C ht).2.1 ++ [.head (!ht.head.counter.getLsbD 0) head])
      ∧ head.counter = ht.head.counter + 1 ∧ head.encFek = ht.head.encFek
      ∧ ∀ n, (syncTree C ht).1.get [] = some n →
        HeaderOk C ht.uuid n.node head ht.fek ht.imeta := by
  refine ⟨(updateRoot C { ht with tree := (syncTree C ht).1 } rnd).head, ?_, rfl, rfl, ?_⟩
  · rw [teeFsHtreeSyncToStorage, if_neg (by simp [hd])]
    have hv : (updateRoot C { ht with tree := (syncTree C ht).1 } rnd).head.counter.getLsbD 0
        = !ht.head.counter.getLsbD 0 := getLsbD_zero_add_one _
    have hw :
      [Write.head ((updateRoot C { ht with tree := (syncTree C ht).1 } rnd).head.counter.getLsbD
          0) (updateRoot C { ht with tree := (syncTree C ht).1 } rnd).head]
        = [Write.head (!ht.head.counter.getLsbD 0)
          (updateRoot C { ht with tree := (syncTree C ht).1 } rnd).head] := by
      rw [hv]
    exact Prod.ext rfl (congrArg ((syncTree C ht).2.1 ++ ·) hw)
  · intro n hn
    refine ⟨hfek, ht.imeta.bytes, ?_, Imeta.ofBytes_bytes (by rw [uintMax] at hu; omega)⟩
    have hroot : (TeeFsHtree.rootNode { ht with tree := (syncTree C ht).1 }) = n.node := by
      cases ht' : (syncTree C ht).1 with
      | nil => simp [ht'] at hn
      | node a l r =>
        simp only [ht', get_root, Option.some.injEq] at hn
        simp [TeeFsHtree.rootNode, hn]
    have haad : (authencInit .encrypt rnd { ht with
          tree := (syncTree C ht).1,
          head := { ht.head with counter := ht.head.counter + 1 } } none).aad
        = headerAad n.node.hash
            (updateRoot C { ht with tree := (syncTree C ht).1 } rnd).head := by
      rw [← hroot]
      rfl
    rw [← haad]
    exact C.dec_enc _ _ _ _

/-! ## A sync -/

/-- A handle as a sync leaves it: sealed, whole, and with the hashes of all nodes right. -/
structure Synced (C : Crypto) (ht : TeeFsHtree) : Prop where
  dirty : ht.dirty = false
  header : HeaderOk C ht.uuid ht.rootNode ht.head ht.fek ht.imeta
  complete : Complete (max 1 ht.imeta.maxNodeId) ht.tree
  bound : ht.imeta.maxNodeId < uintMax
  clean : ht.tree.map HtreeNode.clean = ht.tree
  verified : verifyNode C (some ht.imeta.fileMeta) ht.tree = true

/-- Two handles are of one file. -/
structure SameFile (h ht : TeeFsHtree) : Prop where
  uuid : h.uuid = ht.uuid
  fek : h.fek = ht.fek
  encFek : h.head.encFek = ht.head.encFek

/-- The block is in storage at its version and decrypts to the data. -/
def BlockStored (C : Crypto) (blockSize : ℕ) (S : Storage) (ht : TeeFsHtree) (b : ℕ)
    (d : List UInt8) : Prop :=
  ∃ n enc, ht.tree.get (pathOf (b + 1)) = some n ∧ S.block b (blockVers n.node.flags) = some enc
    ∧ enc.length = blockSize
    ∧ C.dec ht.fek n.node.iv (blockAad ht.head n.node.iv) enc n.node.tag = some d

theorem BlockStored.congr {S' : Storage} {b : ℕ} {d : List UInt8}
    (h : BlockStored C blockSize S ht b d)
    (hn : ∀ n, ht.tree.get (pathOf (b + 1)) = some n → ∃ n', ht'.tree.get (pathOf (b + 1)) = some n'
      ∧ n'.blockView = n.blockView)
    (hs : SameFile ht' ht) (hS : ∀ v, S'.block b v = S.block b v) :
    BlockStored C blockSize S' ht' b d := by
  obtain ⟨n, enc, hg, hb, hl, hd⟩ := h
  obtain ⟨n', hg', hv⟩ := hn n hg
  simp only [HtreeNode.blockView, Prod.mk.injEq] at hv
  obtain ⟨-, hiv, htag, hvers⟩ := hv
  refine ⟨n', enc, hg', ?_, hl, ?_⟩
  · rw [hS, hvers, hb]
  · rw [hs.fek, hiv, htag, blockAad, hs.encFek]
    exact hd

theorem rootNode_eq {n : HtreeNode} (h : ht.tree.get [] = some n) : ht.rootNode = n.node := by
  cases ht' : ht.tree with
  | nil => simp [ht'] at h
  | node a l r =>
    simp only [ht', get_root, Option.some.injEq] at h
    simp [TeeFsHtree.rootNode, ht', h]

theorem clean_get {t : NodeTree} (h : t.map HtreeNode.clean = t) {q : List Bool} {n : HtreeNode}
    (hn : t.get q = some n) : n.dirty = false ∧ n.blockUpdated = false := by
  have := get_map HtreeNode.clean q t
  rw [h, hn, Option.map_some, Option.some.injEq] at this
  rw [this]
  exact ⟨rfl, rfl⟩

/-- What a sync of a dirty handle leaves as it is, whatever is in storage. -/
structure Rewritten (S : Storage) (ht ht' : TeeFsHtree) (S' : Storage) : Prop where
  handle : ht' = { ht with tree := ht'.tree, head := ht'.head, dirty := false }
  encFek : ht'.head.encFek = ht.head.encFek
  view : ht'.tree.map HtreeNode.blockView = ht.tree.map HtreeNode.blockView
  block : ∀ b u, S'.block b u = S.block b u

/-- What a sync of a dirty handle did. -/
structure SyncDone (C : Crypto) (S : Storage) (ht ht' : TeeFsHtree) (S' : Storage) : Prop extends
    Rewritten S ht ht' S' where
  counter : ht'.head.counter = ht.head.counter + 1
  synced : Synced C ht'
  stored : StoredAt S' ht'.vers ht'.tree
  head : ∀ u, S'.head u = if u = ht'.vers then some ht'.head else S.head u
  node : ∀ p, S'.node (idFrom 1 p - 1) (versAt ht.vers ht.tree p)
    = S.node (idFrom 1 p - 1) (versAt ht.vers ht.tree p)

theorem SyncDone.vers {S' : Storage} (h : SyncDone C S ht ht' S') : ht'.vers = !ht.vers := by
  rw [TeeFsHtree.vers, h.counter, getLsbD_zero_add_one]
  rfl

theorem rewritten_of_dirty {ws : List Write} {rnd : ByteVec 16} (S : Storage)
    (hs : teeFsHtreeSyncToStorage C ht rnd = (ht', ws)) (hd : ht.dirty = true)
    (hfek : C.fekCrypt ht.uuid .decrypt ht.head.encFek = ht.fek)
    (hc : Complete (max 1 ht.imeta.maxNodeId) ht.tree) (hu : ht.imeta.maxNodeId < uintMax) :
    Rewritten S ht ht' (S.writes ws) := by
  obtain ⟨head, he, -, henc, -⟩ := syncToStorage_dirty rnd hd hfek hu
  rw [he] at hs
  cases hs
  refine ⟨rfl, henc, sync_blockView C ht.tree (some ht.imeta.fileMeta) (!ht.vers), fun b u => ?_⟩
  rw [writes_append]
  exact block_sync_writes C hc.numbered b u

theorem syncDone_of_dirty {ws : List Write} {rnd : ByteVec 16}
    (hs : teeFsHtreeSyncToStorage C ht rnd = (ht', ws)) (hd : ht.dirty = true)
    (hany : ht.tree.any HtreeNode.dirty = true)
    (hfek : C.fekCrypt ht.uuid .decrypt ht.head.encFek = ht.fek)
    (hc : Complete (max 1 ht.imeta.maxNodeId) ht.tree) (hu : ht.imeta.maxNodeId < uintMax)
    (hup : ht.tree.any (fun n => n.blockUpdated && !n.dirty) = false)
    (hk : Kept C S (some ht.imeta.fileMeta) ht.vers ht.tree) :
    SyncDone C S ht ht' (S.writes ws) := by
  have hrewritten := rewritten_of_dirty S hs hd hfek hc hu
  obtain ⟨head, he, hcount, henc, hhead⟩ := syncToStorage_dirty rnd hd hfek hu
  rw [he] at hs
  cases hs
  obtain ⟨hst, hver⟩ := sync_stored ht.tree le_rfl hc.numbered hk
  have hcl := sync_clean C ht.tree (some ht.imeta.fileMeta) (!ht.vers) hup
  have hcomp := hc.of_blockView hrewritten.view
  obtain ⟨n, hn⟩ := hcomp.exists_get (i := 1) le_rfl (by omega)
  rw [pathOf_one] at hn
  have hvers : head.counter.getLsbD 0 = !ht.vers := by
    rw [hcount, getLsbD_zero_add_one]
    rfl
  rw [hany, Bool.xor_true] at hst
  refine ⟨hrewritten, hcount, ⟨rfl, ?_, hcomp, hu, hcl, hver⟩, ?_, fun u => ?_, fun p => ?_⟩
  · rw [rootNode_eq hn]
    exact hhead n hn
  · show StoredAt _ (head.counter.getLsbD 0) _
    rw [hvers, writes_append]
    exact hst.congr hcomp.numbered fun p u => rfl
  · rw [writes_append]
    show (if u = !ht.vers then some head else _) = if u = head.counter.getLsbD 0 then _ else _
    rw [hvers]
    congr 1
    exact head_sync_writes C hc.numbered u
  · rw [writes_append]
    exact node_sync_writes C le_rfl hc.numbered p

/-! ## What the root hash of a sync determines -/

/-- What was hashed for some trees. -/
def syncedInputs (hs : List TeeFsHtree) : List (List UInt8) :=
  hs.flatMap fun h => hashInputs (some h.imeta.fileMeta) h.tree

/-- The hash has no collision among these inputs, and none has the hash of zeros. -/
def HashIdeal (C : Crypto) (xs : List (List UInt8)) : Prop :=
  (∀ x ∈ xs, ∀ y ∈ xs, C.hash x = C.hash y → x = y) ∧ ∀ x ∈ xs, C.hash x ≠ ByteVec.zero 32

instance (C : Crypto) (xs : List (List UInt8)) : Decidable (HashIdeal C xs) :=
  inferInstanceAs (Decidable (_ ∧ _))

theorem mem_syncedInputs {hs : List TeeFsHtree} {h : TeeFsHtree} (hm : h ∈ hs) {x : List UInt8}
    (hx : x ∈ hashInputs (some h.imeta.fileMeta) h.tree) : x ∈ syncedInputs hs :=
  List.mem_flatMap.2 ⟨h, hm, hx⟩

theorem childHash_eq {m : ℕ} (hc : Complete m ht.tree) (hm : 1 ≤ m) :
    childHash ht.tree = ht.rootNode.hash.toList := by
  obtain ⟨n, hn⟩ := hc.exists_get (i := 1) le_rfl hm
  rw [pathOf_one] at hn
  cases h : ht.tree with
  | nil => simp [h] at hn
  | node a l r => simp [childHash, TeeFsHtree.rootNode, h]

theorem rootNode_of_images {b : TeeFsHtree}
    (h : images a.tree = images b.tree) : a.rootNode = b.rootNode := by
  have := congrArg (fun t => t.get []) h
  simp only [images, get_map] at this
  cases ha : a.tree <;> cases hb : b.tree <;> simp_all [TeeFsHtree.rootNode]

theorem Synced.images_eq {b : TeeFsHtree} (ha : Synced C a) (hb : Synced C b)
    (hinj : ∀ x ∈ syncedInputs [a, b], ∀ y ∈ syncedInputs [a, b], C.hash x = C.hash y → x = y)
    (hh : a.rootNode.hash = b.rootNode.hash) :
    images a.tree = images b.tree ∧ a.imeta.fileMeta = b.imeta.fileMeta := by
  have hsub : ∀ x, (x ∈ hashInputs (some a.imeta.fileMeta) a.tree
      ∨ x ∈ hashInputs (some b.imeta.fileMeta) b.tree) → x ∈ syncedInputs [a, b] := by
    rintro x (hx | hx)
    · exact mem_syncedInputs (by simp) hx
    · exact mem_syncedInputs (by simp) hx
  have hcha := childHash_eq ha.complete (by omega)
  have hchb := childHash_eq hb.complete (by omega)
  obtain ⟨himg, hfm⟩ := images_eq_of_hash_eq C (some a.imeta.fileMeta)
    (some b.imeta.fileMeta) rfl ha.complete.shape hb.complete.shape ha.verified
    hb.verified (fun x hx y hy => hinj x (hsub x hx) y (hsub y hy)) (by rw [hcha, hchb, hh])
  refine ⟨himg, Option.some.inj (hfm fun hnil => ?_)⟩
  have hs := ha.complete.shape
  rw [hnil] at hs
  simp only [Shape] at hs
  omega

theorem Synced.exists_input (ha : Synced C a) :
    ∃ x ∈ hashInputs (some a.imeta.fileMeta) a.tree, C.hash x = a.rootNode.hash := by
  have hv := ha.verified
  have hs := ha.complete.shape
  cases h : a.tree with
  | nil =>
    rw [h] at hs
    simp only [Shape] at hs
    omega
  | node n c0 c1 =>
    rw [h] at hv
    refine ⟨nodeHashInput n.node (some a.imeta.fileMeta) c0 c1, by simp [hashInputs], ?_⟩
    rw [((verifyNode_node C).1 hv).2.2, TeeFsHtree.rootNode, h]

/-! ## Committed files -/

/-- Two synchronised handles cannot be told apart by their nodes. -/
structure Alike (C : Crypto) (k ht : TeeFsHtree) : Prop where
  synced : Synced C k
  same : SameFile k ht
  images : images k.tree = images ht.tree
  fileMeta : k.imeta.fileMeta = ht.imeta.fileMeta

/-- A synchronised handle that is in storage as a whole, with its blocks. -/
structure InPlace (C : Crypto) (S : Storage) (ht : TeeFsHtree)
    (contents : List (ByteVec blockSize)) : Prop where
  synced : Synced C ht
  size : max 1 ht.imeta.maxNodeId = max 1 contents.length
  stored : StoredAt S ht.vers ht.tree
  head : S.head ht.vers = some ht.head
  blocks : ∀ b d, contents[b]? = some d → BlockStored C blockSize S ht b d.toList

/-- The file is in storage, and where the other version of the root has the same hash it is another
sync of the same tree. -/
structure Committed (C : Crypto) (S : Storage) (ht : TeeFsHtree)
    (contents : List (ByteVec blockSize)) : Prop extends InPlace C S ht contents where
  other : ∃ ni, S.node 0 (!ht.vers) = some ni ∧ (ni.hash = ht.rootNode.hash →
    ∃ k, Alike C k ht ∧ ni = k.rootNode ∧ S.head (!ht.vers) = some k.head)

/-- The file can be opened, with this tree, and its blocks read back. -/
def OpensAs (C : Crypto) (S : Storage) (hash : Option (ByteVec 32)) (minCounter : BitVec 32)
    (ht : TeeFsHtree) (contents : List (ByteVec blockSize)) : Prop :=
  ∃ o, teeFsHtreeOpen C S hash minCounter ht.uuid = .ok o ∧ o.tree = ht.tree
    ∧ o.imeta.fileMeta = ht.imeta.fileMeta
    ∧ ∀ b d, contents[b]? = some d → teeFsHtreeReadBlock C blockSize S o b = .ok d.toList

variable {S : Storage} {ht : TeeFsHtree} {contents : List (ByteVec blockSize)}

theorem Synced.alike (h : Synced C ht) : Alike C ht ht := ⟨h, ⟨rfl, rfl, rfl⟩, rfl, rfl⟩

theorem Synced.get_root (h : Synced C ht) :
    ht.tree.get [] = some ⟨1, false, false, ht.rootNode⟩ := by
  obtain ⟨n, hn⟩ := h.complete.exists_get (i := 1) le_rfl (by omega)
  have hid : n.id = 1 := h.complete.get_id (i := 1) le_rfl hn
  rw [pathOf_one] at hn
  obtain ⟨hd, hu⟩ := clean_get h.clean hn
  rw [hn, rootNode_eq hn]
  cases n
  simp_all

theorem InPlace.node_root (h : InPlace C S ht contents) : S.node 0 ht.vers = some ht.rootNode :=
  h.stored.root h.synced.get_root

theorem InPlace.opensAs (h : InPlace C S ht contents) {k : TeeFsHtree} (hk : Alike C k ht)
    {hash : Option (ByteVec 32)}
    (hinit : initHeadFromData S hash minCounter = .ok (ht.rootNode, k.head)) :
    OpensAs C S hash minCounter ht contents := by
  have hm : max 1 k.imeta.maxNodeId = max 1 ht.imeta.maxNodeId :=
    eq_of_images_eq hk.synced.complete.shape h.synced.complete.shape (by omega) (by omega)
      hk.images
  have hheader : HeaderOk C ht.uuid ht.rootNode k.head k.fek k.imeta := by
    rw [← rootNode_of_images hk.images, ← hk.same.uuid]
    exact hk.synced.header
  have hopen := teeFsHtreeOpen_of_stored C hinit hheader (by rw [hm]; exact h.synced.complete)
    hk.synced.bound h.synced.get_root h.synced.clean h.stored.children
    (by rw [hk.fileMeta]; exact h.synced.verified)
  refine ⟨_, hopen, rfl, hk.fileMeta, fun b d hb => ?_⟩
  obtain ⟨n, enc, hn, hbl, hlen, hdec⟩ := h.blocks b d hb
  have hb' : b < contents.length := by
    by_contra hge
    rw [List.getElem?_eq_none (by omega)] at hb
    cases hb
  have hsize := h.size
  have hbound := h.synced.bound
  have hone : 1 < uintMax := by decide
  refine readBlock_eq (opened _ _ _ _ _) h.synced.complete (by omega) hn hbl hlen ?_
  show C.dec k.fek _ (blockAad k.head _) enc _ = _
  rw [hk.same.fek, blockAad, hk.same.encFek]
  exact hdec

theorem Committed.open_hash (h : Committed C S ht contents) :
    OpensAs C S (some ht.rootNode.hash) 0 ht contents := by
  have hroot := h.node_root
  have hhead := h.head
  obtain ⟨ni, hni, hother⟩ := h.other
  -- version 0 is looked at first
  cases hv : ht.vers with
  | false =>
    rw [hv] at hroot hhead
    refine h.opensAs h.synced.alike ?_
    simp [initHeadFromData, Storage.rpcReadNode, Storage.rpcReadHead, hroot, hhead, bind,
      Except.bind, pure, Except.pure]
  | true =>
    rw [hv] at hroot hhead hni hother
    simp only [Bool.not_true] at hni hother
    by_cases he : ni.hash = ht.rootNode.hash
    · obtain ⟨k, hk, rfl, hkh⟩ := hother he
      refine h.opensAs hk ?_
      simp [initHeadFromData, Storage.rpcReadNode, Storage.rpcReadHead, hni, hkh,
        rootNode_of_images hk.images, bind, Except.bind, pure, Except.pure]
    · refine h.opensAs h.synced.alike ?_
      simp [initHeadFromData, Storage.rpcReadNode, Storage.rpcReadHead, hni, he, hroot, hhead, bind,
        Except.bind, pure, Except.pure]

/-- The counters of the two headers select the one of the handle. -/
def Selects (S : Storage) (ht : TeeFsHtree) : Prop :=
  ∃ h0 h1, S.head false = some h0 ∧ S.head true = some h1
    ∧ getIdxFromCounter h0.counter h1.counter = some ht.vers

theorem selects_next {head : Image} (hs : S.head ht.vers = some ht.head)
    (hs' : S.head (!ht.vers) = some head) (hc : ht.head.counter = head.counter + 1)
    (hwrap : head.counter.toNat + 1 < 2 ^ 32) : Selects S ht := by
  have hlt : head.counter < ht.head.counter := by
    rw [BitVec.lt_def, hc, BitVec.toNat_add]
    have h1 : (1 : BitVec 32).toNat = 1 := by decide
    rw [h1, Nat.mod_eq_of_lt hwrap]
    omega
  have hpar : ht.head.counter.getLsbD 0 = !head.counter.getLsbD 0 := by
    rw [hc, getLsbD_zero_add_one]
  have hv : ht.head.counter.getLsbD 0 = ht.vers := rfl
  cases hb : ht.vers with
  | false =>
    rw [hb] at hs hs' hv
    have hodd : head.counter.getLsbD 0 = true := by
      rw [← Bool.not_not (head.counter.getLsbD 0), ← hpar, hv]
      rfl
    refine ⟨ht.head, head, hs, hs', ?_⟩
    simp only [getIdxFromCounter, hv, hodd, hlt, hb]
    rfl
  | true =>
    rw [hb] at hs hs' hv
    have heven : head.counter.getLsbD 0 = false := by
      rw [← Bool.not_not (head.counter.getLsbD 0), ← hpar, hv]
      rfl
    have hnlt : ¬ ht.head.counter < head.counter := BitVec.not_lt.2 (BitVec.le_of_lt hlt)
    refine ⟨head, ht.head, hs', hs, ?_⟩
    simp only [getIdxFromCounter, hv, heven, hnlt, hb]
    rfl

theorem selects_next_iff {head : Image} (hs : S.head ht.vers = some ht.head)
    (hs' : S.head (!ht.vers) = some head) (hc : ht.head.counter = head.counter + 1) :
    Selects S ht ↔ ht.head.counter ≠ 0 := by
  constructor
  · rintro ⟨h0, h1, hh0, hh1, hsel⟩ hzero
    have hv : ht.vers = false := by rw [TeeFsHtree.vers, hzero]; rfl
    have hmax : head.counter = 0xffffffff#32 := by
      rw [hzero] at hc
      bv_omega
    rw [hv] at hs hs' hsel
    cases hh0.symm.trans hs
    cases hh1.symm.trans hs'
    rw [hzero, hmax] at hsel
    exact absurd hsel (by decide)
  · intro hne
    refine selects_next hs hs' hc ?_
    by_contra hge
    refine hne ?_
    have hlt := head.counter.isLt
    rw [hc, ← BitVec.toNat_inj, BitVec.toNat_add]
    have h1 : (1 : BitVec 32).toNat = 1 := by decide
    rw [h1, show head.counter.toNat + 1 = 2 ^ 32 by omega]
    decide

theorem getIdxFromCounter_parity {c0 c1 : BitVec 32} {idx : Bool}
    (h : getIdxFromCounter c0 c1 = some idx) : (if idx then c1 else c0).getLsbD 0 = idx := by
  have key : ∀ b0 b1 : Bool, c0.getLsbD 0 = b0 → c1.getLsbD 0 = b1 →
      (if idx then c1 else c0).getLsbD 0 = idx := by
    intro b0 b1 h0 h1
    simp only [getIdxFromCounter, h0, h1] at h
    cases b0 <;> cases b1 <;> cases idx <;> simp_all
  exact key _ _ rfl rfl

theorem InPlace.initHead_none_iff (h : InPlace C S ht contents) :
    initHeadFromData S none minCounter = .ok (ht.rootNode, ht.head)
      ↔ Selects S ht ∧ minCounter ≤ ht.head.counter := by
  rw [← BitVec.not_lt, initHead_none]
  constructor
  · rintro ⟨h0, h1, idx, hh0, hh1, hidx, -, hsel, hmin⟩
    -- the header that was selected has the parity of its own version
    have hpar := getIdxFromCounter_parity hidx
    rw [← apply_ite Image.counter, ← hsel] at hpar
    exact ⟨⟨h0, h1, hh0, hh1, by rw [hidx, TeeFsHtree.vers, hpar]⟩, hmin⟩
  · rintro ⟨⟨h0, h1, hh0, hh1, hidx⟩, hmin⟩
    refine ⟨h0, h1, ht.vers, hh0, hh1, hidx, h.node_root, ?_, hmin⟩
    have hhead := h.head
    cases hv : ht.vers with
    | false =>
      rw [hv] at hhead
      exact (Option.some.inj (hh0.symm.trans hhead)).symm
    | true =>
      rw [hv] at hhead
      exact (Option.some.inj (hh1.symm.trans hhead)).symm

end Optee.Htree
