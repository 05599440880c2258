import Optee.Proofs.HtreeHash

/-!
# Opening a stored file

Opening a tree that lies at the versions the flags of its nodes name (`StoredAt`) finds exactly that
tree (`teeFsHtreeOpen_of_stored`). Whatever the storage answers, an open that succeeds leaves a tree
of the size its header names, whose hashes verify (`teeFsHtreeOpen_inv`).
-/

namespace Optee.Htree

open BinTree

/-- The nodes are in storage, each at the version that its parent names. -/
def StoredAt (S : Storage) : (vers : Bool) → NodeTree → Prop
  | _, .nil => True
  | v, .node n c0 c1 => S.node (n.id - 1) v = some n.node
      ∧ StoredAt S (childVers n.node.flags false) c0 ∧ StoredAt S (childVers n.node.flags true) c1

/-- A node as it is after a sync or an open. -/
def HtreeNode.clean (n : HtreeNode) : HtreeNode := { n with dirty := false, blockUpdated := false }

/-- Each node below the root is in storage at the version that its parent names. -/
def ChildrenStored (S : Storage) (t : NodeTree) : Prop :=
  ∀ p b n n', t.get p = some n → t.get (p ++ [b]) = some n' →
    S.node (n'.id - 1) (childVers n.node.flags b) = some n'.node

variable {S : Storage} {t : NodeTree} {m : ℕ}

variable {v : Bool} {minCounter : BitVec 32} {head : Image} {S : Storage}

theorem StoredAt.root {n : HtreeNode} (h : StoredAt S v t) (hn : t.get [] = some n) :
    S.node (n.id - 1) v = some n.node := by
  cases t with
  | nil => simp at hn
  | node a l r =>
    simp only [get_root, Option.some.injEq] at hn
    subst hn
    exact h.1

theorem StoredAt.children : ∀ {t : NodeTree} {v : Bool}, StoredAt S v t → ChildrenStored S t
  | .nil, _, _ => fun p b n n' hn _ => by simp at hn
  | .node a l r, v, h => by
    intro p b n n' hn hn'
    cases p with
    | nil =>
      simp only [get_root, Option.some.injEq, List.nil_append, get_cons] at hn hn'
      subst hn
      cases b
      · exact h.2.1.root hn'
      · exact h.2.2.root hn'
    | cons c p =>
      simp only [List.cons_append, get_cons] at hn hn'
      cases c
      · exact h.2.1.children p b n n' hn hn'
      · exact h.2.2.children p b n n' hn hn'

theorem findNode_present {i : ℕ} {n : HtreeNode} (hc : Complete m t) (hi : 1 ≤ i) (hu : i < uintMax)
    (h : t.get (pathOf i) = some n) : findNode t i = .ok (some n) := by
  rw [findNode, findClosestNode_present hi hu h]
  simp [bind, Except.bind, hc.get_id hi h]

/-! ## The nodes -/

theorem initTreeFromDataLoop_of_stored (hc : Complete m t) (hcl : t.map HtreeNode.clean = t)
    (hs : ChildrenStored S t) (hu : m < uintMax) :
    ∀ (count : ℕ) {k : ℕ} (ht : TeeFsHtree), 1 ≤ k → k + count = m → m ≤ max 1 ht.imeta.maxNodeId →
      Complete k ht.tree → (∀ q, idFrom 1 q ≤ k → ht.tree.get q = t.get q) →
      initTreeFromDataLoop S count (k + 1) ht = .ok { ht with tree := t }
  | 0, k, ht, hk, hkm, _, hck, hq => by
    obtain rfl : k = m := by omega
    have ht' : ht.tree = t := by
      refine ext_get fun q => ?_
      by_cases hqk : idFrom 1 q ≤ k
      · exact hq q hqk
      · rw [hck.shape.get_eq_none (by omega), hc.shape.get_eq_none (by omega)]
    subst ht'
    rfl
  | count + 1, k, ht, hk, hkm, hmax, hck, hq => by
    obtain ⟨par, hpar⟩ := hc.exists_get (i := (k + 1) / 2) (by omega) (by omega)
    obtain ⟨n, hn⟩ := hc.exists_get (i := k + 1) (by omega) (by omega)
    have hpar' : ht.tree.get (pathOf ((k + 1) / 2)) = some par := by
      rw [hq _ (by rw [idFrom_pathOf (by omega)]; omega), hpar]
    have himg : S.node k (childVers par.node.flags ((k + 1).testBit 0)) = some n.node := by
      have h := hs _ ((k + 1).testBit 0) par n hpar (by rw [← pathOf_parent (by omega), hn])
      rwa [hc.get_id (by omega) hn] at h
    have hread : S.rpcReadNode (k + 1) (childVers par.node.flags ((k + 1).testBit 0))
        = .ok n.node := by
      simp only [Storage.rpcReadNode, Nat.add_sub_cancel, himg]
    have hnew : n = { HtreeNode.new (k + 1) with node := n.node } := by
      have hclean : n.clean = n := by
        have := get_map HtreeNode.clean (pathOf (k + 1)) t
        rw [hcl, hn, Option.map_some, Option.some.injEq] at this
        exact this.symm
      rw [← hclean, HtreeNode.clean, hc.get_id (by omega) hn]
      rfl
    have hget : ∀ q, ((ht.tree.insert (.new (k + 1)) (pathOf (k + 1))).modify
        (fun a => { a with node := n.node }) (pathOf (k + 1))).get q
          = if q = pathOf (k + 1) then some n else ht.tree.get q := by
      intro q
      rw [get_modify, hck.get_insert hk]
      by_cases hqp : q = pathOf (k + 1)
      · simp only [if_pos hqp, Option.map_some]
        rw [← hnew]
      · simp only [if_neg hqp]
    have hmaxn : ¬ ht.imeta.maxNodeId < k + 1 := by omega
    rw [initTreeFromDataLoop, findNode_present hck (by omega) (by omega) hpar']
    simp only [bind, Except.bind, hread, getNode_next hck hk (by omega), if_neg hmaxn]
    refine initTreeFromDataLoop_of_stored hc hcl hs hu count _ (by omega) (by omega) hmax
      ((hck.insert hk).modify fun _ _ => rfl) fun q hqk => ?_
    rw [hget]
    split_ifs with hqp
    · rw [hqp, hn]
    · refine hq q ?_
      have : idFrom 1 q ≠ k + 1 := by
        intro he
        exact hqp (by rw [← he, pathOf_idFrom])
      omega

theorem initTreeFromDataLoop_inv : ∀ (count : ℕ) {k : ℕ} {ht ht' : TeeFsHtree}, 1 ≤ k →
    k < uintMax → k + count ≤ max 1 ht.imeta.maxNodeId → Complete k ht.tree →
    ht.tree.map HtreeNode.clean = ht.tree →
    initTreeFromDataLoop S count (k + 1) ht = .ok ht' →
    Complete (k + count) ht'.tree ∧ k + count < uintMax ∧ ht'.tree.map HtreeNode.clean = ht'.tree
      ∧ ht'.tree.get [] = ht.tree.get [] ∧ ht' = { ht with tree := ht'.tree }
  | 0, k, ht, ht', hk, hu, hmax, hc, hcl, h => by
    cases h
    exact ⟨hc, hu, hcl, rfl, rfl⟩
  | count + 1, k, ht, ht', hk, hu, hmax, hc, hcl, h => by
    rw [initTreeFromDataLoop] at h
    obtain ⟨par, -, h⟩ := bind_eq_ok.1 h
    cases par with
    | none => cases h
    | some par =>
      obtain ⟨img, -, h⟩ := bind_eq_ok.1 h
      obtain ⟨ht₁, hget, h⟩ := bind_eq_ok.1 h
      have hb : k + 1 < uintMax := by
        obtain ⟨n, hn, -⟩ := bind_eq_ok.1 hget
        exact (findClosestNode_bound hn).2
      have hmaxn : ¬ ht.imeta.maxNodeId < k + 1 := by omega
      rw [getNode_next hc hk hb, if_neg hmaxn] at hget
      cases hget
      have hne : ([] : List Bool) ≠ pathOf (k + 1) := (pathOf_ne_nil (by omega)).symm
      have hcomp : Complete (k + 1) ((ht.tree.insert (.new (k + 1)) (pathOf (k + 1))).modify
          (fun n => { n with node := img }) (pathOf (k + 1))) :=
        (hc.insert hk).modify fun _ _ => rfl
      have hclean : ((ht.tree.insert (.new (k + 1)) (pathOf (k + 1))).modify
          (fun n => { n with node := img }) (pathOf (k + 1))).map HtreeNode.clean
            = (ht.tree.insert (.new (k + 1)) (pathOf (k + 1))).modify
                (fun n => { n with node := img }) (pathOf (k + 1)) := by
        refine ext_get fun q => ?_
        rw [get_map, get_modify, hc.get_insert hk]
        by_cases hq : q = pathOf (k + 1)
        · simp only [if_pos hq, Option.map_some]
          rfl
        · simp only [if_neg hq]
          rw [← get_map, hcl]
      have hmax' : k + 1 + count ≤ max 1 ht.imeta.maxNodeId := by omega
      obtain ⟨h1, h2, h3, h4, h5⟩ :=
        initTreeFromDataLoop_inv count (by omega) hb (by exact hmax') hcomp hclean h
      refine ⟨by rwa [show k + (count + 1) = k + 1 + count by omega], by omega, h3, ?_, h5⟩
      rw [h4, get_modify, if_neg hne, hc.get_insert hk, if_neg hne]

/-! ## The header -/

variable (C : Crypto)

/-- What is authenticated with the header, besides the meta data. -/
def headerAad (rootHash : ByteVec 32) (head : Image) : List UInt8 :=
  rootHash.toList.take fekSize ++ leBytes 4 head.counter.toNat ++ head.encFek.toList
    ++ head.iv.toList

/-- The header decrypts, under the key it has, to the meta data. -/
def HeaderOk (uuid : Option Uuid) (root : NodeImage) (head : Image) (fek : ByteVec 16)
    (im : Imeta) : Prop :=
  C.fekCrypt uuid .decrypt head.encFek = fek
    ∧ ∃ p, C.dec fek head.iv (headerAad root.hash head) head.imeta.toList head.tag = some p
      ∧ Imeta.ofBytes p = im

theorem verifyRoot_eq_ok {ht ht' : TeeFsHtree} : verifyRoot C ht = .ok ht' ↔
    ∃ fek im, HeaderOk C ht.uuid ht.rootNode ht.head fek im
      ∧ ht' = { ht with fek := fek, imeta := im } := by
  have haad : (authencInit .decrypt ht.head.iv
      { ht with fek := C.fekCrypt ht.uuid .decrypt ht.head.encFek } none).aad
        = headerAad ht.rootNode.hash ht.head := by
    rfl
  rw [verifyRoot, bind_eq_ok]
  simp only [authencDecryptFinal, haad]
  constructor
  · rintro ⟨p, hp, he⟩
    cases he
    split at hp
    · rename_i q hq
      cases hp
      exact ⟨_, _, ⟨rfl, p, hq, rfl⟩, rfl⟩
    · cases hp
  · rintro ⟨fek, im, ⟨rfl, p, hp, rfl⟩, rfl⟩
    refine ⟨p, ?_, rfl⟩
    have hp' : C.dec (authencInit .decrypt ht.head.iv { ht with
        fek := C.fekCrypt ht.uuid .decrypt ht.head.encFek } none).key
        (authencInit .decrypt ht.head.iv { ht with
          fek := C.fekCrypt ht.uuid .decrypt ht.head.encFek } none).iv
        (headerAad ht.rootNode.hash ht.head) ht.head.imeta.toList ht.head.tag = some p := hp
    rw [hp']

/-! ## The whole open -/

/-- The handle of a file that was just opened. -/
def opened (uuid : Option Uuid) (head : Image) (fek : ByteVec 16) (im : Imeta) (t : NodeTree) :
    TeeFsHtree :=
  { tree := t, head := head, fek := fek, imeta := im, dirty := false, uuid := uuid }

theorem complete_root (root : NodeImage) :
    Complete 1 (.node ⟨1, false, false, root⟩ .nil .nil : NodeTree) :=
  ⟨by simp [Shape], by simp [Numbered]⟩

theorem teeFsHtreeOpen_of_stored {hash : Option (ByteVec 32)} {uuid : Option Uuid}
    {root : NodeImage} {fek : ByteVec 16} {im : Imeta}
    (hinit : initHeadFromData S hash minCounter = .ok (root, head))
    (hhead : HeaderOk C uuid root head fek im) (hc : Complete (max 1 im.maxNodeId) t)
    (hu : im.maxNodeId < uintMax) (hroot : t.get [] = some ⟨1, false, false, root⟩)
    (hcl : t.map HtreeNode.clean = t) (hs : ChildrenStored S t)
    (hv : verifyNode C (some im.fileMeta) t = true) :
    teeFsHtreeOpen C S hash minCounter uuid = .ok (opened uuid head fek im t) := by
  have hvr : verifyRoot C (.ofHead root head uuid) = .ok ⟨.node ⟨1, false, false, root⟩ .nil .nil,
      head, fek, im, false, uuid⟩ :=
    (verifyRoot_eq_ok C).2 ⟨fek, im, hhead, rfl⟩
  have hloop := initTreeFromDataLoop_of_stored hc hcl hs (by rw [uintMax] at *; omega)
    (im.maxNodeId - 1) (k := 1)
    ⟨.node ⟨1, false, false, root⟩ .nil .nil, head, fek, im, false, uuid⟩
    le_rfl (by omega) le_rfl (complete_root root) (by
      intro q hq
      have hq1 : q = [] := by
        cases q with
        | nil => rfl
        | cons b q =>
          have := le_idFrom q (2 * 1 + b.toNat)
          simp only [idFrom_cons] at hq
          omega
      rw [hq1, hroot]
      rfl)
  rw [teeFsHtreeOpen, hinit]
  simp only [bind, Except.bind, hvr, initTreeFromData, hloop, verifyTree, hv, if_true]
  rfl

theorem teeFsHtreeOpen_inv {hash : Option (ByteVec 32)} {uuid : Option Uuid} {ht : TeeFsHtree}
    (h : teeFsHtreeOpen C S hash minCounter uuid = .ok ht) :
    ∃ root, initHeadFromData S hash minCounter = .ok (root, ht.head)
      ∧ HeaderOk C uuid root ht.head ht.fek ht.imeta ∧ Complete (max 1 ht.imeta.maxNodeId) ht.tree
      ∧ ht.imeta.maxNodeId < uintMax ∧ ht.tree.get [] = some ⟨1, false, false, root⟩
      ∧ ht.tree.map HtreeNode.clean = ht.tree
      ∧ verifyNode C (some ht.imeta.fileMeta) ht.tree = true ∧ ht.dirty = false
      ∧ ht.uuid = uuid := by
  rw [teeFsHtreeOpen] at h
  obtain ⟨⟨root, head⟩, hinit, h⟩ := bind_eq_ok.1 h
  obtain ⟨ht₁, hvr, h⟩ := bind_eq_ok.1 h
  obtain ⟨fek, im, hhead, rfl⟩ := (verifyRoot_eq_ok C).1 hvr
  obtain ⟨ht₂, hloop, h⟩ := bind_eq_ok.1 h
  obtain ⟨u, hver, h⟩ := bind_eq_ok.1 h
  cases h
  obtain ⟨hc, hu, hcl, hroot, he⟩ := initTreeFromDataLoop_inv _ (k := 1) le_rfl (by decide)
    (by simp only; omega) (complete_root root) rfl hloop
  have hver : verifyNode C (some ht.imeta.fileMeta) ht.tree = true := by
    by_contra hne
    simp only [verifyTree, if_neg hne] at hver
    cases hver
  have hm : max 1 im.maxNodeId = 1 + (im.maxNodeId - 1) := by omega
  rw [he] at hver ⊢
  refine ⟨root, hinit, hhead, ?_, ?_, hroot, hcl, hver, rfl, rfl⟩
  · show Complete (max 1 im.maxNodeId) ht.tree
    rwa [hm]
  · show im.maxNodeId < uintMax
    simp only at hu
    omega

/-! ## Selecting a header -/

theorem rpcReadHead_eq_ok : S.rpcReadHead v = .ok head ↔ S.head v = some head := by
  rw [Storage.rpcReadHead]
  cases S.head v <;> simp

theorem rpcReadNode_eq_ok {i : ℕ} {ni : NodeImage} :
    S.rpcReadNode i v = .ok ni ↔ S.node (i - 1) v = some ni := by
  rw [Storage.rpcReadNode]
  cases S.node (i - 1) v <;> simp

theorem initHead_none {root : NodeImage} :
    initHeadFromData S none minCounter = .ok (root, head) ↔
      ∃ h0 h1 idx, S.head false = some h0 ∧ S.head true = some h1
        ∧ getIdxFromCounter h0.counter h1.counter = some idx ∧ S.node 0 idx = some root
        ∧ head = (if idx then h1 else h0) ∧ ¬ head.counter < minCounter := by
  constructor
  · intro h
    obtain ⟨h0, hh0, h⟩ := bind_eq_ok.1 h
    obtain ⟨h1, hh1, h⟩ := bind_eq_ok.1 h
    cases hidx : getIdxFromCounter h0.counter h1.counter with
    | none =>
      simp only [hidx] at h
      cases h
    | some idx =>
      simp only [hidx] at h
      obtain ⟨ni, hni, h⟩ := bind_eq_ok.1 h
      change (if (if idx then h1 else h0).counter < minCounter then .error .security
        else .ok (ni, if idx then h1 else h0) : TeeResult (NodeImage × Image)) = _ at h
      by_cases hlt : (if idx then h1 else h0).counter < minCounter
      · rw [if_pos hlt] at h
        cases h
      · rw [if_neg hlt] at h
        cases h
        exact ⟨h0, h1, idx, rpcReadHead_eq_ok.1 hh0, rpcReadHead_eq_ok.1 hh1, hidx,
          rpcReadNode_eq_ok.1 hni, rfl, hlt⟩
  · rintro ⟨h0, h1, idx, hh0, hh1, hidx, hn, rfl, hlt⟩
    simp only [initHeadFromData, rpcReadHead_eq_ok.2 hh0, rpcReadHead_eq_ok.2 hh1, bind,
      Except.bind, hidx, (rpcReadNode_eq_ok (i := 1)).2 hn, pure, Except.pure, if_neg hlt]

end Optee.Htree
