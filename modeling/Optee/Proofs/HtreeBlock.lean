import Optee.Proofs.HtreeSync

/-!
# Writing, reading and cutting off blocks

A write changes or adds exactly its node, a read returns what was sealed (`readBlock_eq`), and a
truncation cuts the tree back, which keeps what is in storage only where something below each node
that loses a child was dirty already (`Kept.cut`).
-/

namespace Optee.Htree

open BinTree

variable {C : Crypto} {S : Storage} {ht : TeeFsHtree} {m b : ℕ}

/-- What is authenticated with a block, besides its data. -/
def blockAad (head : Image) (iv : ByteVec 16) : List UInt8 := head.encFek.toList ++ iv.toList

/-- The flags of a node whose block is written; the version changes once between two syncs. -/
def HtreeNode.writeFlags (n : HtreeNode) : BitVec 16 :=
  if n.blockUpdated then n.node.flags else n.node.flags ^^^ committedBlock

/-- The node after a write of its block. -/
def HtreeNode.written (C : Crypto) (ht : TeeFsHtree) (block : List UInt8) (rnd : ByteVec 16)
    (n : HtreeNode) : HtreeNode :=
  { n with
    node := { n.node with
      flags := n.writeFlags, iv := rnd, tag := (C.enc ht.fek rnd (blockAad ht.head rnd) block).2 }
    blockUpdated := true
    dirty := true }

theorem writeFlags_childVers (n : HtreeNode) (b : Bool) :
    childVers n.writeFlags b = childVers n.node.flags b := by
  rw [HtreeNode.writeFlags]
  split_ifs <;> simp

theorem writeBlock_present {n : HtreeNode} (hc : Complete m ht.tree) (hu : b + 1 < uintMax)
    (hn : ht.tree.get (pathOf (b + 1)) = some n) (block : List UInt8) (rnd : ByteVec 16) :
    teeFsHtreeWriteBlock C ht b block rnd = .ok ({ ht with
        dirty := true
        tree := ht.tree.modify (fun _ => n.written C ht block rnd) (pathOf (b + 1)) },
      [.block b (blockVers n.writeFlags) (C.enc ht.fek rnd (blockAad ht.head rnd) block).1]) := by
  have hm : b + 1 ≤ m := by
    by_contra hlt
    rw [hc.get_none (by omega)] at hn
    cases hn
  simp only [teeFsHtreeWriteBlock, blockNumToNodeId, getNode_present hc (by omega) hm hu, bind,
    Except.bind, hn]
  rfl

theorem writeBlock_next (hc : Complete m ht.tree) (hm : 1 ≤ m) (hu : m + 1 < uintMax)
    (block : List UInt8) (rnd : ByteVec 16) :
    teeFsHtreeWriteBlock C ht m block rnd = .ok ({ ht with
        dirty := true
        tree := ht.tree.insert ((HtreeNode.new (m + 1)).written C ht block rnd) (pathOf (m + 1))
        imeta := { ht.imeta with
          maxNodeId := if ht.imeta.maxNodeId < m + 1 then m + 1 else ht.imeta.maxNodeId } },
      [.block m (blockVers (HtreeNode.new (m + 1)).writeFlags)
        (C.enc ht.fek rnd (blockAad ht.head rnd) block).1]) := by
  have hg := hc.get_insert hm (pathOf (m + 1))
  rw [if_pos rfl] at hg
  have hmi : ∀ f, (ht.tree.insert (.new (m + 1)) (pathOf (m + 1))).modify f (pathOf (m + 1))
      = ht.tree.insert (f (.new (m + 1))) (pathOf (m + 1)) := fun f =>
    modify_insert f _ _ _ (hc.get_none (by omega))
  simp only [teeFsHtreeWriteBlock, blockNumToNodeId, getNode_next hc hm hu, bind, Except.bind, hg,
    hmi]
  rfl

theorem readBlock_eq (ht : TeeFsHtree) {n : HtreeNode} {blockSize : ℕ} {enc d : List UInt8}
    (hc : Complete m ht.tree) (hu : b + 1 < uintMax) (hn : ht.tree.get (pathOf (b + 1)) = some n)
    (hS : S.block b (blockVers n.node.flags) = some enc) (hlen : enc.length = blockSize)
    (hd : C.dec ht.fek n.node.iv (blockAad ht.head n.node.iv) enc n.node.tag = some d) :
    teeFsHtreeReadBlock C blockSize S ht b = .ok d := by
  have hm : b + 1 ≤ m := by
    by_contra hlt
    rw [hc.get_none (by omega)] at hn
    cases hn
  have hdec : authencDecryptFinal C (authencInit .decrypt n.node.iv ht (some n.node)) n.node.tag enc
      = .ok d := by
    have hd' : C.dec (authencInit .decrypt n.node.iv ht (some n.node)).key
        (authencInit .decrypt n.node.iv ht (some n.node)).iv
        (authencInit .decrypt n.node.iv ht (some n.node)).aad enc n.node.tag = some d := hd
    rw [authencDecryptFinal, hd']
  simp only [teeFsHtreeReadBlock, blockNumToNodeId, getNode_present hc (by omega) hm hu, bind,
    Except.bind, hn, hS, if_neg (not_not.2 hlen), hdec]

/-! ## Changed and added nodes -/

theorem Kept.modify {f : HtreeNode → HtreeNode} : ∀ (p : List Bool) {t : NodeTree}
    {fm fm' : Option FileMeta} {v : Bool} {n : HtreeNode}, t.get p = some n →
    (f n).dirty = true → (∀ b, childVers (f n).node.flags b = childVers n.node.flags b) →
    Kept C S fm v t → Kept C S fm' v (t.modify f p)
  | p, .nil, fm, fm', v, n, hn, _, _, _ => by simp at hn
  | p, .node a c0 c1, fm, fm', v, n, hn, hd, hf, h => by
    -- everything above the changed node has a dirty node below it
    have hany : ((BinTree.node a c0 c1).modify f p).any HtreeNode.dirty = true :=
      any_eq_true.2 ⟨p, f n, by rw [get_modify, if_pos rfl, hn]; rfl, hd⟩
    cases p with
    | nil =>
      simp only [get_root, Option.some.injEq] at hn
      subst hn
      refine ⟨fun he => absurd (hany.symm.trans he) (by decide), ?_, ?_⟩
      · rw [hf]
        exact h.2.1
      · rw [hf]
        exact h.2.2
    | cons c p =>
      cases c
      · exact ⟨fun he => absurd (hany.symm.trans he) (by decide),
          Kept.modify p (by simpa using hn) hd hf h.2.1, h.2.2⟩
      · exact ⟨fun he => absurd (hany.symm.trans he) (by decide), h.2.1,
          Kept.modify p (by simpa using hn) hd hf h.2.2⟩

theorem Kept.insert {a : HtreeNode} (hd : a.dirty = true) : ∀ (p : List Bool) {t : NodeTree}
    {fm : Option FileMeta} {v : Bool}, (t.insert a p).get p = some a →
    Kept C S fm v t → Kept C S fm v (t.insert a p)
  | [], .nil, fm, v, _, _ =>
    ⟨fun he => by simp [BinTree.any, hd] at he, trivial, trivial⟩
  | _ :: _, .nil, fm, v, hg, _ => by simp [BinTree.insert] at hg
  | [], .node c c0 c1, fm, v, _, h => h
  | true :: p, .node c c0 c1, fm, v, hg, h => by
    have hany := any_eq_true.2 ⟨_, a, hg, hd⟩
    exact ⟨fun he => absurd (hany.symm.trans he) (by decide), h.2.1,
      Kept.insert hd p (by simpa [BinTree.insert] using hg) h.2.2⟩
  | false :: p, .node c c0 c1, fm, v, hg, h => by
    have hany := any_eq_true.2 ⟨_, a, hg, hd⟩
    exact ⟨fun he => absurd (hany.symm.trans he) (by decide),
      Kept.insert hd p (by simpa [BinTree.insert] using hg) h.2.1, h.2.2⟩

/-- What a write of a block up to the next one did. -/
structure Written (C : Crypto) (m b : ℕ) (ht : TeeFsHtree) (block : List UInt8) (rnd : ByteVec 16)
    (ht' : TeeFsHtree) (ws : List Write) (n : HtreeNode) : Prop where
  node : b < m ∧ ht.tree.get (pathOf (b + 1)) = some n ∨ b = m ∧ n = .new (m + 1)
  bound : b + 1 < uintMax
  handle : ht' = { ht with
    dirty := true
    tree := ht'.tree
    imeta := { ht.imeta with
      maxNodeId := if b < m then ht.imeta.maxNodeId else max ht.imeta.maxNodeId (b + 1) } }
  writes : ws = [.block b (blockVers n.writeFlags)
    (C.enc ht.fek rnd (blockAad ht.head rnd) block).1]
  complete : Complete (max m (b + 1)) ht'.tree
  get : ∀ q, ht'.tree.get q
    = if q = pathOf (b + 1) then some (n.written C ht block rnd) else ht.tree.get q
  kept : ∀ S fm v, Kept C S fm v ht.tree → Kept C S fm v ht'.tree

theorem written_of_writeBlock {block : List UInt8} {rnd : ByteVec 16} {ht' : TeeFsHtree}
    {ws : List Write} (hc : Complete m ht.tree) (hm : 1 ≤ m) (hb : b ≤ m)
    (h : teeFsHtreeWriteBlock C ht b block rnd = .ok (ht', ws)) :
    ∃ n, Written C m b ht block rnd ht' ws n := by
  have hu : b + 1 < uintMax := by
    obtain ⟨ht₁, hget, -⟩ := bind_eq_ok.1 h
    obtain ⟨n, hn, -⟩ := bind_eq_ok.1 hget
    exact (findClosestNode_bound hn).2
  rcases Nat.lt_or_ge b m with hlt | hge
  · obtain ⟨n, hn⟩ := hc.exists_get (i := b + 1) (by omega) (by omega)
    rw [writeBlock_present hc hu hn] at h
    cases h
    refine ⟨n, .inl ⟨hlt, hn⟩, hu, by simp [hlt], rfl, ?_, fun q => ?_, fun S fm v hk => ?_⟩
    · rw [show max m (b + 1) = m by omega]
      exact hc.modify fun n' hn' => by
        cases hn.symm.trans hn'
        rfl
    · rw [get_modify]
      split_ifs with hq
      · rw [hq, hn]
        rfl
      · rfl
    · exact hk.modify _ hn rfl fun c => writeFlags_childVers n c
  · obtain rfl : b = m := by omega
    rw [writeBlock_next hc hm hu] at h
    cases h
    have hgi : ∀ q, (ht.tree.insert ((HtreeNode.new (b + 1)).written C ht block rnd)
        (pathOf (b + 1))).get q = if q = pathOf (b + 1)
          then some ((HtreeNode.new (b + 1)).written C ht block rnd) else ht.tree.get q := by
      intro q
      have hi := modify_insert (fun _ => (HtreeNode.new (b + 1)).written C ht block rnd)
        (HtreeNode.new (b + 1)) (pathOf (b + 1)) ht.tree (hc.get_none (by omega))
      rw [← hi, get_modify, hc.get_insert hm]
      split_ifs <;> rfl
    refine ⟨.new (b + 1), .inr ⟨rfl, rfl⟩, hu, ?_, rfl, ?_, hgi, fun S fm v hk => ?_⟩
    · simp only [lt_irrefl, if_false, TeeFsHtree.mk.injEq, Imeta.mk.injEq, true_and, and_true]
      split_ifs <;> omega
    · rw [show max b (b + 1) = b + 1 by omega]
      have hi := modify_insert (fun _ => (HtreeNode.new (b + 1)).written C ht block rnd)
        (HtreeNode.new (b + 1)) (pathOf (b + 1)) ht.tree (hc.get_none (by omega))
      rw [← hi]
      refine (hc.insert hm).modify fun n' hn' => ?_
      rw [hc.get_insert hm, if_pos rfl] at hn'
      cases hn'
      rfl
    · exact hk.insert rfl _ (by rw [hgi, if_pos rfl])

/-! ## Cutting blocks off -/

theorem Kept.cut {k : ℕ} : ∀ {t : NodeTree} {i : ℕ} {fm : Option FileMeta} {v : Bool},
    cutDirty k i t = true → Kept C S fm v t → Kept C S fm v (t.cut k i)
  | .nil, _, _, _, _, _ => trivial
  | .node n c0 c1, i, fm, v, hcd, h => by
    simp only [cutDirty, Bool.and_eq_true] at hcd
    by_cases hi : i ≤ k
    · have hcut : (BinTree.node n c0 c1).cut k i
          = .node n (c0.cut k (2 * i)) (c1.cut k (2 * i + 1)) := if_pos hi
      have hlt : decide (k < i) = false := decide_eq_false (by omega)
      rw [hlt, Bool.false_or, Bool.or_eq_true, decide_eq_true_eq] at hcd
      rw [hcut] at hcd ⊢
      refine ⟨fun he => ?_, h.2.1.cut hcd.1.2, h.2.2.cut hcd.2⟩
      rcases hcd.1.1 with hsame | hany
      · rw [hsame] at he
        simp only [BinTree.node.injEq, true_and] at hsame
        rw [hsame.1, hsame.2]
        exact h.1 he
      · exact absurd (hany.symm.trans he) (by decide)
    · rw [show (BinTree.node n c0 c1).cut k i = .nil from if_neg hi]
      trivial

theorem Complete.cut {k : ℕ} {t : NodeTree} (h : Complete m t) : Complete (min k m) (t.cut k 1) :=
  ⟨h.shape.cut, h.numbered.cut⟩

theorem truncate_eq (hc : Complete (max 1 ht.imeta.maxNodeId) ht.tree)
    (hu : ht.imeta.maxNodeId < uintMax) :
    teeFsHtreeTruncate ht b = .ok { ht with
      tree := ht.tree.cut (b + 1) 1
      imeta := { ht.imeta with maxNodeId := min ht.imeta.maxNodeId (b + 1) }
      dirty := ht.dirty || decide (b + 1 < ht.imeta.maxNodeId) } := by
  rw [teeFsHtreeTruncate, blockNumToNodeId]
  rcases Nat.lt_or_ge (b + 1) ht.imeta.maxNodeId with hlt | hge
  · obtain ⟨ht', hl, hc', hg, he⟩ := truncateLoop_spec (ht.imeta.maxNodeId - (b + 1)) (k := b + 1)
      ht (by omega)
      (by rwa [show b + 1 + (ht.imeta.maxNodeId - (b + 1)) = max 1 ht.imeta.maxNodeId by omega])
      (by omega) (by omega)
    have hcut : ht'.tree = ht.tree.cut (b + 1) 1 := by
      have hcc := hc.cut (k := b + 1)
      rw [show min (b + 1) (max 1 ht.imeta.maxNodeId) = b + 1 by omega] at hcc
      refine ext_get fun q => ?_
      rw [hg, get_cut]
    rw [hl, he, hcut, min_eq_right (by omega)]
    simp [hlt]
  · have hcut : ht.tree.cut (b + 1) 1 = ht.tree := by
      have hcc := hc.cut (k := b + 1)
      rw [show min (b + 1) (max 1 ht.imeta.maxNodeId) = max 1 ht.imeta.maxNodeId by omega] at hcc
      refine ext_get fun q => ?_
      rw [get_cut]
      split_ifs with hq
      · rfl
      · exact (hc.shape.get_eq_none (by omega)).symm
    rw [Nat.sub_eq_zero_of_le hge, hcut, min_eq_left hge]
    simp [teeFsHtreeTruncateLoop, Nat.not_lt.2 hge]

end Optee.Htree
