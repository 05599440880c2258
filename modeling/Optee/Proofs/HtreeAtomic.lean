import Optee.Proofs.HtreeRun

/-!
# Transactions are atomic

The writes of a transaction leave every version that the committed root reaches as it is
(`transaction_avoids`), so wherever it is cut, the committed file is still there
(`Committed.frame`).
-/

namespace Optee.Htree

open BinTree

variable {C : Crypto} {blockSize : ℕ} {S S' : Storage} {ht ht' : TeeFsHtree}
  {contents : List (ByteVec blockSize)}

/-! ## Writes that avoid what a root reaches -/

/-- A write goes to no version of a node, a block or the header that the tree has in storage. -/
def Avoids (t : NodeTree) (v : Bool) : Write → Prop
  | .head u _ => u = !v
  | .node i u _ => ∀ p, (t.get p).isSome → i = idFrom 1 p - 1 → u = !versAt v t p
  | .block b u _ => ∀ n, t.get (pathOf (b + 1)) = some n → u = !blockVers n.node.flags

theorem StoredAt.frame : ∀ {t : NodeTree} {k : ℕ} {v : Bool}, StoredAt S v t →
    Numbered HtreeNode.id k t →
    (∀ p, (t.get p).isSome →
      S'.node (idFrom k p - 1) (versAt v t p) = S.node (idFrom k p - 1) (versAt v t p)) →
    StoredAt S' v t
  | .nil, _, _, _, _, _ => trivial
  | .node n c0 c1, k, v, h, hn, hS => by
    refine ⟨?_, h.2.1.frame hn.2.1 fun p hp => ?_, h.2.2.frame hn.2.2 fun p hp => ?_⟩
    · have hk := hS [] rfl
      rw [idFrom_nil, ← hn.1, versAt] at hk
      rw [hk]
      exact h.1
    · simpa [versAt] using hS (false :: p) (by simpa using hp)
    · simpa [versAt] using hS (true :: p) (by simpa using hp)

theorem Committed.frame {ws : List Write} (h : Committed C S ht contents)
    (hws : ∀ w ∈ ws, Avoids ht.tree ht.vers w)
    (hother : ∃ ni, (S.writes ws).node 0 (!ht.vers) = some ni ∧ (ni.hash = ht.rootNode.hash →
      ∃ k, Alike C k ht ∧ ni = k.rootNode ∧ (S.writes ws).head (!ht.vers) = some k.head)) :
    Committed C (S.writes ws) ht contents where
  synced := h.synced
  size := h.size
  stored := by
    refine h.stored.frame h.synced.complete.numbered fun p hp => node_writes fun d hd => ?_
    have := hws _ hd p hp rfl
    simp at this
  head := by
    rw [head_writes fun d hd => ?_, h.head]
    have := hws _ hd
    simp [Avoids] at this
  blocks := by
    intro b d hb
    obtain ⟨n, enc, hn, hbl, hrest⟩ := h.blocks b d hb
    refine ⟨n, enc, hn, ?_, hrest⟩
    rw [block_writes fun d hd => ?_, hbl]
    have := hws _ hd n hn
    simp at this
  other := hother

/-! ## The tree of an open transaction -/

/-- A tree has the nodes of an earlier one, with the same children versions, and other block
versions where blocks were written. -/
def Extends (t₀ t : NodeTree) : Prop :=
  ∀ p n₀, t₀.get p = some n₀ → ∃ n, t.get p = some n
    ∧ (∀ b, childVers n.node.flags b = childVers n₀.node.flags b)
    ∧ blockVers n.node.flags = xor (blockVers n₀.node.flags) n.blockUpdated

theorem Extends.versAt_eq : ∀ (p : List Bool) {t₀ t : NodeTree} {v : Bool}, Extends t₀ t →
    (t₀.get p).isSome → versAt v t p = versAt v t₀ p
  | [], t₀, t, v, _, _ => by simp [versAt]
  | b :: p, .nil, t, v, _, hp => by simp at hp
  | b :: p, .node n₀ c0 c1, .nil, v, h, hp => by
    obtain ⟨n, hn, -⟩ := h [] n₀ rfl
    simp at hn
  | b :: p, .node n₀ c0 c1, .node n d0 d1, v, h, hp => by
    have hroot : childVers n.node.flags b = childVers n₀.node.flags b := by
      obtain ⟨n', hn', hc, -⟩ := h [] n₀ rfl
      cases hn'
      exact hc b
    have hsub : Extends (if b then c1 else c0) (if b then d1 else d0) := by
      intro q m hm
      have := h (b :: q) m (by simpa using hm)
      simpa using this
    simp only [versAt, hroot]
    exact hsub.versAt_eq p (by simpa using hp)

theorem writeFlags_blockVers {n : HtreeNode} {v : Bool}
    (h : blockVers n.node.flags = xor v n.blockUpdated) : blockVers n.writeFlags = !v := by
  rw [HtreeNode.writeFlags]
  cases hu : n.blockUpdated
  · simp [h, hu]
  · simp [h, hu]

/-- The state of a transaction after some of its block writes. -/
structure Pending (C : Crypto) (S : Storage) (ht₀ ht : TeeFsHtree) (log : List Write)
    (contents : List (ByteVec blockSize)) : Prop where
  live : Live C (S.writes log) ht contents
  same : SameFile ht ht₀
  head : ht.head = ht₀.head
  fileMeta : ht.imeta.fileMeta = ht₀.imeta.fileMeta
  extends_tree : Extends ht₀.tree ht.tree
  avoids : ∀ w ∈ log, Avoids ht₀.tree ht₀.vers w
  blocks : ∀ w ∈ log, ∃ b u d, w = .block b u d
  updated : ht.dirty = true → ∃ p n, ht.tree.get p = some n ∧ n.blockUpdated = true
  clean : ht.dirty = false → ht = ht₀ ∧ log = []

theorem Committed.pending (h : Committed C S ht contents) : Pending C S ht ht [] contents where
  live := h.live
  same := ⟨rfl, rfl, rfl⟩
  head := rfl
  fileMeta := rfl
  extends_tree := fun p n hn => ⟨n, hn, fun _ => rfl, by
    rw [(clean_get h.synced.clean hn).2, Bool.xor_false]⟩
  avoids := by simp
  blocks := by simp
  updated := fun hd => absurd (hd.symm.trans h.synced.dirty) (by decide)
  clean := fun _ => ⟨rfl, rfl⟩

variable {ht₀ : TeeFsHtree} {log ws : List Write}

theorem Pending.writeBlock {w : BlockWrite blockSize} {ws : List Write}
    (h : Pending C S ht₀ ht log contents) (hb : w.blockNum ≤ contents.length)
    (hw : teeFsHtreeWriteBlock C ht w.blockNum w.data.toList w.rnd = .ok (ht', ws)) :
    Pending C S ht₀ ht' (log ++ ws) (writeContents contents w.blockNum w.data) := by
  obtain ⟨n, W⟩ := written_of_writeBlock h.live.complete (by omega) (by omega) hw
  have hht := W.handle
  have hlive := h.live.writeBlock W hb
  -- the node that is written, where the committed tree has it
  have hnode : ∀ n₀, ht₀.tree.get (pathOf (w.blockNum + 1)) = some n₀ →
      (∀ b, childVers n.node.flags b = childVers n₀.node.flags b)
        ∧ blockVers n.node.flags = xor (blockVers n₀.node.flags) n.blockUpdated := by
    intro n₀ hn₀
    obtain ⟨n', hn', hr⟩ := h.extends_tree _ _ hn₀
    rcases W.node with ⟨-, hn⟩ | ⟨hm, -⟩
    · cases hn.symm.trans hn'
      exact hr
    · rw [hm, h.live.complete.get_none (by omega)] at hn'
      cases hn'
  refine ⟨?_, ?_, ?_, ?_, ?_, ?_, ?_, fun _ => ?_, fun hd => ?_⟩
  · rw [writes_append]
    exact hlive
  · rw [hht]
    exact ⟨h.same.uuid, h.same.fek, h.same.encFek⟩
  · rw [hht]
    exact h.head
  · rw [hht]
    exact h.fileMeta
  · intro p n₀ hn₀
    rw [W.get]
    split_ifs with hp
    · subst hp
      obtain ⟨hc, hbv⟩ := hnode n₀ hn₀
      refine ⟨_, rfl, fun b => (writeFlags_childVers n b).trans (hc b), ?_⟩
      show blockVers n.writeFlags = xor _ true
      rw [writeFlags_blockVers hbv, Bool.xor_true]
    · exact h.extends_tree p n₀ hn₀
  · intro w' hw'
    rcases List.mem_append.1 hw' with hl | hl
    · exact h.avoids w' hl
    · rw [W.writes, List.mem_singleton] at hl
      subst hl
      exact fun n₀ hn₀ => writeFlags_blockVers (hnode n₀ hn₀).2
  · intro w' hw'
    rcases List.mem_append.1 hw' with hl | hl
    · exact h.blocks w' hl
    · rw [W.writes, List.mem_singleton] at hl
      exact ⟨_, _, _, hl⟩
  · exact ⟨_, _, by rw [W.get, if_pos rfl], rfl⟩
  · rw [hht] at hd
    cases hd

theorem Pending.writeBlocks : ∀ {ws : List (BlockWrite blockSize)} {ht : TeeFsHtree}
    {log log' : List Write} {contents : List (ByteVec blockSize)},
    Pending C S ht₀ ht log contents → InOrder contents ws →
    Htree.writeBlocks C ht ws = .ok (ht', log') →
    Pending C S ht₀ ht' (log ++ log') (writeAll contents ws)
  | [], ht, log, log', contents, h, _, hw => by
    cases hw
    rwa [List.append_nil]
  | w :: ws, ht, log, log', contents, h, ho, hw => by
    obtain ⟨⟨ht₁, log₁⟩, hw1, hw⟩ := bind_eq_ok.1 hw
    obtain ⟨⟨ht₂, log₂⟩, hw2, hw⟩ := bind_eq_ok.1 hw
    cases hw
    rw [← List.append_assoc]
    have hrest := Pending.writeBlocks (h.writeBlock ho.1 hw1) ho.2 hw2
    exact hrest

/-! ## The sync of a transaction -/

theorem Pending.sync_log (h : Pending C S ht₀ ht log contents) (hd : ht.dirty = true)
    {rnd : ByteVec 16} {ws : List Write} (hs : teeFsHtreeSyncToStorage C ht rnd = (ht', ws)) :
    ∃ nodes, ws = nodes ++ [.head (!ht₀.vers) ht'.head]
      ∧ (∀ w ∈ nodes, Avoids ht₀.tree ht₀.vers w)
      ∧ ∀ w ∈ nodes, ∃ i u d, w = .node i u d ∧ (i = 0 → d = ht'.rootNode) := by
  obtain ⟨head, he, -, -, -⟩ := syncToStorage_dirty (C := C) rnd hd h.live.fek h.live.bound
  rw [he] at hs
  cases hs
  have hvers : ht.vers = ht₀.vers := by rw [TeeFsHtree.vers, h.head, TeeFsHtree.vers]
  have hnum := h.live.complete.numbered
  refine ⟨(syncTree C ht).2.1, by rw [← hvers]; rfl, fun w hw => ?_, fun w hw => ?_⟩
  · obtain ⟨p, d, -, rfl⟩ := sync_writes C ht.tree (some ht.imeta.fileMeta) ht.vers hnum w hw
    intro q hq hpq
    have hp1 := le_idFrom p 1
    have hq1 := le_idFrom q 1
    obtain rfl : p = q := (idFrom_inj le_rfl).1 (by omega)
    rw [h.extends_tree.versAt_eq p hq, hvers]
  · obtain ⟨p, d, -, rfl⟩ := sync_writes C ht.tree (some ht.imeta.fileMeta) ht.vers hnum w hw
    refine ⟨_, _, d, rfl, fun h0 => ?_⟩
    rw [h0] at hw
    obtain ⟨n, hn, hdn⟩ := sync_write_root C hnum hw
    rw [hdn, rootNode_eq hn]

/-! ## Every cut of a transaction -/

theorem Committed.cut {log nodes : List Write} (h : Committed C S ht contents)
    (hlog : ∀ w ∈ log ++ nodes, Avoids ht.tree ht.vers w)
    (hblocks : ∀ w ∈ log, ∃ b u d, w = Write.block b u d)
    (hnodes : ∀ w ∈ nodes, ∃ i u d, w = Write.node i u d ∧ (i = 0 → d = ht'.rootNode))
    (hne : ht'.rootNode.hash ≠ ht.rootNode.hash) (n : ℕ) :
    Committed C (S.writes ((log ++ nodes).take n)) ht contents
      ∧ ∀ u, (S.writes ((log ++ nodes).take n)).head u = S.head u := by
  have hmem : ∀ w ∈ (log ++ nodes).take n, w ∈ log ++ nodes := fun w hw => List.mem_of_mem_take hw
  have hhead : ∀ u, (S.writes ((log ++ nodes).take n)).head u = S.head u := by
    refine fun u => head_writes fun d hd => ?_
    rcases List.mem_append.1 (hmem _ hd) with hl | hl
    · obtain ⟨b, u, d, he⟩ := hblocks _ hl
      cases he
    · obtain ⟨i, u, d, he, -⟩ := hnodes _ hl
      cases he
  refine ⟨h.frame (fun w hw => hlog w (hmem w hw)) ?_, hhead⟩
  -- the other version of the root is as it was, or that of the transaction
  obtain ⟨ni, hni, hother⟩ := h.other
  rcases node_writes_or (i := 0) (v := !ht.vers) ((log ++ nodes).take n) S
    with hsame | ⟨d, hd, hnew⟩
  · exact ⟨ni, hsame.trans hni, by rw [hhead]; exact hother⟩
  · refine ⟨d, hnew, fun he => absurd he ?_⟩
    rcases List.mem_append.1 (hmem _ hd) with hl | hl
    · obtain ⟨b, u, d', he⟩ := hblocks _ hl
      cases he
    · obtain ⟨i, u, d', he, hroot⟩ := hnodes _ hl
      cases he
      rw [hroot rfl]
      exact hne

theorem Pending.committed {contents' : List (ByteVec blockSize)} {ht₂ : TeeFsHtree}
    {rnd : ByteVec 16} (P : Pending C S ht ht' log contents') (hc : Committed C S ht contents)
    (hd : ht'.dirty = true) (hs : teeFsHtreeSyncToStorage C ht' rnd = (ht₂, ws))
    (hne : ht₂.rootNode.hash ≠ ht.rootNode.hash) (hwrap : ht.head.counter.toNat + 1 < 2 ^ 32) :
    Committed C (S.writes (log ++ ws)) ht contents
      ∧ Committed C (S.writes (log ++ ws)) ht₂ contents' ∧ Selects (S.writes (log ++ ws)) ht₂
      ∧ ht.head.counter < ht₂.head.counter := by
  have D := P.live.syncDone hs hd
  rw [← writes_append] at D
  obtain ⟨nodes, rfl, hav, -⟩ := P.sync_log hd hs
  have hvers : ht₂.vers = !ht.vers := by
    rw [D.vers, TeeFsHtree.vers, P.head]
    rfl
  have hcount : ht₂.head.counter = ht.head.counter + 1 := by rw [D.counter, P.head]
  have hroot := D.stored.root D.synced.get_root
  have hold : Committed C (S.writes (log ++ (nodes ++ [.head (!ht.vers) ht₂.head]))) ht
      contents := by
    refine hc.frame (fun w hw => ?_) ⟨_, hvers ▸ hroot, fun he => absurd he hne⟩
    rcases List.mem_append.1 hw with hl | hl
    · exact P.avoids w hl
    · rcases List.mem_append.1 hl with hl | hl
      · exact hav w hl
      · rw [List.mem_singleton] at hl
        subst hl
        rfl
  have hlive := D.live P.live
  have hhead : ∀ S₁ : Storage, S₁.head ht.vers = some ht.head →
      S₁.head (!ht₂.vers) = some ht.head := by
    intro S₁ h
    rwa [hvers, Bool.not_not]
  refine ⟨hold, ⟨⟨D.synced, hlive.maxNode, D.stored, by rw [D.head, if_pos rfl], hlive.blocks⟩,
    _, ?_, fun he => absurd he.symm hne⟩, ?_, ?_⟩
  · rw [hvers, Bool.not_not]
    exact hold.node_root
  · exact selects_next (by rw [D.head, if_pos rfl]) (hhead _ hold.head) hcount hwrap
  · rw [BitVec.lt_def, hcount, BitVec.toNat_add]
    have h1 : (1 : BitVec 32).toNat = 1 := by decide
    rw [h1, Nat.mod_eq_of_lt hwrap]
    omega

end Optee.Htree
