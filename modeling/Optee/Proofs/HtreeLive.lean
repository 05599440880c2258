import Optee.Proofs.HtreeCommitted

/-!
# A file between two syncs

Between two syncs every block decrypts to the data last written to it (`Readable`), and the nodes
with nothing dirty below them are in storage (`Live`). Every operation keeps the first, and
truncations below nodes that a sync will visit keep the second.
-/

namespace Optee.Htree

open BinTree

variable {C : Crypto} {blockSize : ℕ}

/-- The blocks are read through the handle. -/
structure Readable (C : Crypto) (S : Storage) (ht : TeeFsHtree)
    (contents : List (ByteVec blockSize)) : Prop where
  complete : Complete (max 1 contents.length) ht.tree
  maxNode : max 1 ht.imeta.maxNodeId = max 1 contents.length
  bound : ht.imeta.maxNodeId < uintMax
  fek : C.fekCrypt ht.uuid .decrypt ht.head.encFek = ht.fek
  blocks : ∀ b d, contents[b]? = some d → BlockStored C blockSize S ht b d.toList

/-- The handle stands for these blocks, also after the next sync. -/
structure Live (C : Crypto) (S : Storage) (ht : TeeFsHtree)
    (contents : List (ByteVec blockSize)) : Prop extends Readable C S ht contents where
  updated : ht.tree.any (fun n => n.blockUpdated && !n.dirty) = false
  dirty : ht.tree.any HtreeNode.dirty = ht.dirty
  kept : Kept C S (some ht.imeta.fileMeta) ht.vers ht.tree

variable {S : Storage} {ht ht' : TeeFsHtree} {contents : List (ByteVec blockSize)}

theorem Committed.live (h : Committed C S ht contents) : Live C S ht contents where
  complete := h.size ▸ h.synced.complete
  maxNode := h.size
  bound := h.synced.bound
  fek := h.synced.header.1
  updated := any_eq_false.2 fun _ _ hq => by rw [(clean_get h.synced.clean hq).2]; rfl
  dirty := by
    rw [h.synced.dirty]
    exact any_eq_false.2 fun _ _ hq => (clean_get h.synced.clean hq).1
  kept := .of_stored h.stored h.synced.verified
  blocks := h.blocks

variable {b : ℕ} {rnd : ByteVec 16}

theorem getElem?_writeContents {α : Type} {l : List α} {d : α} (hb : b ≤ l.length) (i : ℕ) :
    (writeContents l b d)[i]? = if i = b then some d else l[i]? := by
  rw [writeContents]
  split_ifs with h1 h2 h2
  · subst h2
    simp [h1]
  · simp [Ne.symm h2]
  · subst h2
    have : l.length = i := by omega
    subst this
    simp
  · rcases Nat.lt_or_ge i l.length with hi | hi
    · rw [List.getElem?_append_left hi]
    · rw [List.getElem?_eq_none (by simp; omega), List.getElem?_eq_none hi]

theorem length_writeContents {α : Type} {l : List α} {d : α} (hb : b ≤ l.length) :
    (writeContents l b d).length = max l.length (b + 1) := by
  rw [writeContents]
  split_ifs with h1
  · rw [List.length_set]
    omega
  · rw [List.length_append, List.length_singleton]
    omega

/-! ## Writing a block -/

section WriteBlock

variable {data : ByteVec blockSize} {ws : List Write} {n : HtreeNode}
  (W : Written C (max 1 contents.length) b ht data.toList rnd ht' ws n)
include W

theorem Readable.writeBlock (h : Readable C S ht contents) (hb : b ≤ contents.length) :
    Readable C (S.writes ws) ht' (writeContents contents b data) := by
  have hht := W.handle
  have hsame : SameFile ht ht' := by rw [hht]; exact ⟨rfl, rfl, rfl⟩
  have hmax : ht'.imeta.maxNodeId = if b < max 1 contents.length then ht.imeta.maxNodeId
      else max ht.imeta.maxNodeId (b + 1) := by rw [hht]
  have hlen := length_writeContents (d := data) hb
  have hml := h.maxNode
  have hmb := h.bound
  have hws := W.writes
  subst hws
  refine ⟨?_, ?_, ?_, ?_, fun i d hi => ?_⟩
  · rw [hlen, show max 1 (max contents.length (b + 1)) = max (max 1 contents.length) (b + 1)
      by omega]
    exact W.complete
  · rw [hlen, hmax]
    split_ifs <;> omega
  · rw [hmax]
    have := W.bound
    split_ifs <;> omega
  · rw [← hsame.uuid, ← hsame.fek, ← hsame.encFek]
    exact h.fek
  · rw [getElem?_writeContents hb] at hi
    split_ifs at hi with hib
    · cases hi
      subst hib
      refine ⟨n.written C ht data.toList rnd,
        (C.enc ht.fek rnd (blockAad ht.head rnd) data.toList).1, by rw [W.get, if_pos rfl],
        if_pos ⟨rfl, rfl⟩, ?_, ?_⟩
      · rw [C.enc_length, ByteVec.length_toList]
      · rw [← hsame.fek, blockAad, ← hsame.encFek]
        exact C.dec_enc _ _ _ _
    · refine (h.blocks i d hi).congr (fun n' hn' => ⟨n', ?_, rfl⟩)
        ⟨hsame.uuid.symm, hsame.fek.symm, hsame.encFek.symm⟩ fun v => ?_
      · rw [W.get, if_neg, hn']
        rw [pathOf_inj (by omega) (by omega)]
        omega
      · exact if_neg fun hc => hib hc.1

theorem Live.writeBlock (h : Live C S ht contents) (hb : b ≤ contents.length) :
    Live C (S.writes ws) ht' (writeContents contents b data) := by
  have hdirty : ht'.tree.any HtreeNode.dirty = true :=
    any_eq_true.2 ⟨_, _, by rw [W.get, if_pos rfl], rfl⟩
  have hht := W.handle
  have hvers : ht'.vers = ht.vers := by rw [hht]; rfl
  have hfm : ht'.imeta.fileMeta = ht.imeta.fileMeta := by rw [hht]
  have hd : ht'.dirty = true := by rw [hht]
  refine ⟨h.toReadable.writeBlock W hb, ?_, hdirty.trans hd.symm, ?_⟩
  · refine any_eq_false.2 fun q a hq => ?_
    rw [W.get] at hq
    split_ifs at hq with hqb
    · cases hq
      rfl
    · exact any_eq_false.1 h.updated q a hq
  · rw [hvers, hfm, W.writes]
    exact (W.kept _ _ _ h.kept).congr W.complete.numbered fun p u => rfl

end WriteBlock

/-! ## Changing the meta data and cutting blocks off -/

theorem any_dirty_metaSetDirty (ht : TeeFsHtree) {m : ℕ} (hc : Complete m ht.tree) (hm : 1 ≤ m) :
    (teeFsHtreeMetaSetDirty ht).tree.any HtreeNode.dirty = true := by
  obtain ⟨n, hn⟩ := hc.exists_get (i := 1) le_rfl hm
  rw [pathOf_one] at hn
  exact any_eq_true.2 ⟨[], { n with dirty := true },
    by rw [teeFsHtreeMetaSetDirty, get_modify, if_pos rfl, hn]; rfl, rfl⟩

theorem get_metaSetDirty (ht : TeeFsHtree) {q : List Bool} {n : HtreeNode}
    (hn : ht.tree.get q = some n) :
    ∃ n', (teeFsHtreeMetaSetDirty ht).tree.get q = some n'
      ∧ n'.blockView = n.blockView := by
  rw [teeFsHtreeMetaSetDirty, get_modify, hn]
  split_ifs
  · exact ⟨_, rfl, rfl⟩
  · exact ⟨_, rfl, rfl⟩

theorem updated_metaSetDirty (ht : TeeFsHtree)
    (h : ht.tree.any (fun n => n.blockUpdated && !n.dirty) = false) :
    (teeFsHtreeMetaSetDirty ht).tree.any (fun n => n.blockUpdated && !n.dirty) = false := by
  refine any_eq_false.2 fun q a hq => ?_
  rw [teeFsHtreeMetaSetDirty, get_modify] at hq
  split_ifs at hq
  · obtain ⟨n, -, rfl⟩ := Option.map_eq_some_iff.1 hq
    simp
  · exact any_eq_false.1 h q a hq

theorem Readable.setMeta (h : Readable C S ht contents) (fm : FileMeta) :
    Readable C S (teeFsHtreeMetaSetDirty (teeFsHtreeSetMeta ht fm)) contents where
  complete := h.complete.modify fun _ _ => rfl
  maxNode := h.maxNode
  bound := h.bound
  fek := h.fek
  blocks := fun b d hb => (h.blocks b d hb).congr
    (fun _ hn' => get_metaSetDirty (teeFsHtreeSetMeta ht fm) hn') ⟨rfl, rfl, rfl⟩ fun _ => rfl

theorem Live.setMeta (h : Live C S ht contents) (fm : FileMeta) :
    Live C S (teeFsHtreeMetaSetDirty (teeFsHtreeSetMeta ht fm)) contents := by
  obtain ⟨n, hn⟩ := h.complete.exists_get (i := 1) le_rfl (by omega)
  rw [pathOf_one] at hn
  exact {
    toReadable := h.toReadable.setMeta fm
    updated := updated_metaSetDirty (teeFsHtreeSetMeta ht fm) h.updated
    dirty := any_dirty_metaSetDirty (teeFsHtreeSetMeta ht fm) h.complete (by omega)
    kept := h.kept.modify [] hn rfl fun _ => rfl }

theorem Readable.truncate (h : Readable C S ht contents) (htr : teeFsHtreeTruncate ht b = .ok ht') :
    Readable C S (teeFsHtreeMetaSetDirty ht') (contents.take (b + 1)) := by
  have hml := h.maxNode
  rw [truncate_eq (by rw [hml]; exact h.complete) h.bound] at htr
  cases htr
  have hcut := h.complete.cut (k := b + 1)
  have hlen : (contents.take (b + 1)).length = min (b + 1) contents.length := List.length_take
  have hm : max 1 (min (b + 1) contents.length) = min (b + 1) (max 1 contents.length) := by
    omega
  refine ⟨?_, ?_, ?_, h.fek, fun i d hi => ?_⟩
  · rw [hlen, hm]
    exact hcut.modify fun _ _ => rfl
  · show max 1 (min ht.imeta.maxNodeId (b + 1)) = max 1 (contents.take (b + 1)).length
    rw [hlen]
    omega
  · show min ht.imeta.maxNodeId (b + 1) < uintMax
    have := h.bound
    omega
  · have hi' : i < b + 1 ∧ contents[i]? = some d := by
      rw [List.getElem?_take] at hi
      split_ifs at hi with hib
      exact ⟨hib, hi⟩
    refine (h.blocks i d hi'.2).congr (fun a ha => get_metaSetDirty _ ?_) ⟨rfl, rfl, rfl⟩
      fun _ => rfl
    rw [get_cut, idFrom_pathOf (by omega), if_pos (by omega), ha]

theorem Live.truncate (h : Live C S ht contents)
    (hcd : (cutDirty (b + 1) 2 (ht.tree.child false) && cutDirty (b + 1) 3 (ht.tree.child true))
      = true)
    (htr : teeFsHtreeTruncate ht b = .ok ht') :
    Live C S (teeFsHtreeMetaSetDirty ht') (contents.take (b + 1)) := by
  have hreadable := h.toReadable.truncate htr
  have hml := h.maxNode
  rw [truncate_eq (by rw [hml]; exact h.complete) h.bound] at htr
  cases htr
  obtain ⟨n, c0, c1, ht₀⟩ : ∃ n c0 c1, ht.tree = .node n c0 c1 := by
    cases ht₀ : ht.tree with
    | nil =>
      have := h.complete.shape
      rw [ht₀] at this
      simp only [Shape] at this
      omega
    | node n c0 c1 => exact ⟨n, c0, c1, rfl⟩
  refine ⟨hreadable, ?_, any_dirty_metaSetDirty _ (h.complete.cut (k := b + 1)) (by omega), ?_⟩
  · refine updated_metaSetDirty _ (any_eq_false.2 fun q a hq => ?_)
    rw [get_cut] at hq
    split_ifs at hq
    exact any_eq_false.1 h.updated q a hq
  · -- the root is dirty now, so only what is below it has to be kept
    have hk := h.kept
    rw [ht₀] at hk
    simp only [ht₀, child, Bool.false_eq_true, if_false, if_true, Bool.and_eq_true] at hcd
    show Kept C S _ _ ((ht.tree.cut (b + 1) 1).modify _ [])
    rw [ht₀, BinTree.cut, if_pos (by omega)]
    refine ⟨fun he => ?_, hk.2.1.cut hcd.1, hk.2.2.cut hcd.2⟩
    simp [BinTree.any] at he

/-! ## Synchronising -/

theorem Live.syncDone {ws : List Write} (h : Live C S ht contents)
    (hs : teeFsHtreeSyncToStorage C ht rnd = (ht', ws)) (hd : ht.dirty = true) :
    SyncDone C S ht ht' (S.writes ws) :=
  syncDone_of_dirty hs hd (h.dirty.trans hd) h.fek (by rw [h.maxNode]; exact h.complete) h.bound
    h.updated h.kept

theorem syncToStorage_clean (hd : ht.dirty = false) :
    teeFsHtreeSyncToStorage C ht rnd = (ht, []) := by
  simp [teeFsHtreeSyncToStorage, hd]

theorem Rewritten.sameFile {S' : Storage} (D : Rewritten S ht ht' S') : SameFile ht' ht := by
  have hht := D.handle
  exact ⟨by rw [hht], by rw [hht], D.encFek⟩

theorem Rewritten.readable {S' : Storage} (D : Rewritten S ht ht' S')
    (h : Readable C S ht contents) :
    Readable C S' ht' contents := by
  have hht := D.handle
  have him : ht'.imeta = ht.imeta := by rw [hht]
  have hsame := D.sameFile
  refine ⟨h.complete.of_blockView D.view, by rw [← h.maxNode, him], him ▸ h.bound, ?_,
    fun b d hb => ?_⟩
  · rw [hsame.uuid, hsame.encFek, hsame.fek]
    exact h.fek
  · refine (h.blocks b d hb).congr (fun a ha => ?_) hsame (D.block b)
    have := congrArg (fun t => t.get (pathOf (b + 1))) D.view
    simp only [get_map, ha, Option.map_some, Option.map_eq_some_iff] at this
    exact this

theorem SyncDone.live {S' : Storage} (D : SyncDone C S ht ht' S') (h : Live C S ht contents) :
    Live C S' ht' contents := by
  have hcl := D.synced.clean
  refine ⟨D.readable h.toReadable,
    any_eq_false.2 fun q a hq => by rw [(clean_get hcl hq).2]; rfl, ?_,
    .of_stored D.stored D.synced.verified⟩
  rw [D.synced.dirty]
  exact any_eq_false.2 fun q a hq => (clean_get hcl hq).1

end Optee.Htree
