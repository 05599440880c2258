import Optee.Proofs.HtreeRun

/-!
# Durability of a file

A file is opened again by the root hash of the last sync and reads back as written, as long as each
truncation takes nodes away only below nodes that a sync will visit (`reopen_reads_back`).
-/

namespace Optee.Htree

open BinTree

variable {C : Crypto} {blockSize : ℕ}

/-- Every run whose truncations are of this kind is durable. -/
theorem reopen_reads_back (uuid : Option Uuid) (minCounter : BitVec 32) (fek rnd rnd' : ByteVec 16)
    (ops : List (Op blockSize)) (s : RunState blockSize)
    (hrun : exec (RunState.step C) (.create C blockSize uuid minCounter fek rnd)
      (ops ++ [.sync rnd']) = .ok s)
    (hg : Guarded (fun s op => WritesInOrder s op ∧ TruncatesDirty s op) (RunState.step C)
      (.create C blockSize uuid minCounter fek rnd) (ops ++ [.sync rnd']))
    (hash_ideal : HashIdeal C (syncedInputs s.synced)) :
    ∃ ht, teeFsHtreeOpen C s.storage (some s.handle.rootNode.hash) 0 uuid = .ok ht
      ∧ ht.tree = s.handle.tree
      ∧ ∀ b d, s.contents[b]? = some d →
        teeFsHtreeReadBlock C blockSize s.storage ht b = .ok d.toList := by
  obtain ⟨hinv, huuid⟩ := inv_of_run hrun hg
  obtain ⟨ht, hopen, htree, -, hread⟩ :=
    (hinv.committed (handle_clean_of_sync hrun) hash_ideal).open_hash
  exact ⟨ht, huuid ▸ hopen, htree, hread⟩

/-- Three blocks of which the last is cut off again are read back. -/
theorem reopen_reads_back_cut : ∃ (s : RunState 1) (ht : TeeFsHtree),
    exec (RunState.step .plain) createPlain
      (writeOps 3 ++ [.sync (ByteVec.zero 16), .truncate 1] ++ [.sync (ByteVec.zero 16)]) = .ok s
    ∧ teeFsHtreeOpen .plain s.storage (some s.handle.rootNode.hash) 0 none = .ok ht
    ∧ teeFsHtreeReadBlock .plain 1 s.storage ht 1 = .ok [1] := by
  obtain ⟨s, hrun, hid, hb⟩ := exists_ok_of_decide (r := exec (RunState.step .plain) createPlain
      (writeOps 3 ++ [.sync (ByteVec.zero 16), .truncate 1] ++ [.sync (ByteVec.zero 16)]))
    (P := fun s => HashIdeal .plain (syncedInputs s.synced) ∧ s.contents[1]? = some ⟨[1], rfl⟩)
    (by decide +kernel)
  have hg : Guarded (fun s op => WritesInOrder s op ∧ TruncatesDirty s op) (RunState.step .plain)
      createPlain
      (writeOps 3 ++ [.sync (ByteVec.zero 16), .truncate 1] ++ [.sync (ByteVec.zero 16)]) := by
    decide +kernel
  obtain ⟨ht, hopen, -, hread⟩ := reopen_reads_back none 0 _ _ _ _ s hrun hg hid
  exact ⟨s, ht, hrun, hopen, hread 1 _ hb⟩

theorem Readable.sync {S : Storage} {ht ht' : TeeFsHtree} {contents : List (ByteVec blockSize)}
    {rnd : ByteVec 16} {ws : List Write} (h : Readable C S ht contents)
    (hs : teeFsHtreeSyncToStorage C ht rnd = (ht', ws)) :
    Readable C (S.writes ws) ht' contents := by
  by_cases hd : ht.dirty = true
  · have hmax : Complete (max 1 ht.imeta.maxNodeId) ht.tree := h.maxNode ▸ h.complete
    exact (rewritten_of_dirty S hs hd h.fek hmax h.bound).readable h
  · rw [syncToStorage_clean (by simpa using hd)] at hs
    cases hs
    exact h

/-- Every operation of a run leaves the blocks readable through the handle. -/
theorem Readable.step {s s' : RunState blockSize} {op : Op blockSize}
    (h : Readable C s.storage s.handle s.contents) (ho : WritesInOrder s op)
    (hs : s.step C op = .ok s') :
    Readable C s'.storage s'.handle s'.contents := by
  cases op with
  | writeBlock b data rnd =>
    obtain ⟨⟨ht, ws⟩, hw, he⟩ := bind_eq_ok.1 hs
    cases he
    have hb : b ≤ s.contents.length := ho
    obtain ⟨n, W⟩ := written_of_writeBlock h.complete (by omega) (by omega) hw
    exact h.writeBlock W hb
  | truncate b =>
    obtain ⟨ht, htr, he⟩ := bind_eq_ok.1 hs
    cases he
    exact h.truncate htr
  | setMeta m =>
    cases hs
    exact h.setMeta m
  | sync rnd =>
    cases hs
    exact h.sync rfl

/-- Also between two syncs, a block of the open file reads as it was last written. -/
theorem open_file_reads_back (uuid : Option Uuid) (minCounter : BitVec 32) (fek rnd : ByteVec 16)
    (ops : List (Op blockSize)) {s : RunState blockSize}
    (hrun : exec (RunState.step C) (.create C blockSize uuid minCounter fek rnd) ops = .ok s)
    (hg : Guarded WritesInOrder (RunState.step C) (.create C blockSize uuid minCounter fek rnd) ops)
    {b : ℕ} {d : ByteVec blockSize} (hd : s.contents[b]? = some d) :
    teeFsHtreeReadBlock C blockSize s.storage s.handle b = .ok d.toList := by
  have hreadable : Readable C s.storage s.handle s.contents :=
    exec_invariant (P := fun s => Readable C s.storage s.handle s.contents)
      (fun s op s' h ho hs => h.step ho hs)
      (Inv.create uuid minCounter fek rnd).live.toReadable hg hrun
  obtain ⟨n, enc, hn, hS, hlen, hdec⟩ := hreadable.blocks b d hd
  have hb := (List.getElem?_eq_some_iff.1 hd).1
  have hsize := hreadable.maxNode
  have hbound := hreadable.bound
  have hmax : 1 < uintMax := by decide
  exact readBlock_eq s.handle hreadable.complete (by omega) hn hS hlen hdec

theorem open_file_reads_back_cut : ∃ s : RunState 1,
    exec (RunState.step .plain) createPlain (writeOps 3 ++ [.truncate 1]) = .ok s
    ∧ teeFsHtreeReadBlock .plain 1 s.storage s.handle 1 = .ok [1] := by
  obtain ⟨s, hrun, hb⟩ := exists_ok_of_decide
    (r := exec (RunState.step .plain) createPlain (writeOps 3 ++ [.truncate 1]))
    (P := fun s => s.contents[1]? = some ⟨[1], rfl⟩) (by decide +kernel)
  exact ⟨s, hrun, open_file_reads_back none 0 _ _ _ hrun (by decide +kernel) hb⟩

/-- Two of seven blocks are cut off. Node 3 loses both children and stays clean, so its image still
has the hash over them. -/
theorem reopen_fails_after_truncate :
    ∃ s : RunState 1,
    exec (RunState.step .plain) createPlain
      (writeOps 7 ++ [.sync (ByteVec.zero 16), .truncate 4, .setMeta ⟨5⟩]
        ++ [.sync (ByteVec.zero 16)]) = .ok s
    ∧ Guarded WritesInOrder (RunState.step .plain) createPlain
      (writeOps 7 ++ [.sync (ByteVec.zero 16), .truncate 4, .setMeta ⟨5⟩]
        ++ [.sync (ByteVec.zero 16)])
    ∧ HashIdeal .plain (syncedInputs s.synced)
    ∧ teeFsHtreeOpen .plain s.storage (some s.handle.rootNode.hash) 0 none
      = .error .corruptObject := by
  obtain ⟨s, hrun, hid, hfail⟩ := exists_ok_of_decide (r := exec (RunState.step .plain) createPlain
      (writeOps 7 ++ [.sync (ByteVec.zero 16), .truncate 4, .setMeta ⟨5⟩]
        ++ [.sync (ByteVec.zero 16)]))
    (P := fun s => HashIdeal .plain (syncedInputs s.synced)
      ∧ teeFsHtreeOpen .plain s.storage (some s.handle.rootNode.hash) 0 none
        = .error .corruptObject)
    (by decide +kernel)
  exact ⟨s, hrun, by decide +kernel, hid, hfail⟩

end Optee.Htree
