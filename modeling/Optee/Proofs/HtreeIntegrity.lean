import Optee.Proofs.HtreeRun

/-!
# Integrity under hostile storage

Whatever the storage answers, an open by the root hash of a sync finds what that sync left
(`open_authentic`). This needs that the hash of every node covers its children, which a truncation
does not keep.
-/

namespace Optee.Htree

open BinTree

variable {C : Crypto} {blockSize : ℕ}

/-! ## The seals of the blocks -/

/-- The tag that a seal has. -/
def Seal.tag (C : Crypto) (k : Seal) : ByteVec 16 := (C.enc k.key k.iv k.aad k.plain).2

/-- Every block was sealed with the tag its node has. -/
structure SealsKept (C : Crypto) (s : RunState blockSize) : Prop where
  block : ∀ b d, s.contents[b]? = some d → ∃ n, s.handle.tree.get (pathOf (b + 1)) = some n
    ∧ ∃ k ∈ s.sealed, k.plain = d.toList ∧ k.tag C = n.node.tag
  empty : s.contents = [] → ∃ n, s.handle.tree.get [] = some n ∧ n.node.tag = ByteVec.zero 16

variable {s s' : RunState blockSize}

theorem SealsKept.transfer (h : SealsKept C s)
    (hsub : ∀ (b : ℕ) d, s'.contents[b]? = some d → s.contents[b]? = some d)
    (hnil : s'.contents = [] → s.contents = []) (hsealed : s'.sealed = s.sealed)
    (hget : ∀ p n, s.handle.tree.get p = some n →
      (p = [] ∨ ∃ (b : ℕ) (d : _), s'.contents[b]? = some d ∧ p = pathOf (b + 1)) →
      ∃ n', s'.handle.tree.get p = some n' ∧ n'.blockView = n.blockView) :
    SealsKept C s' := by
  refine ⟨fun b d hb => ?_, fun he => ?_⟩
  · obtain ⟨n, hn, k, hk, hp, ht⟩ := h.block b d (hsub b d hb)
    obtain ⟨n', hn', hv⟩ := hget _ n hn (.inr ⟨b, d, hb, rfl⟩)
    simp only [HtreeNode.blockView, Prod.mk.injEq] at hv
    exact ⟨n', hn', k, hsealed ▸ hk, hp, by rw [hv.2.2.1, ht]⟩
  · obtain ⟨n, hn, ht⟩ := h.empty (hnil he)
    obtain ⟨n', hn', hv⟩ := hget _ n hn (.inl rfl)
    simp only [HtreeNode.blockView, Prod.mk.injEq] at hv
    exact ⟨n', hn', by rw [hv.2.2.1, ht]⟩

variable {S : Storage} {ht : TeeFsHtree} {minCounter : BitVec 32}

theorem SyncDone.get {S' : Storage} {ht' : TeeFsHtree} (D : SyncDone C S ht ht' S') {p : List Bool}
    {n : HtreeNode} (hn : ht.tree.get p = some n) :
    ∃ n', ht'.tree.get p = some n' ∧ n'.blockView = n.blockView := by
  have := congrArg (fun t => t.get p) D.view
  simp only [get_map, hn, Option.map_some, Option.map_eq_some_iff] at this
  exact this

/-- Every operation of a run keeps a seal for each block. -/
theorem SealsKept.step {op : Op blockSize} (h : SealsKept C s) (hi : Inv C s)
    (ho : WritesInOrder s op) (hs : s.step C op = .ok s') : SealsKept C s' := by
  cases op with
  | writeBlock b data rnd =>
    obtain ⟨⟨ht, ws⟩, hw, he⟩ := bind_eq_ok.1 hs
    cases he
    have hb : b ≤ s.contents.length := ho
    obtain ⟨n, W⟩ := written_of_writeBlock hi.live.complete (by omega) (by omega) hw
    refine ⟨fun i d hid => ?_, fun he => ?_⟩
    · rw [getElem?_writeContents hb] at hid
      split_ifs at hid with hib
      · cases hid
        subst hib
        exact ⟨_, by rw [W.get, if_pos rfl], _, List.mem_cons_self, rfl, rfl⟩
      · obtain ⟨n', hn', k, hk, hp, ht⟩ := h.block i d hid
        refine ⟨n', ?_, k, List.mem_cons_of_mem _ hk, hp, ht⟩
        rw [W.get, if_neg, hn']
        rw [pathOf_inj (by omega) (by omega)]
        omega
    · have := congrArg List.length he
      simp only [length_writeContents hb, List.length_nil] at this
      omega
  | truncate b =>
    obtain ⟨ht, htr, he⟩ := bind_eq_ok.1 hs
    cases he
    rw [truncate_eq (by rw [hi.live.maxNode]; exact hi.live.complete) hi.live.bound] at htr
    cases htr
    refine h.transfer (fun i d hid => ?_) (fun he => ?_) rfl fun p n hn hp => get_metaSetDirty _ ?_
    · simp only [List.getElem?_take] at hid
      split_ifs at hid
      exact hid
    · simpa using he
    · rw [get_cut]
      rcases hp with rfl | ⟨i, d, hid, rfl⟩
      · rw [idFrom_nil, if_pos (by omega), hn]
      · simp only [List.getElem?_take] at hid
        split_ifs at hid with hib
        rw [idFrom_pathOf (by omega), if_pos (by omega), hn]
  | setMeta m =>
    cases hs
    exact h.transfer (fun _ _ => id) id rfl fun p n hn _ =>
      get_metaSetDirty (teeFsHtreeSetMeta s.handle m) hn
  | sync rnd =>
    obtain ⟨ht, ws, hsync⟩ : ∃ ht ws, teeFsHtreeSyncToStorage C s.handle rnd = (ht, ws) :=
      ⟨_, _, rfl⟩
    simp only [RunState.step, hsync] at hs
    cases hs
    refine h.transfer (fun _ _ => id) id rfl fun p n hn _ => ?_
    by_cases hd : s.handle.dirty = true
    · exact (hi.live.syncDone hsync hd).get hn
    · rw [syncToStorage_clean (by simpa using hd)] at hsync
      cases hsync
      exact ⟨n, hn, rfl⟩

theorem SealsKept.create (uuid : Option Uuid) (minCounter : BitVec 32) (fek rnd : ByteVec 16) :
    SealsKept C (RunState.create C blockSize uuid minCounter fek rnd) := by
  obtain ⟨ht, ws, hs⟩ : ∃ ht ws, teeFsHtreeSyncToStorage C
      (RunState.fresh C blockSize uuid fek).handle rnd = (ht, ws) := ⟨_, _, rfl⟩
  have D := (Live.fresh uuid fek).syncDone hs rfl
  rw [create_eq uuid minCounter fek hs]
  refine ⟨nofun, fun _ => ?_⟩
  obtain ⟨n, hn, hv⟩ := D.get (p := []) rfl
  simp only [HtreeNode.blockView, Prod.mk.injEq] at hv
  exact ⟨n, hn, hv.2.2.1⟩

/-! ## What an open by the root hash finds -/

/-- The tags of a tree verify only for what was sealed with them, and no two seals have one tag. -/
structure TagIdeal (C : Crypto) (seals : List Seal) (t : NodeTree) : Prop where
  sealed : ∀ p n, t.get p = some n → ∀ key iv aad c plain,
    C.dec key iv aad c n.node.tag = some plain →
    ∃ k ∈ seals, k = ⟨key, iv, aad, plain⟩ ∧ k.tag C = n.node.tag
  distinct : ∀ k ∈ seals, ∀ k' ∈ seals, k.tag C = k'.tag C → k = k'
  nonzero : ∀ k ∈ seals, k.tag C ≠ ByteVec.zero 16

theorem readBlock_inv {b : ℕ} {data : List UInt8}
    (h : teeFsHtreeReadBlock C blockSize S ht b = .ok data) :
    ∃ n enc, ht.tree.get (pathOf (b + 1)) = some n
      ∧ C.dec ht.fek n.node.iv (blockAad ht.head n.node.iv) enc n.node.tag = some data := by
  obtain ⟨ht₁, hg, h⟩ := bind_eq_ok.1 h
  cases getNode_false hg
  cases hn : ht.tree.get (pathOf (b + 1)) with
  | none =>
    simp only [blockNumToNodeId, hn] at h
    cases h
  | some n =>
    simp only [blockNumToNodeId, hn] at h
    cases hS : S.block b (blockVers n.node.flags) with
    | none =>
      simp only [hS] at h
      cases h
    | some enc =>
      simp only [hS] at h
      split_ifs at h with hlen
      refine ⟨n, enc, rfl, ?_⟩
      rw [authencDecryptFinal] at h
      split at h
      · cases h
        assumption
      · cases h

theorem synced_of_open {hash : Option (ByteVec 32)} {uuid : Option Uuid} {o : TeeFsHtree}
    (h : teeFsHtreeOpen C S hash minCounter uuid = .ok o) : Synced C o := by
  obtain ⟨root, -, hhead, hc, hu, hroot, hcl, hv, hd, rfl⟩ := teeFsHtreeOpen_inv C h
  exact ⟨hd, by rw [rootNode_eq hroot]; exact hhead, hc, hu, hcl, hv⟩

theorem initHead_hash {hash : ByteVec 32} {root : NodeImage} {head : Image}
    (h : initHeadFromData S (some hash) minCounter = .ok (root, head)) : root.hash = hash := by
  have hlast : ∀ n hd : _, (if hd.counter < minCounter then .error .security
      else .ok (n, hd) : TeeResult (NodeImage × Image)) = .ok (root, head) → n = root := by
    intro n hd h
    split_ifs at h
    cases h
    rfl
  obtain ⟨n0, -, h⟩ := bind_eq_ok.1 h
  split_ifs at h with h0
  · obtain ⟨hd, -, h⟩ := bind_eq_ok.1 h
    rw [← hlast n0 hd h]
    exact h0
  · obtain ⟨n1, -, h⟩ := bind_eq_ok.1 h
    split_ifs at h with h1
    · obtain ⟨hd, -, h⟩ := bind_eq_ok.1 h
      rw [← hlast n1 hd h]
      exact h1
    · cases h

theorem Synced.open_images {o : TeeFsHtree} {uuid : Option Uuid} (h : Synced C ht)
    (hopen : teeFsHtreeOpen C S (some ht.rootNode.hash) minCounter uuid = .ok o)
    (hinj : ∀ x ∈ syncedInputs [o, ht], ∀ y ∈ syncedInputs [o, ht], C.hash x = C.hash y → x = y) :
    images o.tree = images ht.tree ∧ o.imeta.fileMeta = ht.imeta.fileMeta := by
  obtain ⟨root, hinit, -, -, -, hroot, -⟩ := teeFsHtreeOpen_inv C hopen
  refine (synced_of_open hopen).images_eq h hinj ?_
  rw [rootNode_eq hroot]
  exact initHead_hash hinit

/-- In every run whose truncations take nodes away only below dirty nodes, an open by the root hash
of the last sync finds its tree and meta data, and its blocks read as they were or not at all. -/
theorem open_authentic (uuid : Option Uuid) (minCounter : BitVec 32) (fek rnd rnd' : ByteVec 16)
    (ops : List (Op blockSize)) (s : RunState blockSize)
    (hrun : exec (RunState.step C) (.create C blockSize uuid minCounter fek rnd)
      (ops ++ [.sync rnd']) = .ok s)
    (hg : Guarded (fun s op => WritesInOrder s op ∧ TruncatesDirty s op) (RunState.step C)
      (.create C blockSize uuid minCounter fek rnd) (ops ++ [.sync rnd']))
    (S : Storage) (minCounter' : BitVec 32) (uuid' : Option Uuid) (o : TeeFsHtree)
    (hopen : teeFsHtreeOpen C S (some s.handle.rootNode.hash) minCounter' uuid' = .ok o)
    (hash_ideal : ∀ x ∈ syncedInputs [o, s.handle], ∀ y ∈ syncedInputs [o, s.handle],
      C.hash x = C.hash y → x = y)
    (tag_ideal : TagIdeal C s.sealed s.handle.tree) :
    o.imeta.fileMeta = s.handle.imeta.fileMeta ∧ images o.tree = images s.handle.tree
      ∧ ∀ S' b data, teeFsHtreeReadBlock C blockSize S' o b = .ok data →
        ∃ d, s.contents[b]? = some d ∧ data = d.toList := by
  obtain ⟨hinv, hseals⟩ := exec_invariant (P := fun s => Inv C s ∧ SealsKept C s)
    (g := fun s op => WritesInOrder s op ∧ TruncatesDirty s op)
    (fun s op s' h hg hs => ⟨(h.1.step hg.1 hg.2 hs).1, h.2.step h.1 hg.1 hs⟩)
    ⟨Inv.create uuid minCounter fek rnd, .create uuid minCounter fek rnd⟩ hg hrun
  have hclean := handle_clean_of_sync hrun
  have hsync := (hinv.synced _ (hinv.current hclean).1).1
  obtain ⟨himg, hfm⟩ := hsync.open_images hopen hash_ideal
  refine ⟨hfm, himg, fun S' b data hread => ?_⟩
  obtain ⟨n, enc, hn, hdec⟩ := readBlock_inv hread
  have hn' : ∃ n', s.handle.tree.get (pathOf (b + 1)) = some n' ∧ n'.node = n.node := by
    have := congrArg (fun t => t.get (pathOf (b + 1))) himg
    simp only [images, get_map, hn, Option.map_some] at this
    exact Option.map_eq_some_iff.1 this.symm
  obtain ⟨n', hn', hnode⟩ := hn'
  rw [← hnode] at hdec
  obtain ⟨k, hk, rfl, htag⟩ := tag_ideal.sealed _ n' hn' _ _ _ _ _ hdec
  cases hb : s.contents[b]? with
  | some d =>
    obtain ⟨n'', hn'', k', hk', hplain, htag'⟩ := hseals.block b d hb
    cases hn'.symm.trans hn''
    have := tag_ideal.distinct _ hk _ hk' (htag.trans htag'.symm)
    exact ⟨d, rfl, by rw [← hplain, ← this]⟩
  | none =>
    -- only the root of a file without blocks is a node without data
    have hlen : s.contents.length ≤ b := List.getElem?_eq_none_iff.1 hb
    have hb0 : b + 1 ≤ max 1 s.contents.length := by
      by_contra hlt
      rw [hinv.live.complete.get_none (by omega)] at hn'
      cases hn'
    have hnil : s.contents = [] := List.length_eq_zero_iff.1 (by omega)
    obtain ⟨n'', hn'', hz⟩ := hseals.empty hnil
    rw [show b = 0 by omega, pathOf_one] at hn'
    cases hn'.symm.trans hn''
    exact absurd (htag.trans hz) (tag_ideal.nonzero _ hk)

theorem plainTag_eq_block {k iv : ByteVec 16} {aad p : List UInt8} {x : UInt8}
    (h : (plainTag k iv aad p).toList = 1 :: x :: List.replicate 14 0) :
    k = ByteVec.zero 16 ∧ iv = ByteVec.zero 16 ∧ aad = List.replicate 32 0 ∧ p = [x] := by
  rw [plainTag] at h
  by_cases hb : k = ByteVec.zero 16 ∧ iv = ByteVec.zero 16 ∧ aad = List.replicate 32 0
      ∧ p.length = 1
  · rw [if_pos hb] at h
    obtain ⟨hk, hiv, haad, hp⟩ := hb
    refine ⟨hk, hiv, haad, ?_⟩
    obtain ⟨y, rfl⟩ := List.length_eq_one_iff.1 hp
    have hy : (1 :: y :: List.replicate 14 0 : List UInt8) = 1 :: x :: List.replicate 14 0 := h
    simp only [List.cons.injEq, true_and, and_true] at hy
    rw [hy]
  · rw [if_neg hb] at h
    have h2 : (2 : UInt8) = 1 := List.head_eq_of_cons_eq h
    exact absurd h2 (by decide)

/-- A seal of a block of one byte, under a key of zeros. -/
def OneByte (k : Seal) : Prop :=
  k.key = ByteVec.zero 16 ∧ k.iv = ByteVec.zero 16 ∧ k.aad = List.replicate 32 0
    ∧ k.plain.length = 1

instance (k : Seal) : Decidable (OneByte k) := inferInstanceAs (Decidable (_ ∧ _))

theorem OneByte.tag {k : Seal} (h : OneByte k) :
    ∃ x, k = ⟨ByteVec.zero 16, ByteVec.zero 16, List.replicate 32 0, [x]⟩
      ∧ (k.tag .plain).toList = 1 :: x :: List.replicate 14 0 := by
  obtain ⟨hk, hiv, haad, hp⟩ := h
  obtain ⟨x, hx⟩ := List.length_eq_one_iff.1 hp
  cases k
  simp only at hk hiv haad hx
  subst hk hiv haad hx
  exact ⟨x, rfl, rfl⟩

theorem tagIdeal_plain {seals : List Seal} {t : NodeTree} (h1 : ∀ k ∈ seals, OneByte k)
    (ht : t.any (fun n => !(seals.any fun k => k.tag .plain = n.node.tag)) = false) :
    TagIdeal .plain seals t := by
  refine ⟨fun p n hn key iv aad c plain hdec => ?_, fun k hk k' hk' he => ?_, fun k hk hz => ?_⟩
  · have hm := any_eq_false.1 ht p n hn
    simp only [Bool.not_eq_false', List.any_eq_true, decide_eq_true_eq] at hm
    obtain ⟨k, hk, htag⟩ := hm
    obtain ⟨x, rfl, hx⟩ := (h1 k hk).tag
    have hdec' : (if plainTag key iv aad c = n.node.tag then some c else none) = some plain := hdec
    split_ifs at hdec' with hc
    cases hdec'
    obtain ⟨rfl, rfl, rfl, rfl⟩ := plainTag_eq_block (x := x) (by rw [hc, ← htag, hx])
    exact ⟨_, hk, rfl, htag⟩
  · obtain ⟨x, rfl, hx⟩ := (h1 k hk).tag
    obtain ⟨x', rfl, hx'⟩ := (h1 k' hk').tag
    rw [he, hx'] at hx
    simp only [List.cons.injEq, true_and, and_true] at hx
    rw [hx]
  · obtain ⟨x, rfl, hx⟩ := (h1 k hk).tag
    rw [hz] at hx
    have h10 : (0 : UInt8) = 1 := List.head_eq_of_cons_eq hx
    exact absurd h10 (by decide)

/-- Three blocks of which the last is cut off again are found as they were. -/
theorem open_authentic_cut : ∃ (s : RunState 1) (o : TeeFsHtree),
    exec (RunState.step .plain) createPlain
      (writeOps 3 ++ [.sync (ByteVec.zero 16), .truncate 1] ++ [.sync (ByteVec.zero 16)]) = .ok s
    ∧ teeFsHtreeOpen .plain s.storage (some s.handle.rootNode.hash) 0 none = .ok o
    ∧ images o.tree = images s.handle.tree := by
  obtain ⟨⟨s, o⟩, hr, hid, hone, htags⟩ := exists_ok_of_decide
    (r := exec (RunState.step .plain) createPlain
        (writeOps 3 ++ [.sync (ByteVec.zero 16), .truncate 1] ++ [.sync (ByteVec.zero 16)])
      >>= fun s => teeFsHtreeOpen .plain s.storage (some s.handle.rootNode.hash) 0 none
      >>= fun o => .ok (s, o))
    (P := fun r => HashIdeal .plain (syncedInputs [r.2, r.1.handle])
      ∧ (∀ k ∈ r.1.sealed, OneByte k)
      ∧ r.1.handle.tree.any (fun n => !(r.1.sealed.any fun k => k.tag .plain = n.node.tag)) = false)
    (by decide +kernel)
  obtain ⟨s', hrun, hr⟩ := bind_eq_ok.1 hr
  obtain ⟨o', hopen, hr⟩ := bind_eq_ok.1 hr
  cases hr
  have hg : Guarded (fun s op => WritesInOrder s op ∧ TruncatesDirty s op) (RunState.step .plain)
      createPlain
      (writeOps 3 ++ [.sync (ByteVec.zero 16), .truncate 1] ++ [.sync (ByteVec.zero 16)]) := by
    decide +kernel
  exact ⟨s, o, hrun, hopen, (open_authentic none 0 _ _ _ _ s hrun hg s.storage 0 none o hopen
    hid.1 (tagIdeal_plain hone htags)).2.1⟩

/-- Two of seven blocks are cut off. Both syncs return the same root hash, and opening by it finds
the seven blocks. -/
theorem open_after_truncate_finds_old_tree : ∃ (s : RunState 1) (o : TeeFsHtree),
    exec (RunState.step .plain) createPlain
      (writeOps 7 ++ [.sync (ByteVec.zero 16), .truncate 4] ++ [.sync (ByteVec.zero 16)]) = .ok s
    ∧ Guarded WritesInOrder (RunState.step .plain) createPlain
      (writeOps 7 ++ [.sync (ByteVec.zero 16), .truncate 4] ++ [.sync (ByteVec.zero 16)])
    ∧ HashIdeal .plain (syncedInputs [o, s.handle]) ∧ TagIdeal .plain s.sealed s.handle.tree
    ∧ teeFsHtreeOpen .plain s.storage (some s.handle.rootNode.hash) 0 none = .ok o
    ∧ images o.tree ≠ images s.handle.tree
    ∧ teeFsHtreeReadBlock .plain 1 s.storage o 6 = .ok [6] ∧ s.contents[6]? = none := by
  obtain ⟨⟨s, o⟩, hr, hid, hone, htags, himg, hread, hcont⟩ := exists_ok_of_decide
    (r := exec (RunState.step .plain) createPlain
        (writeOps 7 ++ [.sync (ByteVec.zero 16), .truncate 4] ++ [.sync (ByteVec.zero 16)])
      >>= fun s => teeFsHtreeOpen .plain s.storage (some s.handle.rootNode.hash) 0 none
      >>= fun o => .ok (s, o))
    (P := fun r => HashIdeal .plain (syncedInputs [r.2, r.1.handle])
      ∧ (∀ k ∈ r.1.sealed, OneByte k)
      ∧ r.1.handle.tree.any (fun n => !(r.1.sealed.any fun k => k.tag .plain = n.node.tag)) = false
      ∧ images r.2.tree ≠ images r.1.handle.tree
      ∧ teeFsHtreeReadBlock .plain 1 r.1.storage r.2 6 = .ok [6] ∧ r.1.contents[6]? = none)
    (by decide +kernel)
  obtain ⟨s', hrun, hr⟩ := bind_eq_ok.1 hr
  obtain ⟨o', hopen, hr⟩ := bind_eq_ok.1 hr
  cases hr
  exact ⟨s, o, hrun, by decide +kernel, hid, tagIdeal_plain hone htags, hopen, himg, hread, hcont⟩

/-! ## What a header is sealed for -/

theorem exists_hash_same_half (h : ByteVec 32) :
    ∃ h' : ByteVec 32, h' ≠ h ∧ h'.toList.take fekSize = h.toList.take fekSize := by
  have hlen : h.toList.length = 32 := h.length_toList
  refine ⟨.ofList (h.toList.set 31 (h.toList.getD 31 0 + 1)) (by simp), fun he => ?_, ?_⟩
  · have := congrArg (fun v : ByteVec 32 => v.toList.getD 31 0) he
    simp only [ByteVec.toList_ofList, List.getD_eq_getElem?_getD] at this
    rw [List.getElem?_set_self (by omega)] at this
    simp at this
  · rw [ByteVec.toList_ofList, List.take_set, List.set_eq_of_length_le]
    simp [fekSize]

/-- The additional data of a header is never as long as announced, and a header that is accepted is
accepted for another root hash too. -/
theorem header_not_bound (mode : OperationMode) (rnd : ByteVec 16) (ht : TeeFsHtree) (S : Storage)
    (minCounter : BitVec 32) (uuid : Option Uuid) :
    (authencInit mode rnd ht none).aad.length ≠ (authencInit mode rnd ht none).aadLen
      ∧ ∀ root head o, initHeadFromData S none minCounter = .ok (root, head) →
        verifyRoot C (.ofHead root head uuid) = .ok o →
        ∃ S' root' o', initHeadFromData S' none minCounter = .ok (root', head)
          ∧ verifyRoot C (.ofHead root' head uuid) = .ok o' ∧ o'.imeta = o.imeta
          ∧ root'.hash ≠ root.hash := by
  constructor
  · cases mode <;> simp [authencInit, fekSize, ivSize, hashSize]
  · intro root head o hinit hacc
    obtain ⟨hash, hne, hhalf⟩ := exists_hash_same_half root.hash
    obtain ⟨fek, im, ⟨hfek, p, hdec, him⟩, rfl⟩ := (verifyRoot_eq_ok C).1 hacc
    obtain ⟨h0, h1, idx, hh0, hh1, hidx, -, hhead, hmin⟩ := initHead_none.1 hinit
    have haad : headerAad hash head = headerAad root.hash head := by
      simp only [headerAad, hhalf]
    refine ⟨{ S with node := fun _ _ => some { root with hash := hash } },
      { root with hash := hash }, { TeeFsHtree.ofHead { root with hash := hash } head uuid with
      fek := fek, imeta := im }, initHead_none.2 ⟨h0, h1, idx, hh0, hh1, hidx, rfl, hhead, hmin⟩,
      (verifyRoot_eq_ok C).2 ⟨fek, im, ⟨hfek, p, ?_, him⟩, rfl⟩, rfl, hne⟩
    exact haad ▸ hdec

/-- The header of a new file is accepted for another root hash. -/
theorem header_not_bound_new : ∃ S' root' o',
    initHeadFromData S' none 0 = .ok (root', createPlain.handle.head)
      ∧ verifyRoot .plain (.ofHead root' createPlain.handle.head none) = .ok o'
      ∧ root'.hash ≠ createPlain.handle.rootNode.hash := by
  obtain ⟨⟨root, head, o⟩, hr, rfl, rfl⟩ := exists_ok_of_decide
    (r := initHeadFromData createPlain.storage none 0
      >>= fun r => verifyRoot .plain (.ofHead r.1 r.2 none) >>= fun o => .ok (r.1, r.2, o))
    (P := fun r => r.1 = createPlain.handle.rootNode ∧ r.2.1 = createPlain.handle.head)
    (by decide +kernel)
  obtain ⟨⟨root', head'⟩, hinit, hr⟩ := bind_eq_ok.1 hr
  obtain ⟨o', hacc, hr⟩ := bind_eq_ok.1 hr
  cases hr
  obtain ⟨S', root', o'', hinit', hacc', -, hne⟩ := (header_not_bound .decrypt (ByteVec.zero 16)
    createPlain.handle createPlain.storage 0 none).2 _ _ _ hinit hacc
  exact ⟨S', root', o'', hinit', hacc', hne⟩

/-- The storage with the last byte of the root hash changed. -/
def Storage.flipRootHash (S : Storage) : Storage :=
  { S with node := fun i v => (S.node i v).map fun ni => if i = 0 then
      { ni with hash := .ofList (ni.hash.toList.set 31 (ni.hash.toList.getD 31 0 + 1)) (by simp) }
    else ni }

/-- The header of a new file is accepted for a root hash that no sync had, under the seal of its
only sync. -/
theorem header_accepted_for_other_hash : ∃ (root : NodeImage) (o : TeeFsHtree),
    initHeadFromData createPlain.storage.flipRootHash none 0
      = .ok (root, createPlain.handle.head)
    ∧ verifyRoot .plain (.ofHead root createPlain.handle.head none) = .ok o
    ∧ headerAad root.hash createPlain.handle.head
      = headerAad createPlain.handle.rootNode.hash createPlain.handle.head
    ∧ ∀ k ∈ createPlain.synced, root.hash ≠ k.rootNode.hash := by
  obtain ⟨⟨root, head, o⟩, hr, rfl, haad, hne⟩ := exists_ok_of_decide
    (r := initHeadFromData createPlain.storage.flipRootHash none 0
      >>= fun r => verifyRoot .plain (.ofHead r.1 r.2 none) >>= fun o => .ok (r.1, r.2, o))
    (P := fun r => r.2.1 = createPlain.handle.head
      ∧ headerAad r.1.hash createPlain.handle.head
        = headerAad createPlain.handle.rootNode.hash createPlain.handle.head
      ∧ ∀ k ∈ createPlain.synced, r.1.hash ≠ k.rootNode.hash)
    (by decide +kernel)
  obtain ⟨⟨root', head'⟩, hinit, hr⟩ := bind_eq_ok.1 hr
  obtain ⟨o', hacc, hr⟩ := bind_eq_ok.1 hr
  cases hr
  exact ⟨_, _, hinit, hacc, haad, hne⟩

end Optee.Htree
