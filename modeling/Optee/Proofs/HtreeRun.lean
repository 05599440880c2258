import Mathlib
import Optee.Proofs.HtreeLive

/-!
# What holds along every run

Along a run the handle stays live and each of the two versions of the root is that of a sync
(`Inv`), if truncations only go below what a sync visits (`Inv.step`).
-/

namespace Optee.Htree

open BinTree

variable {C : Crypto} {blockSize : ℕ}

/-- A version of the root is empty or that of a sync. -/
def SlotOk (S : Storage) (synced : List TeeFsHtree) (v : Bool) : Prop :=
  S.node 0 v = some NodeImage.zero
    ∨ ∃ h ∈ synced, S.node 0 v = some h.rootNode ∧ S.head v = some h.head

/-- What holds along a run: the handle is live, and each version of the root is that of a sync. -/
structure Inv (C : Crypto) (s : RunState blockSize) : Prop where
  live : Live C s.storage s.handle s.contents
  synced : ∀ h ∈ s.synced, Synced C h ∧ SameFile h s.handle
  slots : ∀ v, SlotOk s.storage s.synced v
  current : s.handle.dirty = false →
    s.handle ∈ s.synced ∧ s.storage.head s.handle.vers = some s.handle.head

variable {s s' : RunState blockSize}

/-! ## The steps keep the invariant -/

theorem SameFile.trans {a b c : TeeFsHtree} (h : SameFile a b) (h' : SameFile b c) : SameFile a c :=
  ⟨h.uuid.trans h'.uuid, h.fek.trans h'.fek, h.encFek.trans h'.encFek⟩

theorem SameFile.symm {a b : TeeFsHtree} (h : SameFile a b) : SameFile b a :=
  ⟨h.uuid.symm, h.fek.symm, h.encFek.symm⟩

variable {rnd fek : ByteVec 16} {ht : TeeFsHtree} {ws : List Write} {op : Op blockSize}
  {uuid : Option Uuid} {ops : List (Op blockSize)}

theorem Inv.writeBlock {b : ℕ} {data : ByteVec blockSize} {seals : List Seal} (h : Inv C s)
    (hb : b ≤ s.contents.length)
    (hw : teeFsHtreeWriteBlock C s.handle b data.toList rnd = .ok (ht, ws)) :
    Inv C { s with
      storage := s.storage.writes ws, handle := ht, contents := writeContents s.contents b data,
      sealed := seals } := by
  obtain ⟨n, W⟩ := written_of_writeBlock h.live.complete (by omega) (by omega) hw
  have hht := W.handle
  have hsame : SameFile s.handle ht := by rw [hht]; exact ⟨rfl, rfl, rfl⟩
  refine ⟨h.live.writeBlock W hb, fun k hk => ?_, ?_, fun hc => ?_⟩
  · exact ⟨(h.synced k hk).1, (h.synced k hk).2.trans hsame⟩
  · rw [W.writes]
    exact h.slots
  · rw [hht] at hc
    cases hc

theorem Inv.setMeta {fm : FileMeta} (h : Inv C s) :
    Inv C { s with handle := teeFsHtreeMetaSetDirty (teeFsHtreeSetMeta s.handle fm) } :=
  ⟨h.live.setMeta fm, fun k hk => ⟨(h.synced k hk).1, (h.synced k hk).2.trans ⟨rfl, rfl, rfl⟩⟩,
    h.slots, nofun⟩

theorem Inv.truncate {b : ℕ} (h : Inv C s) (hcd : TruncatesDirty s (.truncate b))
    (htr : teeFsHtreeTruncate s.handle b = .ok ht) : Inv C { s with
      handle := teeFsHtreeMetaSetDirty ht, contents := s.contents.take (b + 1) } := by
  have hsame : SameFile s.handle (teeFsHtreeMetaSetDirty ht) := by
    rw [truncate_eq (by rw [h.live.maxNode]; exact h.live.complete) h.live.bound] at htr
    cases htr
    exact ⟨rfl, rfl, rfl⟩
  exact ⟨h.live.truncate hcd htr, fun k hk => ⟨(h.synced k hk).1, (h.synced k hk).2.trans hsame⟩,
    h.slots, nofun⟩

theorem Inv.sync (h : Inv C s) (hs : teeFsHtreeSyncToStorage C s.handle rnd = (ht, ws)) :
    Inv C { s with
      storage := s.storage.writes ws, handle := ht, synced := ht :: s.synced } := by
  by_cases hd : s.handle.dirty = true
  · have D := h.live.syncDone hs hd
    refine ⟨D.live h.live, fun k hk => ?_, fun u => ?_,
      fun _ => ⟨List.mem_cons_self, by rw [D.head, if_pos rfl]⟩⟩
    · rcases List.mem_cons.1 hk with rfl | hk
      · exact ⟨D.synced, ⟨rfl, rfl, rfl⟩⟩
      · exact ⟨(h.synced k hk).1, (h.synced k hk).2.trans D.sameFile.symm⟩
    · -- the version just written is that of this sync, the other one is as it was
      by_cases hu : u = ht.vers
      · right
        refine ⟨ht, List.mem_cons_self, ?_, by rw [D.head, if_pos hu]⟩
        rw [hu]
        exact D.stored.root D.synced.get_root
      · have hu' : u = s.handle.vers := by
          rw [D.vers] at hu
          revert hu
          cases u <;> cases s.handle.vers <;> simp
        have h0 := D.node []
        rw [versAt, ← hu'] at h0
        refine (h.slots u).imp (fun hz => h0.trans hz) fun hwritten => ?_
        obtain ⟨k, hk, hr, hhd⟩ := hwritten
        exact ⟨k, List.mem_cons_of_mem _ hk, h0.trans hr, by rw [D.head, if_neg hu, hhd]⟩
  · have hd : s.handle.dirty = false := by simpa using hd
    rw [syncToStorage_clean hd] at hs
    cases hs
    obtain ⟨hmem, hcur⟩ := h.current hd
    have hmono : ∀ k, k ∈ s.handle :: s.synced → k ∈ s.synced := by
      intro k hk
      rcases List.mem_cons.1 hk with rfl | hk
      · exact hmem
      · exact hk
    exact ⟨h.live, fun k hk => h.synced k (hmono k hk),
      fun v => (h.slots v).imp id (.imp fun _ => .imp_left (List.mem_cons_of_mem _)),
      fun _ => ⟨List.mem_cons_self, hcur⟩⟩

theorem Inv.step (h : Inv C s) (ho : WritesInOrder s op) (htr : TruncatesDirty s op)
    (hs : s.step C op = .ok s') :
    Inv C s' ∧ ∀ k ∈ s.synced, k ∈ s'.synced := by
  cases op with
  | writeBlock b data rnd =>
    obtain ⟨⟨ht, ws⟩, hw, he⟩ := bind_eq_ok.1 hs
    cases he
    exact ⟨h.writeBlock ho hw, fun _ => id⟩
  | truncate b =>
    obtain ⟨ht, ht', he⟩ := bind_eq_ok.1 hs
    cases he
    exact ⟨h.truncate htr ht', fun _ => id⟩
  | setMeta m =>
    cases hs
    exact ⟨h.setMeta, fun _ => id⟩
  | sync rnd =>
    cases hs
    exact ⟨h.sync rfl, fun _ => List.mem_cons_of_mem _⟩

/-- A new file, just before its first sync. -/
def RunState.fresh (C : Crypto) (blockSize : ℕ) (uuid : Option Uuid) (fek : ByteVec 16) :
    RunState blockSize :=
  let root := { NodeImage.zero with
    hash := C.hash (nodeHashInput .zero (some ⟨0⟩) .nil .nil) }
  { storage := .empty blockSize
    handle :=
      { tree := .node ⟨1, true, false, root⟩ .nil .nil
        head := { Image.zero with encFek := C.fekCrypt uuid .encrypt fek }
        fek := fek
        imeta := ⟨⟨0⟩, 0⟩
        dirty := true
        uuid := uuid }
    contents := []
    synced := []
    sealed := [] }

theorem Live.fresh (uuid : Option Uuid) (fek : ByteVec 16) :
    Live C (Storage.empty blockSize) (RunState.fresh C blockSize uuid fek).handle
      ([] : List (ByteVec blockSize)) where
  complete := ⟨by simp [RunState.fresh, Shape], by simp [RunState.fresh, Numbered]⟩
  maxNode := rfl
  bound := show 0 < uintMax by decide
  fek := C.fekCrypt_decrypt uuid fek
  updated := rfl
  dirty := rfl
  kept := ⟨by simp [BinTree.any], trivial, trivial⟩
  blocks := by simp

theorem Inv.fresh (uuid : Option Uuid) (fek : ByteVec 16) :
    Inv C (RunState.fresh C blockSize uuid fek) :=
  ⟨.fresh uuid fek, by simp [RunState.fresh], fun _ => .inl rfl, nofun⟩

theorem create_eq (uuid : Option Uuid) (minCounter : BitVec 32) (fek : ByteVec 16)
    (hs : teeFsHtreeSyncToStorage C (RunState.fresh C blockSize uuid fek).handle rnd = (ht, ws)) :
    RunState.create C blockSize uuid minCounter fek rnd
      = { storage := ((Storage.empty blockSize).writes ws).write
            (.head false { Image.zero with counter := minCounter })
          handle := ht
          contents := []
          synced := [ht]
          sealed := [] } := by
  have hcr : RunState.create C blockSize uuid minCounter fek rnd
      = { storage := (Storage.empty blockSize).writes ((teeFsHtreeSyncToStorage C
            (RunState.fresh C blockSize uuid fek).handle rnd).2
              ++ [.head false { Image.zero with counter := minCounter }])
          handle := (teeFsHtreeSyncToStorage C
            (RunState.fresh C blockSize uuid fek).handle rnd).1
          contents := []
          synced := [(teeFsHtreeSyncToStorage C
            (RunState.fresh C blockSize uuid fek).handle rnd).1]
          sealed := [] } := rfl
  rw [hcr, hs, writes_append]
  rfl

theorem fresh_vers (uuid : Option Uuid) (fek : ByteVec 16) :
    (RunState.fresh C blockSize uuid fek).handle.vers = false :=
  show (0 : BitVec 32).getLsbD 0 = false by decide

theorem Inv.create (uuid : Option Uuid) (minCounter : BitVec 32) (fek rnd : ByteVec 16) :
    Inv C (RunState.create C blockSize uuid minCounter fek rnd) := by
  have hf : Inv C (RunState.fresh C blockSize uuid fek) := .fresh uuid fek
  obtain ⟨ht, ws, hs⟩ : ∃ ht ws, teeFsHtreeSyncToStorage C
      (RunState.fresh C blockSize uuid fek).handle rnd = (ht, ws) := ⟨_, _, rfl⟩
  have h := hf.sync hs
  have D := hf.live.syncDone hs rfl
  have hvers : ht.vers = true := by rw [D.vers, fresh_vers, Bool.not_false]
  have hroot := D.node []
  rw [versAt, fresh_vers] at hroot
  rw [create_eq uuid minCounter fek hs]
  refine ⟨{ h.live with kept := ?_, blocks := by simp }, h.synced, fun v => ?_,
    fun hd => ⟨(h.current hd).1, ?_⟩⟩
  · exact h.live.kept.congr h.live.complete.numbered fun _ _ => rfl
  · cases v with
    | false => exact .inl hroot
    | true => exact h.slots true
  · have hcur := (h.current hd).2
    simp only [hvers] at hcur ⊢
    exact hcur

theorem inv_of_run {minCounter : BitVec 32}
    (hrun : exec (RunState.step C) (.create C blockSize uuid minCounter fek rnd) ops = .ok s)
    (hg : Guarded (fun s op => WritesInOrder s op ∧ TruncatesDirty s op) (RunState.step C)
      (.create C blockSize uuid minCounter fek rnd) ops) :
    Inv C s ∧ s.handle.uuid = uuid := by
  have hP := exec_invariant (P := fun s => Inv C s ∧ ∃ k ∈ s.synced, k.uuid = uuid)
    (g := fun s op => WritesInOrder s op ∧ TruncatesDirty s op)
    (fun s op s' h hg hs => by
      obtain ⟨hi, k, hk, hu⟩ := h
      obtain ⟨hi', hm⟩ := hi.step hg.1 hg.2 hs
      exact ⟨hi', k, hm k hk, hu⟩)
    ⟨Inv.create uuid minCounter fek rnd, _, List.mem_singleton_self _, rfl⟩ hg hrun
  obtain ⟨hi, k, hk, hu⟩ := hP
  exact ⟨hi, (hi.synced k hk).2.uuid.symm.trans hu⟩

/-! ## After a sync -/

theorem handle_clean_of_sync {s₀ : RunState blockSize}
    (hrun : exec (RunState.step C) s₀ (ops ++ [.sync rnd]) = .ok s) :
    s.handle.dirty = false := by
  obtain ⟨s₁, -, hlast⟩ := exec_append hrun
  obtain ⟨s₂, hstep, hnil⟩ := exec_cons hlast
  cases hnil
  cases hstep
  show (teeFsHtreeSyncToStorage C s₁.handle rnd).1.dirty = false
  by_cases hd : s₁.handle.dirty = true
  · simp [teeFsHtreeSyncToStorage, hd]
  · simp [teeFsHtreeSyncToStorage, hd]

theorem Inv.inPlace (h : Inv C s) (hd : s.handle.dirty = false) :
    InPlace C s.storage s.handle s.contents := by
  obtain ⟨hmem, hhead⟩ := h.current hd
  obtain ⟨hst, -⟩ := h.live.kept.stored (by rw [h.live.dirty, hd])
  exact ⟨(h.synced _ hmem).1, h.live.maxNode, hst, hhead, h.live.blocks⟩

theorem Inv.committed (h : Inv C s) (hd : s.handle.dirty = false)
    (hid : HashIdeal C (syncedInputs s.synced)) :
    Committed C s.storage s.handle s.contents := by
  obtain ⟨hmem, -⟩ := h.current hd
  have hin := h.inPlace hd
  have hsync := hin.synced
  refine ⟨hin, ?_⟩
  rcases h.slots (!s.handle.vers) with hz | ⟨k, hk, hkn, hkh⟩
  · refine ⟨_, hz, fun he => ?_⟩
    obtain ⟨x, hx, hxe⟩ := hsync.exists_input
    exact absurd (hxe.trans he.symm) (hid.2 x (mem_syncedInputs hmem hx))
  · refine ⟨_, hkn, fun he => ⟨k, ?_, rfl, hkh⟩⟩
    obtain ⟨hks, hsame⟩ := h.synced k hk
    have hsub : ∀ x ∈ syncedInputs [k, s.handle], x ∈ syncedInputs s.synced := by
      intro x hx
      obtain ⟨a, ha, hxa⟩ := List.mem_flatMap.1 hx
      simp only [List.mem_cons, List.not_mem_nil, or_false] at ha
      rcases ha with rfl | rfl
      · exact mem_syncedInputs hk hxa
      · exact mem_syncedInputs hmem hxa
    obtain ⟨himg, hfm⟩ := hks.images_eq hsync
      (fun x hx y hy => hid.1 x (hsub x hx) y (hsub y hy)) he
    exact ⟨hks, hsame, himg, hfm⟩

/-- The two headers have the counter of the handle and the one before. -/
def HeadsInStep (s : RunState blockSize) : Prop :=
  (∃ hd, s.storage.head s.handle.vers = some hd ∧ hd.counter = s.handle.head.counter)
    ∧ ∃ hd, s.storage.head (!s.handle.vers) = some hd ∧ hd.counter + 1 = s.handle.head.counter

/-- A sync that has something to write. -/
def Commits (s : RunState blockSize) : Op blockSize → Prop
  | .sync _ => s.handle.dirty = true
  | _ => False

theorem Inv.head_step (h : Inv C s) (ho : WritesInOrder s op) (hs : s.step C op = .ok s') :
    ¬ Commits s op ∧ s'.storage.head = s.storage.head ∧ s'.handle.head = s.handle.head
      ∨ Commits s op ∧ s'.handle.head.counter = s.handle.head.counter + 1
        ∧ s'.storage.head (!s'.handle.vers) = s.storage.head s.handle.vers
        ∧ s'.storage.head s'.handle.vers = some s'.handle.head := by
  cases op with
  | writeBlock b data rnd =>
    obtain ⟨⟨ht, ws⟩, hw, he⟩ := bind_eq_ok.1 hs
    cases he
    have hb : b ≤ s.contents.length := ho
    obtain ⟨n, W⟩ := written_of_writeBlock h.live.complete (by omega) (by omega) hw
    refine .inl ⟨id, ?_, by rw [W.handle]⟩
    rw [W.writes]
    rfl
  | truncate b =>
    obtain ⟨ht, htr, he⟩ := bind_eq_ok.1 hs
    cases he
    rw [truncate_eq (by rw [h.live.maxNode]; exact h.live.complete) h.live.bound] at htr
    cases htr
    exact .inl ⟨id, rfl, rfl⟩
  | setMeta m =>
    cases hs
    exact .inl ⟨id, rfl, rfl⟩
  | sync rnd =>
    obtain ⟨ht, ws, hsync⟩ : ∃ ht ws, teeFsHtreeSyncToStorage C s.handle rnd = (ht, ws) :=
      ⟨_, _, rfl⟩
    simp only [RunState.step, hsync] at hs
    cases hs
    by_cases hd : s.handle.dirty = true
    · have D := h.live.syncDone hsync hd
      have hne : ¬ (!ht.vers) = ht.vers := by simp
      refine .inr ⟨hd, D.counter, ?_, by rw [D.head, if_pos rfl]⟩
      rw [D.head, if_neg hne, D.vers, Bool.not_not]
    · rw [syncToStorage_clean (by simpa using hd)] at hsync
      cases hsync
      exact .inl ⟨hd, rfl, rfl⟩

theorem HeadsInStep.step (hh : HeadsInStep s) (h : Inv C s) (ho : WritesInOrder s op)
    (hs : s.step C op = .ok s') : HeadsInStep s' := by
  obtain ⟨-, hst, hhead⟩ | ⟨-, hcount, hprev, hcur⟩ := h.head_step ho hs
  · simp only [HeadsInStep, TeeFsHtree.vers, hst, hhead]
    exact hh
  · obtain ⟨⟨hd, hcur', hcount'⟩, -⟩ := hh
    exact ⟨⟨_, hcur, rfl⟩, hd, hprev.trans hcur', by rw [hcount', hcount]⟩

theorem create_heads {minCounter : BitVec 32}
    (hcr : RunState.create C blockSize uuid minCounter fek rnd = s) :
    s.handle.head.counter = 1 ∧ s.handle.vers = true
      ∧ s.storage.head true = some s.handle.head
      ∧ s.storage.head false = some { Image.zero with counter := minCounter } := by
  obtain ⟨ht, ws, hs⟩ : ∃ ht ws, teeFsHtreeSyncToStorage C
      (RunState.fresh C blockSize uuid fek).handle rnd = (ht, ws) := ⟨_, _, rfl⟩
  have D := (Live.fresh uuid fek).syncDone hs rfl
  have hvers : ht.vers = true := by rw [D.vers, fresh_vers, Bool.not_false]
  have hcur := D.head true
  rw [if_pos hvers.symm] at hcur
  rw [create_eq uuid minCounter fek hs] at hcr
  subst hcr
  exact ⟨D.counter, hvers, hcur, rfl⟩

theorem HeadsInStep.create (uuid : Option Uuid) (fek rnd : ByteVec 16) :
    HeadsInStep (RunState.create C blockSize uuid 0 fek rnd) := by
  obtain ⟨s, hcr⟩ : ∃ s, RunState.create C blockSize uuid 0 fek rnd = s := ⟨_, rfl⟩
  obtain ⟨hcount, hvers, hcur, hother⟩ := create_heads hcr
  rw [hcr]
  simp only [HeadsInStep, hvers, hcount]
  exact ⟨⟨_, hcur, hcount⟩, _, hother, by decide⟩

end Optee.Htree
