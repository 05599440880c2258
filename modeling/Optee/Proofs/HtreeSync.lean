import Optee.Proofs.HtreeOpen
import Mathlib.Data.Bool.Basic

/-!
# Synchronising a tree

Between two syncs only the nodes with nothing dirty below them are as storage has them (`Kept`). A
sync leaves a tree without dirty nodes that is in storage as a whole and verifies (`sync_stored`).
-/

namespace Optee.Htree

open BinTree

/-! ## Flag bits -/

@[simp] theorem childVers_xor_committedBlock (f : BitVec 16) (b : Bool) :
    childVers (f ^^^ committedBlock) b = childVers f b := by
  cases b <;> simp [childVers, committedBlock]

@[simp] theorem blockVers_xor_committedBlock (f : BitVec 16) :
    blockVers (f ^^^ committedBlock) = !blockVers f := by
  simp [blockVers, committedBlock]

@[simp] theorem blockVers_xor_committedChild (f : BitVec 16) (b : Bool) :
    blockVers (f ^^^ committedChild b) = blockVers f := by
  cases b <;> simp [blockVers, committedChild]

theorem childVers_xor_committedChild (f : BitVec 16) (b b' : Bool) :
    childVers (f ^^^ committedChild b) b' = xor (childVers f b') (b == b') := by
  cases b <;> cases b' <;> simp [childVers, committedChild]

@[simp] theorem childSynced_id (n : HtreeNode) (b d : Bool) : (n.childSynced b d).id = n.id := by
  cases d <;> rfl

@[simp] theorem childSynced_dirty (n : HtreeNode) (b d : Bool) :
    (n.childSynced b d).dirty = (n.dirty || d) := by
  cases d <;> simp [HtreeNode.childSynced]

theorem childSynced_childVers (n : HtreeNode) (b d b' : Bool) :
    childVers (n.childSynced b d).node.flags b'
      = xor (childVers n.node.flags b') (d && (b == b')) := by
  cases d <;> simp [HtreeNode.childSynced, childVers_xor_committedChild]

/-! ## Writes -/

variable {S S' : Storage}

@[simp] theorem writes_nil : S.writes [] = S := rfl

theorem writes_append (ws ws' : List Write) : S.writes (ws ++ ws') = (S.writes ws).writes ws' := by
  simp [Storage.writes]

theorem writes_cons (w : Write) (ws : List Write) :
    S.writes (w :: ws) = (S.write w).writes ws := rfl

theorem node_writes {i : ℕ} {v : Bool} : ∀ {ws : List Write} {S : Storage},
    (∀ d, Write.node i v d ∉ ws) → (S.writes ws).node i v = S.node i v
  | [], _, _ => rfl
  | w :: ws, S, h => by
    rw [writes_cons, node_writes fun d hd => h d (List.mem_cons_of_mem _ hd)]
    cases w with
    | head => rfl
    | block => rfl
    | node j u d =>
      refine if_neg ?_
      rintro ⟨rfl, rfl⟩
      exact h d List.mem_cons_self

theorem node_writes_or {i : ℕ} {v : Bool} : ∀ (ws : List Write) (S : Storage),
    (S.writes ws).node i v = S.node i v
      ∨ ∃ d, Write.node i v d ∈ ws ∧ (S.writes ws).node i v = some d
  | [], _ => .inl rfl
  | w :: ws, S => by
    rw [writes_cons]
    rcases node_writes_or (i := i) (v := v) ws (S.write w) with h | ⟨d, hd, h⟩
    · rw [h]
      cases w with
      | head => exact .inl rfl
      | block => exact .inl rfl
      | node j u d =>
        by_cases hij : i = j ∧ v = u
        · obtain ⟨rfl, rfl⟩ := hij
          exact .inr ⟨d, List.mem_cons_self, if_pos ⟨rfl, rfl⟩⟩
        · exact .inl (if_neg hij)
    · exact .inr ⟨d, List.mem_cons_of_mem _ hd, h⟩

theorem block_writes {i : ℕ} {v : Bool} : ∀ {ws : List Write} {S : Storage},
    (∀ d, Write.block i v d ∉ ws) → (S.writes ws).block i v = S.block i v
  | [], _, _ => rfl
  | w :: ws, S, h => by
    rw [writes_cons, block_writes fun d hd => h d (List.mem_cons_of_mem _ hd)]
    cases w with
    | head => rfl
    | node => rfl
    | block j u d =>
      refine if_neg ?_
      rintro ⟨rfl, rfl⟩
      exact h d List.mem_cons_self

theorem head_writes {v : Bool} : ∀ {ws : List Write} {S : Storage},
    (∀ d, Write.head v d ∉ ws) → (S.writes ws).head v = S.head v
  | [], _, _ => rfl
  | w :: ws, S, h => by
    rw [writes_cons, head_writes fun d hd => h d (List.mem_cons_of_mem _ hd)]
    cases w with
    | block => rfl
    | node => rfl
    | head u d =>
      refine if_neg ?_
      rintro rfl
      exact h d List.mem_cons_self

/-! ## What a visit does -/

variable (C : Crypto)

/-- What a sync leaves as it is in a node. -/
def HtreeNode.blockView (n : HtreeNode) : ℕ × ByteVec 16 × ByteVec 16 × Bool :=
  (n.id, n.node.iv, n.node.tag, blockVers n.node.flags)

theorem childSynced_blockView (n : HtreeNode) (b d : Bool) :
    (n.childSynced b d).blockView = n.blockView := by
  cases d <;> simp [HtreeNode.childSynced, HtreeNode.blockView]

theorem sync_dirty : ∀ (t : NodeTree) (fm : Option FileMeta) (v : Bool),
    (htreeSyncNodeToStorage C fm v t).2.2 = t.any HtreeNode.dirty
  | .nil, _, _ => rfl
  | .node n c0 c1, fm, v => by
    simp only [htreeSyncNodeToStorage, sync_dirty c0, sync_dirty c1, childSynced_dirty]
    rw [BinTree.any]
    split_ifs with h
    · exact h.symm
    · simpa using h

theorem sync_of_clean : ∀ (t : NodeTree) (fm : Option FileMeta) (v : Bool),
    t.any HtreeNode.dirty = false → htreeSyncNodeToStorage C fm v t = (t, [], false)
  | .nil, _, _, _ => rfl
  | .node n c0 c1, fm, v, h => by
    simp only [BinTree.any, Bool.or_eq_false_iff] at h
    simp [htreeSyncNodeToStorage, sync_of_clean c0 _ _ h.1.2, sync_of_clean c1 _ _ h.2,
      HtreeNode.childSynced, h.1.1]

theorem sync_of_dirty {n : HtreeNode} {c0 c1 : NodeTree} (fm : Option FileMeta) (v : Bool)
    (h : (BinTree.node n c0 c1).any HtreeNode.dirty = true) : ∃ n' : HtreeNode, ∃ img : NodeImage,
      n' = (n.childSynced false (c0.any HtreeNode.dirty)).childSynced true
        (c1.any HtreeNode.dirty)
      ∧ img = { n'.node with
        hash := C.hash (nodeHashInput n'.node fm
          (htreeSyncNodeToStorage C none (!childVers n.node.flags false) c0).1
          (htreeSyncNodeToStorage C none (!childVers n.node.flags true) c1).1) }
      ∧ htreeSyncNodeToStorage C fm v (.node n c0 c1)
        = (.node { n' with dirty := false, blockUpdated := false, node := img }
            (htreeSyncNodeToStorage C none (!childVers n.node.flags false) c0).1
            (htreeSyncNodeToStorage C none (!childVers n.node.flags true) c1).1,
          (htreeSyncNodeToStorage C none (!childVers n.node.flags false) c0).2.1
            ++ (htreeSyncNodeToStorage C none (!childVers n.node.flags true) c1).2.1
            ++ [.node (n.id - 1) v img], true) := by
  refine ⟨_, _, rfl, rfl, ?_⟩
  have hd : ((n.childSynced false (c0.any HtreeNode.dirty)).childSynced true
      (c1.any HtreeNode.dirty)).dirty = true := by
    simpa [BinTree.any] using h
  simp only [htreeSyncNodeToStorage, sync_dirty C c0, sync_dirty C c1, if_pos hd, childSynced_id]

theorem sync_blockView : ∀ (t : NodeTree) (fm : Option FileMeta) (v : Bool),
    (htreeSyncNodeToStorage C fm v t).1.map HtreeNode.blockView = t.map HtreeNode.blockView
  | .nil, _, _ => rfl
  | .node n c0 c1, fm, v => by
    by_cases h : (BinTree.node n c0 c1).any HtreeNode.dirty = true
    · obtain ⟨n', img, hn', rfl, hs⟩ := sync_of_dirty C fm v h
      have hv : n'.blockView = n.blockView := by
        rw [hn', childSynced_blockView, childSynced_blockView]
      rw [hs]
      simp only [BinTree.map, sync_blockView c0, sync_blockView c1]
      rw [← hv]
      rfl
    · rw [sync_of_clean C _ _ _ (by simpa using h)]

variable {k : ℕ} {t : NodeTree} {fm : Option FileMeta}

theorem numbered_of_blockView {t' : NodeTree}
    (he : t'.map HtreeNode.blockView = t.map HtreeNode.blockView)
    (h : Numbered HtreeNode.id k t) : Numbered HtreeNode.id k t' := by
  have hb : ∀ u : NodeTree, Numbered Prod.fst k (u.map HtreeNode.blockView)
      ↔ Numbered HtreeNode.id k u := fun u => numbered_map HtreeNode.blockView
  rw [← hb, he, hb]
  exact h

theorem Complete.of_blockView {m : ℕ} {t' : NodeTree} (h : Complete m t)
    (he : t'.map HtreeNode.blockView = t.map HtreeNode.blockView) : Complete m t' := by
  refine ⟨?_, numbered_of_blockView he h.numbered⟩
  rw [← shape_map HtreeNode.blockView, he, shape_map]
  exact h.shape

theorem sync_clean : ∀ (t : NodeTree) (fm : Option FileMeta) (v : Bool),
    t.any (fun n => n.blockUpdated && !n.dirty) = false →
    (htreeSyncNodeToStorage C fm v t).1.map HtreeNode.clean
      = (htreeSyncNodeToStorage C fm v t).1
  | .nil, _, _, _ => rfl
  | .node n c0 c1, fm, v, hu => by
    simp only [BinTree.any, Bool.or_eq_false_iff] at hu
    by_cases h : (BinTree.node n c0 c1).any HtreeNode.dirty = true
    · obtain ⟨n', img, -, -, hs⟩ := sync_of_dirty C fm v h
      rw [hs]
      simp only [BinTree.map, sync_clean c0 _ _ hu.1.2, sync_clean c1 _ _ hu.2]
      rfl
    · have h0 := sync_clean c0 none false hu.1.2
      have h1 := sync_clean c1 none false hu.2
      have hf : (BinTree.node n c0 c1).any HtreeNode.dirty = false := by simpa using h
      have hd := hf
      simp only [BinTree.any, Bool.or_eq_false_iff] at hd
      rw [sync_of_clean C c0 _ _ hd.1.2] at h0
      rw [sync_of_clean C c1 _ _ hd.2] at h1
      rw [sync_of_clean C _ _ _ hf]
      have hn : n.clean = n := by
        have hub := hu.1.1
        rw [hd.1.1] at hub
        cases n
        simp_all [HtreeNode.clean]
      simp only [BinTree.map, hn, h0, h1]

/-! ## Where a visit writes -/

/-- The version that the node at a place has in storage. -/
def versAt : (vers : Bool) → NodeTree → List Bool → Bool
  | v, _, [] => v
  | v, .nil, _ :: _ => v
  | _, .node n c0 c1, b :: p => versAt (childVers n.node.flags b) (if b then c1 else c0) p

theorem sync_writes : ∀ (t : NodeTree) {k : ℕ} (fm : Option FileMeta) (v : Bool),
    Numbered HtreeNode.id k t → ∀ w ∈ (htreeSyncNodeToStorage C fm (!v) t).2.1,
      ∃ p d, (t.get p).isSome ∧ w = .node (idFrom k p - 1) (!versAt v t p) d
  | .nil, _, _, _, _ => by simp [htreeSyncNodeToStorage]
  | .node n c0 c1, k, fm, v, hn => by
    intro w hw
    by_cases h : (BinTree.node n c0 c1).any HtreeNode.dirty = true
    · obtain ⟨n', img, -, -, hs⟩ := sync_of_dirty C fm (!v) h
      rw [hs] at hw
      simp only [List.mem_append, List.mem_singleton] at hw
      rcases hw with (hw | hw) | hw
      · obtain ⟨p, d, hp, rfl⟩ := sync_writes c0 _ _ hn.2.1 w hw
        exact ⟨false :: p, d, by simpa using hp, by simp [versAt]⟩
      · obtain ⟨p, d, hp, rfl⟩ := sync_writes c1 _ _ hn.2.2 w hw
        exact ⟨true :: p, d, by simpa using hp, by simp [versAt]⟩
      · exact ⟨[], img, rfl, by rw [hw, hn.1]; rfl⟩
    · rw [sync_of_clean C _ _ _ (by simpa using h)] at hw
      simp at hw

theorem sync_write_root {v u : Bool} {d : NodeImage} (hn : Numbered HtreeNode.id 1 t)
    (hw : Write.node 0 u d ∈ (htreeSyncNodeToStorage C fm (!v) t).2.1) :
    ∃ n, (htreeSyncNodeToStorage C fm (!v) t).1.get [] = some n ∧ d = n.node := by
  cases t with
  | nil => simp [htreeSyncNodeToStorage] at hw
  | node n c0 c1 =>
    by_cases h : (BinTree.node n c0 c1).any HtreeNode.dirty = true
    · obtain ⟨n', img, -, -, hs⟩ := sync_of_dirty C fm (!v) h
      rw [hs] at hw ⊢
      simp only [List.mem_append, List.mem_singleton] at hw
      -- the writes of the subtrees are of higher numbers
      have hsub : ∀ (c : NodeTree) (k : ℕ) (f : Bool), 2 ≤ k → Numbered HtreeNode.id k c →
          Write.node 0 u d ∉ (htreeSyncNodeToStorage C none (!f) c).2.1 := by
        intro c k f hk hc hm
        obtain ⟨p, d', -, he⟩ := sync_writes C c none f hc _ hm
        simp only [Write.node.injEq] at he
        have := le_idFrom p k
        omega
      rcases hw with (hw | hw) | hw
      · exact absurd hw (hsub c0 _ _ le_rfl hn.2.1)
      · exact absurd hw (hsub c1 _ _ (by omega) hn.2.2)
      · simp only [Write.node.injEq] at hw
        exact ⟨_, rfl, hw.2.2⟩
    · rw [sync_of_clean C _ _ _ (by simpa using h)] at hw
      simp at hw

theorem node_sync_writes {v : Bool} (hk : 1 ≤ k) (hn : Numbered HtreeNode.id k t) (p : List Bool) :
    (S.writes (htreeSyncNodeToStorage C fm (!v) t).2.1).node (idFrom k p - 1) (versAt v t p)
      = S.node (idFrom k p - 1) (versAt v t p) := by
  refine node_writes fun d hd => ?_
  obtain ⟨q, d', -, he⟩ := sync_writes C t fm v hn _ hd
  simp only [Write.node.injEq] at he
  have hle := le_idFrom p k
  have hle' := le_idFrom q k
  obtain rfl : p = q := (idFrom_inj hk).1 (by omega)
  exact absurd he.2.1 (by simp)

theorem block_sync_writes {v : Bool} (hn : Numbered HtreeNode.id k t) (i : ℕ) (u : Bool) :
    (S.writes (htreeSyncNodeToStorage C fm (!v) t).2.1).block i u = S.block i u := by
  refine block_writes fun d hd => ?_
  obtain ⟨q, d', -, he⟩ := sync_writes C t fm v hn _ hd
  cases he

theorem head_sync_writes {v : Bool} (hn : Numbered HtreeNode.id k t) (u : Bool) :
    (S.writes (htreeSyncNodeToStorage C fm (!v) t).2.1).head u = S.head u := by
  refine head_writes fun d hd => ?_
  obtain ⟨q, d', -, he⟩ := sync_writes C t fm v hn _ hd
  cases he

/-! ## What is in storage between and after syncs -/

/-- Where nothing below a node is dirty, it is in storage and its hash is right. -/
def Kept (S : Storage) : Option FileMeta → (vers : Bool) → NodeTree → Prop
  | _, _, .nil => True
  | fm, v, .node n c0 c1 =>
    ((BinTree.node n c0 c1).any HtreeNode.dirty = false →
        S.node (n.id - 1) v = some n.node ∧ C.hash (nodeHashInput n.node fm c0 c1) = n.node.hash)
      ∧ Kept S none (childVers n.node.flags false) c0
      ∧ Kept S none (childVers n.node.flags true) c1

variable {C}

theorem Kept.congr : ∀ {t : NodeTree} {k : ℕ} {fm : Option FileMeta} {v : Bool},
    Kept C S fm v t → Numbered HtreeNode.id k t →
    (∀ p u, S'.node (idFrom k p - 1) u = S.node (idFrom k p - 1) u) → Kept C S' fm v t
  | .nil, _, _, _, _, _, _ => trivial
  | .node n c0 c1, k, fm, v, h, hn, hS => by
    refine ⟨fun hd => ?_, h.2.1.congr hn.2.1 fun p u => ?_, h.2.2.congr hn.2.2 fun p u => ?_⟩
    · have hk := hS [] v
      rw [idFrom_nil, ← hn.1] at hk
      rw [hk]
      exact h.1 hd
    · simpa using hS (false :: p) u
    · simpa using hS (true :: p) u

theorem StoredAt.congr : ∀ {t : NodeTree} {k : ℕ} {v : Bool},
    StoredAt S v t → Numbered HtreeNode.id k t →
    (∀ p u, S'.node (idFrom k p - 1) u = S.node (idFrom k p - 1) u) → StoredAt S' v t
  | .nil, _, _, _, _, _ => trivial
  | .node n c0 c1, k, v, h, hn, hS => by
    refine ⟨?_, h.2.1.congr hn.2.1 fun p u => ?_, h.2.2.congr hn.2.2 fun p u => ?_⟩
    · have hk := hS [] v
      rw [idFrom_nil, ← hn.1] at hk
      rw [hk]
      exact h.1
    · simpa using hS (false :: p) u
    · simpa using hS (true :: p) u

theorem Kept.stored : ∀ {t : NodeTree} {fm : Option FileMeta} {v : Bool}, Kept C S fm v t →
    t.any HtreeNode.dirty = false → StoredAt S v t ∧ verifyNode C fm t = true
  | .nil, _, _, _, _ => ⟨trivial, rfl⟩
  | .node n c0 c1, fm, v, h, hd => by
    obtain ⟨hn, hh⟩ := h.1 hd
    simp only [BinTree.any, Bool.or_eq_false_iff] at hd
    obtain ⟨hs0, hv0⟩ := h.2.1.stored hd.1.2
    obtain ⟨hs1, hv1⟩ := h.2.2.stored hd.2
    exact ⟨⟨hn, hs0, hs1⟩, (verifyNode_node C).2 ⟨hv0, hv1, hh⟩⟩

theorem Kept.of_stored : ∀ {t : NodeTree} {fm : Option FileMeta} {v : Bool}, StoredAt S v t →
    verifyNode C fm t = true → Kept C S fm v t
  | .nil, _, _, _, _ => trivial
  | .node n c0 c1, fm, v, h, hv => by
    obtain ⟨hv0, hv1, hh⟩ := (verifyNode_node C).1 hv
    exact ⟨fun _ => ⟨h.1, hh⟩, .of_stored h.2.1 hv0, .of_stored h.2.2 hv1⟩

theorem writes_disjoint {k' : ℕ} {ws : List Write} {v : Bool}
    (hws : ∀ w ∈ ws, ∃ p d, (t.get p).isSome ∧ w = .node (idFrom k p - 1) (!versAt v t p) d)
    (hne : ∀ p q, idFrom k' q - 1 ≠ idFrom k p - 1) (p : List Bool) (u : Bool) :
    (S.writes ws).node (idFrom k' p - 1)
    u = S.node (idFrom k' p - 1) u := by
  refine node_writes fun d hd => ?_
  obtain ⟨q, d', -, he⟩ := hws _ hd
  simp only [Write.node.injEq] at he
  exact hne q p he.1

theorem sync_stored : ∀ (t : NodeTree) {S : Storage} {k : ℕ} {fm : Option FileMeta} {v : Bool},
    1 ≤ k → Numbered HtreeNode.id k t → Kept C S fm v t →
    StoredAt (S.writes (htreeSyncNodeToStorage C fm (!v) t).2.1)
        (xor v (t.any HtreeNode.dirty)) (htreeSyncNodeToStorage C fm (!v) t).1
      ∧ verifyNode C fm (htreeSyncNodeToStorage C fm (!v) t).1 = true
  | .nil, _, _, _, _, _, _, _ => ⟨trivial, rfl⟩
  | .node n c0 c1, S, k, fm, v, hk, hn, hkept => by
    by_cases h : (BinTree.node n c0 c1).any HtreeNode.dirty = true
    · obtain ⟨n', img, hn', himg, hs⟩ := sync_of_dirty C fm (!v) h
      have hw0 := sync_writes C c0 none (childVers n.node.flags false) hn.2.1
      have hw1 := sync_writes C c1 none (childVers n.node.flags true) hn.2.2
      -- the two subtrees and the node itself have no number in common
      have h01 : ∀ p q, idFrom (2 * k) p - 1 ≠ idFrom (2 * k + 1) q - 1 := by
        intro p q he
        have := le_idFrom p (2 * k)
        have := le_idFrom q (2 * k + 1)
        exact idFrom_children_ne hk p q (by omega)
      have hk1 := hkept.2.2.congr hn.2.2 fun p u =>
        writes_disjoint (S := S) hw0 (fun p q => (h01 p q).symm) p u
      obtain ⟨hs0, hv0⟩ := sync_stored c0 (by omega) hn.2.1 hkept.2.1
      obtain ⟨hs1, hv1⟩ := sync_stored c1 (by omega) hn.2.2 hk1
      have hvers : ∀ b, childVers img.flags b
          = xor (childVers n.node.flags b) ((if b then c1 else c0).any HtreeNode.dirty) := by
        intro b
        rw [himg, hn']
        show childVers ((n.childSynced false _).childSynced true _).node.flags b = _
        rw [childSynced_childVers, childSynced_childVers]
        cases b <;> simp
      have hroot : ∀ (S₁ : Storage) j, 2 * k ≤ j → ∀ u p,
          (S₁.write (.node (n.id - 1) (!v) img)).node (idFrom j p - 1) u
            = S₁.node (idFrom j p - 1) u := by
        intro S₁ j hj u p
        refine if_neg ?_
        rintro ⟨he, -⟩
        have := le_idFrom p j
        rw [hn.1] at he
        omega
      rw [hs]
      simp only [writes_append, writes_cons, writes_nil, h, Bool.xor_true]
      refine ⟨⟨?_, ?_, ?_⟩, (verifyNode_node C).2 ⟨hv0, hv1, by rw [himg]; rfl⟩⟩
      · show (Storage.write _ _).node (n'.id - 1) (!v) = some img
        rw [hn', childSynced_id, childSynced_id]
        exact if_pos ⟨rfl, rfl⟩
      · refine StoredAt.congr (k := 2 * k) ((hvers false).symm ▸ hs0) ?_ fun p u => ?_
        · exact numbered_of_blockView (sync_blockView C _ _ _) hn.2.1
        · rw [hroot _ _ le_rfl]
          exact writes_disjoint hw1 (fun p q => h01 q p) p u
      · refine StoredAt.congr (k := 2 * k + 1) ((hvers true).symm ▸ hs1) ?_ fun p u => ?_
        · exact numbered_of_blockView (sync_blockView C _ _ _) hn.2.2
        · exact hroot _ _ (by omega) u p
    · have hf : (BinTree.node n c0 c1).any HtreeNode.dirty = false := by simpa using h
      rw [sync_of_clean C _ _ _ hf, hf]
      simpa using hkept.stored hf

end Optee.Htree
