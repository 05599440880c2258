import Optee.Proofs.HtreeShape
import Mathlib.Data.Set.Function

/-!
# What a root hash commits to

The length of the input of a node hash tells which parts it has, and its bytes what they are
(`nodeHashInput_inj`). So where no two inputs collide, two verified trees with the same root hash
have the same shape, the same node images and the same meta data (`images_eq_of_hash_eq`).
-/

namespace Optee.Htree

open BinTree

variable (C : Crypto)

/-- All that is hashed for a tree. -/
def hashInputs (fm : Option FileMeta) : NodeTree → List (List UInt8)
  | .nil => []
  | .node n c0 c1 => nodeHashInput n.node fm c0 c1 :: (hashInputs none c0 ++ hashInputs none c1)

/-- The nodes as they are stored. -/
def images (t : NodeTree) : BinTree NodeImage := t.map HtreeNode.node

variable {fm fm' : Option FileMeta} {c0 c1 : NodeTree} {m : ℕ}

@[simp] theorem verifyNode_node {n : HtreeNode} : verifyNode C fm (.node n c0 c1) = true ↔
      verifyNode C none c0 = true ∧ verifyNode C none c1 = true
        ∧ C.hash (nodeHashInput n.node fm c0 c1) = n.node.hash := by
  simp [verifyNode, and_assoc]

theorem FileMeta.bytes_inj {m m' : FileMeta} (h : m.bytes = m'.bytes) : m = m' := by
  have hb : ∀ m : FileMeta, m.length.toNat < 256 ^ 8 := fun m => m.length.isLt.trans_le (by decide)
  have := (leBytes_inj (hb m) (hb m')).1 h
  cases m
  cases m'
  rw [BitVec.toNat_inj] at this
  exact congrArg _ this

@[simp] theorem NodeImage.hashedBytes_length (ni : NodeImage) : ni.hashedBytes.length = 34 := by
  simp [NodeImage.hashedBytes]

theorem NodeImage.hashedBytes_inj {a b : NodeImage} (h : a.hashedBytes = b.hashedBytes) :
    a.iv = b.iv ∧ a.tag = b.tag ∧ a.flags = b.flags := by
  obtain ⟨h1, hf⟩ := List.append_inj h (by simp)
  obtain ⟨hiv, htag⟩ := List.append_inj h1 (by simp)
  have hb : ∀ f : BitVec 16, f.toNat < 256 ^ 2 := fun f => f.isLt.trans_le (by decide)
  refine ⟨ByteVec.toList_inj.1 hiv, ByteVec.toList_inj.1 htag, ?_⟩
  rw [leBytes_inj (hb _) (hb _), BitVec.toNat_inj] at hf
  exact hf

theorem metaBytes_inj (hs : fm.isSome = fm'.isSome)
    (h : metaBytes fm = metaBytes fm') : fm = fm' := by
  cases fm <;> cases fm' <;> simp_all [metaBytes]
  exact FileMeta.bytes_inj h

theorem metaBytes_length (hs : fm.isSome = fm'.isSome) :
    (metaBytes fm).length = (metaBytes fm').length := by
  cases fm <;> cases fm' <;> simp_all [metaBytes, FileMeta.bytes]

theorem shape_second {k : ℕ} {n : HtreeNode} (h : Shape m k (.node n c0 c1))
    (h0 : c0 = .nil) : c1 = .nil := by
  subst h0
  have h2 : m < 2 * k := h.2.1
  cases c1 with
  | nil => rfl
  | node a l r =>
    have : 2 * k + 1 ≤ m := h.2.2.1
    omega

theorem childHash_append_inj {c0' c1' : NodeTree} (h0 : c0 = .nil → c1 = .nil)
    (h0' : c0' = .nil → c1' = .nil)
    (h : childHash c0 ++ childHash c1 = childHash c0' ++ childHash c1') :
    childHash c0 = childHash c0' ∧ childHash c1 = childHash c1' := by
  have hlen := congrArg List.length h
  cases c0 with
  | nil =>
    cases h0 rfl
    cases c0' with
    | nil => simpa [childHash] using h
    | node a l r =>
      simp only [childHash, List.append_nil, List.length_nil, List.length_append,
        ByteVec.length_toList] at hlen
      omega
  | node a l r =>
    cases c0' with
    | nil =>
      cases h0' rfl
      simp [childHash] at hlen
    | node a' l' r' => exact List.append_inj h (by simp [childHash])

theorem nodeHashInput_inj {ni ni' : NodeImage} {c0' c1' : NodeTree} (hs : fm.isSome = fm'.isSome)
    (h0 : c0 = .nil → c1 = .nil) (h0' : c0' = .nil → c1' = .nil)
    (h : nodeHashInput ni fm c0 c1 = nodeHashInput ni' fm' c0' c1') :
    (ni.iv = ni'.iv ∧ ni.tag = ni'.tag ∧ ni.flags = ni'.flags) ∧ fm = fm'
      ∧ childHash c0 = childHash c0' ∧ childHash c1 = childHash c1' := by
  simp only [nodeHashInput, List.append_assoc] at h
  obtain ⟨hn, h⟩ := List.append_inj h (by simp)
  obtain ⟨hm, h⟩ := List.append_inj h (metaBytes_length hs)
  exact ⟨NodeImage.hashedBytes_inj hn, metaBytes_inj hs hm, childHash_append_inj h0 h0' h⟩

theorem images_eq_of_hash_eq {m' : ℕ} : ∀ {k : ℕ} (fm fm' : Option FileMeta) {t t' : NodeTree},
    fm.isSome = fm'.isSome → Shape m k t → Shape m' k t' → verifyNode C fm t = true →
    verifyNode C fm' t' = true →
    Set.InjOn C.hash {x | x ∈ hashInputs fm t ∨ x ∈ hashInputs fm' t'} →
    childHash t = childHash t' → images t = images t' ∧ (t ≠ .nil → fm = fm')
  | k, fm, fm', .nil, .nil, _, _, _, _, _, _, _ => by simp [images]
  | k, fm, fm', .nil, .node n' c0' c1', _, _, _, _, _, _, hh => by
    have := congrArg List.length hh
    simp [childHash] at this
  | k, fm, fm', .node n c0 c1, .nil, _, _, _, _, _, _, hh => by
    have := congrArg List.length hh
    simp [childHash] at this
  | k, fm, fm', .node n c0 c1, .node n' c0' c1', hs, hsh, hsh', hv, hv', hinj, hh => by
    obtain ⟨hv0, hv1, hv⟩ := (verifyNode_node C).1 hv
    obtain ⟨hv0', hv1', hv'⟩ := (verifyNode_node C).1 hv'
    have hhash : n.node.hash = n'.node.hash := ByteVec.toList_inj.1 hh
    have hin : nodeHashInput n.node fm c0 c1 = nodeHashInput n'.node fm' c0' c1' := by
      refine hinj (by simp [hashInputs]) (by simp [hashInputs]) ?_
      rw [hv, hv', hhash]
    obtain ⟨⟨hiv, htag, hfl⟩, hfm, hc0, hc1⟩ :=
      nodeHashInput_inj hs (shape_second hsh) (shape_second hsh') hin
    have hsub : ∀ {a a' : NodeTree}, (∀ x ∈ hashInputs none a, x ∈ hashInputs fm (.node n c0 c1)) →
        (∀ x ∈ hashInputs none a', x ∈ hashInputs fm' (.node n' c0' c1')) →
        Set.InjOn C.hash {x | x ∈ hashInputs none a ∨ x ∈ hashInputs none a'} := by
      intro a a' ha ha'
      refine hinj.mono ?_
      rintro x (hx | hx)
      · exact Or.inl (ha x hx)
      · exact Or.inr (ha' x hx)
    obtain ⟨hi0, -⟩ := images_eq_of_hash_eq none none rfl hsh.2.1 hsh'.2.1 hv0 hv0'
      (hsub (by simp +contextual [hashInputs]) (by simp +contextual [hashInputs])) hc0
    obtain ⟨hi1, -⟩ := images_eq_of_hash_eq none none rfl hsh.2.2 hsh'.2.2 hv1 hv1'
      (hsub (by simp +contextual [hashInputs]) (by simp +contextual [hashInputs])) hc1
    refine ⟨?_, fun _ => hfm⟩
    have himg : n.node = n'.node := by
      cases hn : n.node
      cases hn' : n'.node
      simp_all
    simp only [images, map] at hi0 hi1 ⊢
    rw [himg, hi0, hi1]

theorem eq_of_images_eq {m' : ℕ} {t t' : NodeTree} (h : Shape m 1 t) (h' : Shape m' 1 t')
    (hm : 1 ≤ m) (hm' : 1 ≤ m') (hi : images t = images t') : m = m' := by
  have hle : ∀ i, 1 ≤ i → (i ≤ m ↔ i ≤ m') := by
    intro i hi1
    have h1 := ((shape_map HtreeNode.node).2 h).get_isSome (pathOf i)
    have h2 := ((shape_map HtreeNode.node).2 h').get_isSome (pathOf i)
    rw [idFrom_pathOf hi1] at h1 h2
    rw [← h1, ← h2]
    exact iff_of_eq (congrArg (fun u : BinTree NodeImage => ((u.get (pathOf i)).isSome : Prop)) hi)
  have := hle m hm
  have := hle m' hm'
  omega

end Optee.Htree
