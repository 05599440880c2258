import Mathlib
import Optee.ReeFile

/-!
# The layout of a file in the normal world

Nodes go into the physical blocks `1 + 62 * k`, thirty-one pairs to a block, and the versions of the
data blocks fill the 61 physical blocks after each of them (`nodeBlock`, `dataBlock`). The numbers
are those of `size_t` as long as no offset overflows.
-/

namespace Optee.ReeFs

open Htree

/-- The bytes of the file that a thing takes. -/
def elementBytes (type : HtreeType) (idx : ℕ) (vers : Bool) : Set ℕ :=
  Set.Ico (getOffsSize type idx vers).1
    ((getOffsSize type idx vers).1 + (getOffsSize type idx vers).2)

/-- A version of the header, of a node or of a block. -/
inductive Element where
  | head (vers : Bool)
  | node (idx : ℕ) (vers : Bool)
  | block (idx : ℕ) (vers : Bool)
  deriving DecidableEq

/-- The bytes of the file that an element takes. -/
def Element.bytes : Element → Set ℕ
  | .head vers => elementBytes .head 0 vers
  | .node idx vers => elementBytes .node idx vers
  | .block idx vers => elementBytes .block idx vers

/-- The elements of a file with this tree and length. -/
def Element.Of (ht : TeeFsHtree) (len : ℕ) : Element → Prop
  | .head _ => True
  | .node idx _ => idx + 1 ≤ ht.imeta.maxNodeId
  | .block idx _ => idx * blockSize < len

/-- The size that a file is cut to. -/
def keptSize (newFileLen : ℕ) : ℕ :=
  let (offs, sz) := getOffsSize .block (roundup blockSize newFileLen / blockSize) true
  offs + sz

/-! ## Physical blocks -/

/-- The physical block of a node. -/
def nodeBlock (idx : ℕ) : ℕ := 1 + 62 * (idx / 31)

/-- The physical block of a version of a data block. -/
def dataBlock (idx : ℕ) (vers : Bool) : ℕ :=
  2 + (2 * idx + vers.toNat) + (2 * idx + vers.toNat) / 61

variable {vers : Bool} {b idx : ℕ} {ht : TeeFsHtree}

theorem mem_head :
    b ∈ elementBytes .head idx vers ↔ 68 * vers.toNat ≤ b ∧ b < 68 * vers.toNat + 68 := Iff.rfl

theorem mem_node : b ∈ elementBytes .node idx vers ↔
    4096 * nodeBlock idx + 132 * (idx % 31) + 66 * vers.toNat ≤ b
      ∧ b < 4096 * nodeBlock idx + 132 * (idx % 31) + 66 * vers.toNat + 66 := by
  have hoffs : (getOffsSize .node idx vers).1
      = 4096 * nodeBlock idx + 132 * (idx % 31) + 66 * vers.toNat := by
    show (1 + idx / 31 * 31 * 2) * 4096 + 2 * 66 * (idx % 31) + 66 * vers.toNat = _
    rw [nodeBlock]
    ring
  rw [elementBytes, hoffs]
  exact Iff.rfl

theorem mem_block : b ∈ elementBytes .block idx vers ↔
    4096 * dataBlock idx vers ≤ b ∧ b < 4096 * dataBlock idx vers + 4096 := by
  have hoffs : (getOffsSize .block idx vers).1 = 4096 * dataBlock idx vers := Nat.mul_comm _ _
  rw [elementBytes, hoffs]
  exact Iff.rfl

theorem keptSize_eq (newFileLen : ℕ) :
    keptSize newFileLen = 4096 * dataBlock ((newFileLen + 4095) / 4096) true + 4096 := by
  have hblocks : roundup blockSize newFileLen / blockSize = (newFileLen + 4095) / 4096 :=
    Nat.mul_div_cancel _ (by decide)
  show (getOffsSize .block (roundup blockSize newFileLen / blockSize) true).1 + 4096 = _
  rw [hblocks]
  exact congrArg (· + 4096) (Nat.mul_comm _ _)

theorem nodeBlock_pos (idx : ℕ) : 0 < nodeBlock idx := by
  rw [nodeBlock]
  omega

theorem dataBlock_pos (idx : ℕ) (vers : Bool) : 0 < dataBlock idx vers := by
  rw [dataBlock]
  omega

theorem dataBlock_ne_nodeBlock (idx idx' : ℕ) (vers : Bool) :
    dataBlock idx vers ≠ nodeBlock idx' := by
  rw [dataBlock, nodeBlock]
  omega

theorem dataBlock_lt {idx' : ℕ} {vers' : Bool} (h : 2 * idx + vers.toNat < 2 * idx' + vers'.toNat) :
    dataBlock idx vers < dataBlock idx' vers' := by
  have := Nat.div_le_div_right (c := 61) h.le
  rw [dataBlock, dataBlock]
  omega

theorem eq_of_dataBlock_eq {idx' : ℕ} {vers' : Bool} (h : dataBlock idx vers = dataBlock idx' vers')
    : idx = idx' ∧ vers = vers' := by
  have hpos : 2 * idx + vers.toNat = 2 * idx' + vers'.toNat := by
    rcases lt_trichotomy (2 * idx + vers.toNat) (2 * idx' + vers'.toNat) with hlt | heq | hgt
    · exact absurd h (dataBlock_lt hlt).ne
    · exact heq
    · exact absurd h (dataBlock_lt hgt).ne'
  cases vers <;> cases vers' <;> simp only [Bool.toNat_true, Bool.toNat_false] at hpos <;>
    constructor <;> first | rfl | omega

/-! ## Elements -/

theorem Element.eq_of_mem {a b : Element} {x : ℕ} (ha : x ∈ a.bytes)
    (hb : x ∈ b.bytes) : a = b := by
  rcases a with va | ⟨i, va⟩ | ⟨i, va⟩ <;> rcases b with vb | ⟨j, vb⟩ | ⟨j, vb⟩ <;>
    simp only [bytes, mem_head, mem_node, mem_block] at ha hb
  case head.head =>
    cases va <;> cases vb <;> simp only [Bool.toNat_true, Bool.toNat_false] at ha hb <;>
      first | rfl | omega
  case head.node =>
    have := nodeBlock_pos j
    have := va.toNat_le
    omega
  case head.block =>
    have := dataBlock_pos j vb
    have := va.toNat_le
    omega
  case node.head =>
    have := nodeBlock_pos i
    have := vb.toNat_le
    omega
  case node.node =>
    have hblock : nodeBlock i = nodeBlock j := by
      have := va.toNat_le
      have := vb.toNat_le
      omega
    have hpair : i % 31 = j % 31 := by
      have := va.toNat_le
      have := vb.toNat_le
      omega
    have hij : i = j := by
      rw [nodeBlock, nodeBlock] at hblock
      omega
    subst hij
    cases va <;> cases vb <;> simp only [Bool.toNat_true, Bool.toNat_false] at ha hb <;>
      first | rfl | omega
  case node.block =>
    have := dataBlock_ne_nodeBlock j i vb
    have := va.toNat_le
    omega
  case block.head =>
    have := dataBlock_pos i va
    have := vb.toNat_le
    omega
  case block.node =>
    have := dataBlock_ne_nodeBlock i j va
    have := vb.toNat_le
    omega
  case block.block =>
    obtain ⟨rfl, rfl⟩ := eq_of_dataBlock_eq (show dataBlock i va = dataBlock j vb by omega)
    rfl

theorem Element.disjoint {a b : Element} (h : a ≠ b) : Disjoint a.bytes b.bytes :=
  Set.disjoint_left.2 fun _ ha hb => h (eq_of_mem ha hb)

/-! ## What a truncation keeps -/

theorem truncateLoop_maxNodeId : ∀ (count : ℕ) {ht ht' : TeeFsHtree},
    teeFsHtreeTruncateLoop count ht = .ok ht' → ht'.imeta.maxNodeId = ht.imeta.maxNodeId - count
  | 0, ht, ht', h => by
    cases h
    rfl
  | count + 1, ht, ht', h => by
    simp only [teeFsHtreeTruncateLoop, bind_eq_ok] at h
    obtain ⟨_, -, _, -, _, -, _, -, h⟩ := h
    rw [truncateLoop_maxNodeId count h]
    exact Nat.sub_sub _ _ _ |>.trans (by rw [Nat.add_comm])

theorem truncate_maxNodeId_le {ht' : TeeFsHtree} {blockNum : ℕ}
    (h : teeFsHtreeTruncate ht blockNum = .ok ht') : ht'.imeta.maxNodeId ≤ blockNum + 1 := by
  have := truncateLoop_maxNodeId _ h
  rw [blockNumToNodeId] at this
  omega

theorem Element.bytes_subset {ht' : TeeFsHtree} {newFileLen : ℕ}
    (h : teeFsHtreeTruncate ht (newFileLen / blockSize) = .ok ht') {e : Element}
    (he : e.Of ht' newFileLen) : e.bytes ⊆ Set.Iio (keptSize newFileLen) := by
  intro x hx
  rw [Set.mem_Iio, keptSize_eq]
  rcases e with v | ⟨i, v⟩ | ⟨i, v⟩ <;> simp only [bytes, mem_head, mem_node, mem_block] at hx
  case head =>
    have := dataBlock_pos ((newFileLen + 4095) / 4096) true
    have := v.toNat_le
    omega
  case node =>
    have hi : i ≤ newFileLen / 4096 := Nat.le_of_succ_le_succ (he.trans (truncate_maxNodeId_le h))
    have hblock : nodeBlock i < dataBlock ((newFileLen + 4095) / 4096) true := by
      rw [nodeBlock, dataBlock, Bool.toNat_true]
      omega
    have := v.toNat_le
    omega
  case block =>
    have hi : i * 4096 < newFileLen := he
    have hblock : dataBlock i v < dataBlock ((newFileLen + 4095) / 4096) true := by
      have := v.toNat_le
      refine dataBlock_lt ?_
      rw [Bool.toNat_true]
      omega
    omega

theorem wp_tick {o : Oracle} {Q : Unit → Oracle → Prop} {E : TeeError → Oracle → Prop}
    {H : Stop → Oracle → Prop} (hQ : ∀ o, Q () o) (hE : ∀ e o, e ≠ .itemNotFound → E e o)
    (hH : ∀ o, H .cut o) : Prog.wp tick Q E H o := by
  unfold Prog.wp tick
  rcases o.faults with - | ⟨- | ⟨⟨e, he⟩ | -⟩, fs⟩
  · exact hQ _
  · exact hQ _
  · exact hE e _ he
  · exact hH _

theorem wp_ftruncate (C : Crypto) {s : FileState} {newFileLen : ℕ} (hs : s.ht = some ht)
    (hle : newFileLen ≤ ht.imeta.fileMeta.length.toNat) :
    Prog.wp (FileM.reeFsFtruncateInternal C newFileLen)
      (fun _ t => t.file = truncateStorage s.file (keptSize newFileLen)
        ∧ ∃ ht' m, teeFsHtreeTruncate ht (newFileLen / blockSize) = .ok ht'
          ∧ t.ht = some (teeFsHtreeMetaSetDirty (teeFsHtreeSetMeta ht' m)))
      (fun _ t => t.file = s.file) (fun _ t => t.file = s.file) s := by
  rw [FileM.reeFsFtruncateInternal, Prog.wp_bind, FileM.getLength]
  simp only [Prog.wp_bind, Prog.wp_get, hs, Prog.wp_pure, if_neg (Nat.not_lt.2 hle),
    FileM.htreeTruncate, FileM.checkHt]
  cases htrunc : teeFsHtreeTruncate ht (newFileLen / blockSize) with
  | error e => cases e <;> exact rfl
  | ok ht' =>
    simp only [Prog.ofTeeResult, FileM.setHt, FileM.setBlocks, FileM.liftOracle, FileM.setLength,
      Prog.wp_bind, Prog.wp_get, Prog.wp_pure, Prog.wp_modify, Prog.wp_zoom]
    refine wp_tick (fun o => ?_) (fun e o _ => trivial) fun o => trivial
    exact ⟨rfl, ht', _, rfl, rfl⟩

/-- The bytes of two elements are disjoint, and a file that is cut holds every element of its new
length. -/
theorem layout_sound (C : Crypto) : (∀ a b : Element, a ≠ b → Disjoint a.bytes b.bytes)
      ∧ (∀ (newFileLen : ℕ) (ht ht' : TeeFsHtree),
          teeFsHtreeTruncate ht (newFileLen / blockSize) = .ok ht' →
          ∀ e : Element, e.Of ht' newFileLen → e.bytes ⊆ Set.Iio (keptSize newFileLen))
      ∧ ∀ (newFileLen : ℕ) (s : FileState) (ht : TeeFsHtree), s.ht = some ht →
          newFileLen ≤ ht.imeta.fileMeta.length.toNat →
          (FileM.reeFsFtruncateInternal C newFileLen s).2.file = s.file
            ∨ (FileM.reeFsFtruncateInternal C newFileLen s).2.file
                = truncateStorage s.file (keptSize newFileLen)
              ∧ ∃ ht', (FileM.reeFsFtruncateInternal C newFileLen s).2.ht = some ht'
                ∧ ∀ e : Element, e.Of ht' newFileLen →
                  e.bytes ⊆ Set.Iio (keptSize newFileLen) := by
  refine ⟨fun a b => Element.disjoint, fun newFileLen ht ht' h e he => Element.bytes_subset h he,
    fun newFileLen s ht hs hle => ?_⟩
  have hrun := wp_ftruncate C hs hle
  unfold Prog.wp at hrun
  split at hrun
  · rename_i s' heq
    obtain ⟨hfile, ht', m, htrunc, hht⟩ := hrun
    rw [heq]
    refine .inr ⟨hfile, _, hht, fun e he => Element.bytes_subset htrunc ?_⟩
    -- the length is no part of what a tree has nodes for
    rcases e <;> exact he
  · rename_i heq
    rw [heq]
    exact .inl hrun
  · rename_i heq
    rw [heq]
    exact .inl hrun

/-- A file of two blocks, opened. -/
def twoBlocks : TeeFsHtree where
  tree := .node (.new 1) (.node (.new 2) .nil .nil) .nil
  head := Image.zero
  fek := ByteVec.zero 16
  imeta := ⟨⟨8192⟩, 2⟩
  dirty := false
  uuid := none

/-- That file as the functions on files see it, with no fault to come. -/
def twoBlocksFile : FileState :=
  ⟨some twoBlocks, ⟨ByteVec.zero 32, [], 0⟩, [], .empty blockSize, ⟨[], []⟩⟩

/-- The physical block 63 has nodes, and the data block that ends up nearest to it is in 62. A file
that is cut to one byte keeps its first block. -/
theorem layout_sound_border : Disjoint (Element.block 30 false).bytes (Element.node 31 false).bytes
    ∧ (∃ ht', teeFsHtreeTruncate twoBlocks (1 / blockSize) = .ok ht'
      ∧ (Element.block 0 true).bytes ⊆ Set.Iio (keptSize 1))
    ∧ ∃ ht', (FileM.reeFsFtruncateInternal .plain 1 twoBlocksFile).2.ht = some ht'
      ∧ ht'.imeta.maxNodeId = 1 ∧ (Element.block 0 true).bytes ⊆ Set.Iio (keptSize 1) := by
  obtain ⟨hdisjoint, htree, hfile⟩ := layout_sound .plain
  have hfirst : 0 * blockSize < 1 := by decide
  refine ⟨hdisjoint _ _ (by decide), ⟨_, rfl, htree 1 twoBlocks _ rfl (.block 0 true) hfirst⟩, ?_⟩
  obtain hsame | ⟨-, ht', hht, hkept⟩ := hfile 1 twoBlocksFile twoBlocks rfl (by decide)
  · -- block 9 lies behind the new end
    exact absurd (congrArg (fun f => (f.block 9 false).isSome) hsame) (by decide +kernel)
  · exact ⟨ht', hht, by cases hht; rfl, hkept (.block 0 true) hfirst⟩

end Optee.ReeFs
