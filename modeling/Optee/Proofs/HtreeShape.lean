import Optee.HtreeRun

/-!
# Finding, adding and removing nodes

In a tree that holds the numbers up to `m`, these are found, the lookup of the next number ends at
its parent, `get_node` adds exactly that (`getNode_next`) and `tee_fs_htree_truncate` removes the
last ones (`truncateLoop_spec`).
-/

namespace Optee.Htree

open BinTree

/-- The tree has exactly the nodes up to `m`, each at its place. -/
structure Complete (m : ℕ) (t : NodeTree) : Prop where
  shape : Shape m 1 t
  numbered : Numbered HtreeNode.id 1 t

variable {m : ℕ} {t : NodeTree}

variable {i : ℕ} {n : HtreeNode} {ht : TeeFsHtree}

theorem Complete.get_id (h : Complete m t) (hi : 1 ≤ i)
    (hg : t.get (pathOf i) = some n) : n.id = i := by
  rw [h.numbered.get _ hg, idFrom_pathOf hi]

theorem Complete.exists_get (h : Complete m t) (hi : 1 ≤ i)
    (him : i ≤ m) : ∃ n, t.get (pathOf i) = some n :=
  h.shape.exists_get (by rwa [idFrom_pathOf hi])

theorem Complete.get_none (h : Complete m t) (him : m < i) : t.get (pathOf i) = none :=
  h.shape.get_eq_none (by rwa [idFrom_pathOf (by omega)])

theorem Complete.modify (h : Complete m t) {f : HtreeNode → HtreeNode} {p : List Bool}
    (hf : ∀ n, t.get p = some n → (f n).id = n.id) : Complete m (t.modify f p) :=
  ⟨h.shape.modify f p, h.numbered.modify p hf⟩

theorem pathOf_ne_nil (h : 2 ≤ i) : pathOf i ≠ [] := by
  intro hp
  have := idFrom_pathOf (show 1 ≤ i by omega)
  rw [hp] at this
  simp only [idFrom_nil] at this
  omega

theorem pathOf_parent (h : 2 ≤ i) : pathOf i = pathOf (i / 2) ++ [i.testBit 0] := by
  rw [← pathOf_double (by omega)]
  congr 1
  rw [Nat.testBit_zero]
  rcases Nat.mod_two_eq_zero_or_one i with h2 | h2 <;> simp [h2] <;> omega

theorem Complete.insert (h : Complete m t) (hm : 1 ≤ m) :
    Complete (m + 1) (t.insert (.new (m + 1)) (pathOf (m + 1))) := by
  have hid := idFrom_pathOf (show 1 ≤ m + 1 by omega)
  exact ⟨h.shape.insert _ le_rfl hid,
    h.numbered.insert _ hid.symm⟩

theorem Complete.get_insert (h : Complete m t) (hm : 1 ≤ m) (q : List Bool) :
    (t.insert (.new (m + 1)) (pathOf (m + 1))).get q
      = if q = pathOf (m + 1) then some (.new (m + 1)) else t.get q := by
  refine BinTree.get_insert _ _ _ _ (h.get_none (by omega)) fun p' b hp => ?_
  have hpar := pathOf_parent (i := m + 1) (by omega)
  rw [hp] at hpar
  rw [(List.append_inj' hpar rfl).1]
  obtain ⟨n, hn⟩ := h.exists_get (i := (m + 1) / 2) (by omega) (by omega)
  rw [hn]
  rfl

theorem Complete.remove (h : Complete (m + 1) t) : Complete m (t.remove (pathOf (m + 1))) :=
  ⟨h.shape.remove le_rfl (idFrom_pathOf (by omega)), h.numbered.remove _⟩

theorem Complete.children_last (h : Complete (m + 1) t) (b : Bool) :
    t.get (pathOf (m + 1) ++ [b]) = none := by
  rw [← pathOf_double (by omega)]
  exact h.get_none (by omega)

theorem Complete.get_remove (h : Complete (m + 1) t) (q : List Bool) :
    (t.remove (pathOf (m + 1))).get q = if q = pathOf (m + 1) then none else t.get q :=
  BinTree.get_remove _ _ _ h.children_last

/-! ## Lookups -/

theorem findClosestNode_bound (h : findClosestNode t i = .ok n) : 1 ≤ i ∧ i < uintMax := by
  obtain ⟨u, ha, -⟩ := bind_eq_ok.1 h
  simpa [Nat.pos_iff_ne_zero, Nat.one_le_iff_ne_zero] using ha

theorem findClosestNode_of_closest (hi : 1 ≤ i) (hu : i < uintMax)
    (h : t.closest (pathOf i) = some n) : findClosestNode t i = .ok n := by
  have hb : (decide (0 < i) && decide (i < uintMax)) = true := by simp [hu]; omega
  simp only [findClosestNode, hb, h]
  rfl

theorem findClosestNode_present (hi : 1 ≤ i) (hu : i < uintMax) (h : t.get (pathOf i) = some n)
    : findClosestNode t i = .ok n :=
  findClosestNode_of_closest hi hu (closest_of_get _ _ h)

theorem findClosestNode_next (h : Complete m t) (hm : 1 ≤ m) (hu : m + 1 < uintMax) :
    ∃ n, t.get (pathOf ((m + 1) / 2)) = some n ∧ findClosestNode t (m + 1) = .ok n := by
  obtain ⟨n, hn⟩ := h.exists_get (i := (m + 1) / 2) (by omega) (by omega)
  have hpar := pathOf_parent (i := m + 1) (by omega)
  refine ⟨n, hn, findClosestNode_of_closest (by omega) hu ?_⟩
  rw [hpar]
  refine closest_append _ _ _ hn ?_
  rw [← hpar]
  exact h.get_none (by omega)

theorem Complete.exists_closest (h : Complete m t) (hm : 1 ≤ m) (i : ℕ) :
    ∃ n, t.closest (pathOf i) = some n := by
  cases t with
  | nil => exact absurd h.shape (Nat.not_lt.2 hm)
  | node a l r => exact closest_node _ a l r

/-! ## Adding nodes -/

theorem addNodes_spec :
    ∀ (count n : ℕ) {m : ℕ} {t : NodeTree}, Complete m t → 1 ≤ m → 1 ≤ n → n ≤ m + 1 →
    n + count ≤ uintMax → ∃ t', addNodes count n t = .ok t' ∧ Complete (max m (n + count - 1)) t'
      ∧ ∀ q, t'.get q = (t.get q).or (if idFrom 1 q < n + count then some (.new (idFrom 1 q))
        else none)
  | 0, n, m, t, h, hm, hn, hnm, hu => by
    refine ⟨t, rfl, by rwa [max_eq_left (by omega)], fun q => ?_⟩
    split_ifs with hq
    · obtain ⟨a, ha⟩ := h.shape.exists_get (p := q) (by omega)
      rw [ha, Option.some_or]
    · rw [Option.or_none]
  | count + 1, n, m, t, h, hm, hn, hnm, hu => by
    rcases Nat.lt_or_ge m n with hlt | hle
    · -- the first number that is missing
      obtain rfl : n = m + 1 := by omega
      obtain ⟨parent, hparent, hclosest⟩ := findClosestNode_next h hm (by omega)
      have hid : parent.id = (m + 1) / 2 := h.get_id (by omega) hparent
      have hne : ¬ (m + 1) / 2 = m + 1 := by omega
      obtain ⟨t', hadd, hc, hget⟩ :=
        addNodes_spec count (m + 1 + 1) (h.insert hm) (by omega) (by omega) le_rfl (by omega)
      refine ⟨t', ?_, by convert hc using 1; omega, fun q => ?_⟩
      · rw [addNodes, hclosest, ← hadd]
        simp [bind, Except.bind, h.get_none (Nat.lt_succ_self m), hid, hne, assert]
      · rw [hget, h.get_insert hm, show m + 1 + 1 + count = m + 1 + (count + 1) by omega]
        split_ifs with hq hlast
        · rw [hq, h.get_none (by omega), idFrom_pathOf (by omega)]
          rfl
        · rw [hq, idFrom_pathOf (by omega)] at hlast
          omega
        · rfl
        · rfl
    · obtain ⟨a, ha⟩ := h.exists_get hn hle
      obtain ⟨t', hadd, hc, hget⟩ :=
        addNodes_spec count (n + 1) h hm (by omega) (by omega) (by omega)
      refine ⟨t', ?_, by convert hc using 1; omega, fun q => ?_⟩
      · rw [addNodes, findClosestNode_present hn (by omega) ha, ← hadd]
        simp only [bind, Except.bind, if_pos (h.get_id hn ha)]
      · rw [hget, show n + 1 + count = n + (count + 1) by omega]

theorem getNode_present {create : Bool} (h : Complete m ht.tree) (hi : 1 ≤ i) (him : i ≤ m)
    (hu : i < uintMax) : getNode ht create i = .ok ht := by
  obtain ⟨q, hq⟩ := h.exists_get hi him
  simp only [getNode, findClosestNode_present hi hu hq, bind, Except.bind, h.get_id hi hq, if_true]

theorem getNode_grows (h : Complete m ht.tree) (hm : 1 ≤ m) (hi : m < i) (hu : i < uintMax) :
    ∃ t', getNode ht true i = .ok { ht with
        tree := t'
        imeta :=
          { ht.imeta with maxNodeId := if ht.imeta.maxNodeId < i then i else ht.imeta.maxNodeId } }
      ∧ Complete i t'
      ∧ ∀ q, t'.get q = (ht.tree.get q).or (if idFrom 1 q ≤ i then some (.new (idFrom 1 q))
        else none) := by
  obtain ⟨n, hn⟩ := h.exists_closest hm i
  obtain ⟨p, hp⟩ := get_of_closest _ _ hn
  have hid : n.id = idFrom 1 p := h.numbered.get p hp
  have hle : idFrom 1 p ≤ m := (h.shape.get_isSome p).1 (by rw [hp]; rfl)
  have hpos := le_idFrom p 1
  obtain ⟨t', hadd, hc, hget⟩ :=
    addNodes_spec (i - n.id) (n.id + 1) h hm (by omega) (by omega) (by omega)
  rw [show n.id + 1 + (i - n.id) = i + 1 by omega] at hc hget
  refine ⟨t', ?_, by rwa [Nat.add_sub_cancel, max_eq_right hi.le] at hc,
    fun q => by simp only [hget, Nat.lt_succ_iff]⟩
  have hmod : i % 2 ^ 32 = i := Nat.mod_eq_of_lt (by simp only [uintMax] at hu; omega)
  simp only [getNode, findClosestNode_of_closest (by omega) hu hn, bind, Except.bind,
    if_neg (show ¬ n.id = i by omega), Bool.not_true, Bool.false_eq_true, if_false, hadd, hmod]

theorem getNode_next (h : Complete m ht.tree) (hm : 1 ≤ m)
    (hu : m + 1 < uintMax) :
    getNode ht true (m + 1) = .ok { ht with
      tree := ht.tree.insert (.new (m + 1)) (pathOf (m + 1))
      imeta := { ht.imeta with
        maxNodeId := if ht.imeta.maxNodeId < m + 1 then m + 1 else ht.imeta.maxNodeId } } := by
  obtain ⟨t', hnode, -, hget⟩ := getNode_grows (i := m + 1) h hm (by omega) hu
  obtain rfl : t' = ht.tree.insert (.new (m + 1)) (pathOf (m + 1)) := by
    refine ext_get fun q => ?_
    rw [hget, h.get_insert hm]
    split_ifs with hle hq hq
    · rw [hq, h.get_none (Nat.lt_succ_self m), idFrom_pathOf (by omega)]
      rfl
    · have hne : idFrom 1 q ≠ m + 1 := fun he => hq (by rw [← he, pathOf_idFrom])
      obtain ⟨a, ha⟩ := h.shape.exists_get (p := q) (by omega)
      rw [ha, Option.some_or]
    · rw [hq, idFrom_pathOf (by omega)] at hle
      omega
    · rw [Option.or_none]
  exact hnode

theorem getNode_false {ht' : TeeFsHtree} (h : getNode ht false i = .ok ht') : ht' = ht := by
  obtain ⟨n, -, hn⟩ := bind_eq_ok.1 h
  by_cases hid : n.id = i
  · rw [if_pos hid] at hn
    cases hn
    rfl
  · rw [if_neg hid] at hn
    simp at hn

/-! ## Removing nodes -/

theorem truncateLoop_spec : ∀ (count : ℕ) {k : ℕ} (ht : TeeFsHtree), 1 ≤ k →
    Complete (k + count) ht.tree → ht.imeta.maxNodeId = k + count → k + count < uintMax →
    ∃ ht', teeFsHtreeTruncateLoop count ht = .ok ht' ∧ Complete k ht'.tree
      ∧ (∀ q, ht'.tree.get q = if idFrom 1 q ≤ k then ht.tree.get q else none)
      ∧ ht' = { ht with
          tree := ht'.tree, imeta := { ht.imeta with maxNodeId := k },
          dirty := ht.dirty || decide (0 < count) }
  | 0, k, ht, hk, hc, hmax, hu => by
    refine ⟨ht, rfl, hc, fun q => ?_, ?_⟩
    · split_ifs with hq
      · rfl
      · exact hc.shape.get_eq_none (by omega)
    · rw [add_zero] at hmax
      simp [← hmax]
  | count + 1, k, ht, hk, hc, hmax, hu => by
    have hc' : Complete (k + count + 1) ht.tree := hc
    have hmax' : ht.imeta.maxNodeId = k + count + 1 := hmax
    obtain ⟨n, hn⟩ := hc'.exists_get (i := k + count + 1) (by omega) le_rfl
    have hf := findClosestNode_present (i := k + count + 1) (by omega) (by omega) hn
    obtain ⟨ht', hl, hs, hg, he⟩ := truncateLoop_spec count (k := k)
      { ht with
        tree := ht.tree.remove (pathOf (k + count + 1)),
        imeta := { ht.imeta with maxNodeId := k + count }, dirty := true }
      hk hc'.remove rfl (by omega)
    refine ⟨ht', ?_, hs, fun q => ?_, ?_⟩
    · rw [← hl, teeFsHtreeTruncateLoop]
      simp [hmax', hf, bind, Except.bind, hc'.get_id (by omega) hn, hc'.children_last,
        pathOf_ne_nil (i := k + count + 1) (by omega), assert]
    · rw [hg q]
      split_ifs with hq
      · rw [hc'.get_remove, if_neg]
        rintro rfl
        rw [idFrom_pathOf (by omega)] at hq
        omega
      · rfl
    · rw [he]
      simp

/-! ## Runs -/

theorem addNodesMem_eq {mem : ℕ → Bool} : ∀ (count n : ℕ) (t : NodeTree), (∀ i, mem i = true) →
    addNodesMem mem count n t = (addNodes count n t).map (·, true)
  | 0, _, _, _ => rfl
  | count + 1, n, t, hmem => by
    rw [addNodesMem, addNodes]
    cases findClosestNode t n with
    | error e => rfl
    | ok node =>
      simp only [bind, Except.bind, hmem, if_true, addNodesMem_eq count _ _ hmem]
      split_ifs
      · rfl
      · cases assert (n / 2 = node.id) with
        | error e => rfl
        | ok _ => cases assert (t.get (pathOf n)).isNone <;> rfl

theorem getNodeMem_eq {mem : ℕ → Bool} (hmem : ∀ i, mem i = true) (ht : TeeFsHtree) (i : ℕ) :
    getNodeMem mem ht i = getNode ht true i := by
  unfold getNodeMem getNode
  cases findClosestNode ht.tree i with
  | error e => rfl
  | ok node =>
    simp only [bind, Except.bind, addNodesMem_eq _ _ _ hmem]
    cases addNodes (i - node.id) (node.id + 1) ht.tree <;> simp [Except.map]

/-- The ids are those up to `max_node_id`, each node is where its id says, and is found by it. -/
structure WholeTree (ht : TeeFsHtree) : Prop where
  present : ∀ i, (∃ p n, ht.tree.get p = some n ∧ n.id = i) ↔ 1 ≤ i ∧ i ≤ max 1 ht.imeta.maxNodeId
  once : ∀ p q n n', ht.tree.get p = some n → ht.tree.get q = some n' → n.id = n'.id → p = q
  child : ∀ i, 2 ≤ i → i ≤ max 1 ht.imeta.maxNodeId → ∃ p parent n, ht.tree.get p = some parent
    ∧ parent.id = i / 2
    ∧ ht.tree.get (p ++ [i.testBit 0]) = some n ∧ n.id = i
  found : ∀ i, 1 ≤ i → i < uintMax → ∃ r, findNode ht.tree i = .ok r
    ∧ r.map HtreeNode.id = if i ≤ max 1 ht.imeta.maxNodeId then some i else none

/-- Each id that is missing gets a new node, and the others keep theirs. -/
def Grows (ht ht' : TeeFsHtree) (nodeId : ℕ) : Prop :=
  ∀ q, ht'.tree.get q = (ht.tree.get q).or (if idFrom 1 q ≤ nodeId then some (.new (idFrom 1 q))
    else none)

/-- Numbers have 32 bits, and memory does not run out. -/
def NodeOp.Sound : NodeOp → Prop
  | .get mem nodeId => 1 ≤ nodeId ∧ nodeId < uintMax ∧ ∀ i, mem i = true
  | .truncate blockNum => blockNum + 1 < 2 ^ 64

/-- The nodes are those up to the largest number. -/
structure NodesInv (ht : TeeFsHtree) : Prop where
  complete : Complete (max 1 ht.imeta.maxNodeId) ht.tree
  max_lt : ht.imeta.maxNodeId < uintMax

variable {ht : TeeFsHtree} {i : ℕ}

theorem NodesInv.whole (h : NodesInv ht) : WholeTree ht where
  present i := by
    constructor
    · rintro ⟨p, n, hp, rfl⟩
      rw [h.complete.numbered.get p hp]
      exact ⟨le_idFrom p 1, (h.complete.shape.get_isSome p).1 (by rw [hp]; rfl)⟩
    · rintro ⟨hi, hle⟩
      obtain ⟨n, hn⟩ := h.complete.exists_get hi hle
      exact ⟨_, n, hn, h.complete.get_id hi hn⟩
  once p q n n' hp hq hid := by
    rw [h.complete.numbered.get p hp, h.complete.numbered.get q hq] at hid
    exact (idFrom_inj le_rfl).1 hid
  child i hi hle := by
    obtain ⟨parent, hparent⟩ := h.complete.exists_get (i := i / 2) (by omega) (by omega)
    obtain ⟨n, hn⟩ := h.complete.exists_get (by omega) hle
    exact ⟨_, parent, n, hparent, h.complete.get_id (by omega) hparent, pathOf_parent hi ▸ hn,
      h.complete.get_id (by omega) hn⟩
  found i hi hu := by
    obtain ⟨n, hn⟩ := h.complete.exists_closest (le_max_left _ _) i
    obtain ⟨p, hp⟩ := get_of_closest _ _ hn
    have hle : idFrom 1 p ≤ max 1 ht.imeta.maxNodeId :=
      (h.complete.shape.get_isSome p).1 (by rw [hp]; rfl)
    rw [findNode, findClosestNode_of_closest hi hu hn]
    refine ⟨_, rfl, ?_⟩
    split_ifs with hid him him
    · rw [Option.map_some, hid]
    · rw [← hid, h.complete.numbered.get p hp] at him
      exact absurd hle him
    · obtain ⟨n', hn'⟩ := h.complete.exists_get hi him
      rw [closest_of_get _ _ hn'] at hn
      exact absurd (h.complete.get_id hi (Option.some.inj hn ▸ hn')) hid
    · rfl

theorem NodesInv.grow (h : NodesInv ht) (hi : 1 ≤ i) (hu : i < uintMax) :
    ∃ ht', getNode ht true i = .ok ht' ∧ NodesInv ht' ∧ Grows ht ht' i := by
  rcases Nat.lt_or_ge (max 1 ht.imeta.maxNodeId) i with hlt | hle
  · obtain ⟨t', hnode, hc, hget⟩ := getNode_grows h.complete (le_max_left _ _) hlt hu
    rw [if_pos (by omega)] at hnode
    exact ⟨_, hnode, ⟨by rwa [max_eq_right hi], hu⟩, hget⟩
  · refine ⟨ht, getNode_present h.complete hi hle hu, h, fun q => ?_⟩
    split_ifs with hq
    · obtain ⟨a, ha⟩ := h.complete.shape.exists_get (p := q) (hq.trans hle)
      rw [ha, Option.some_or]
    · rw [Option.or_none]

theorem NodesInv.truncate (h : NodesInv ht) (blockNum : ℕ) :
    ∃ ht', teeFsHtreeTruncate ht blockNum = .ok ht' ∧ NodesInv ht' := by
  unfold teeFsHtreeTruncate blockNumToNodeId
  rcases Nat.lt_or_ge (blockNum + 1) ht.imeta.maxNodeId with hlt | hle
  · have hmax : blockNum + 1 + (ht.imeta.maxNodeId - (blockNum + 1)) = ht.imeta.maxNodeId := by
      omega
    obtain ⟨ht', hloop, hc, -, heq⟩ :=
      truncateLoop_spec (ht.imeta.maxNodeId - (blockNum + 1)) (k := blockNum + 1) ht (by omega)
        (by rw [hmax]; simpa [max_eq_right (show 1 ≤ ht.imeta.maxNodeId by omega)] using h.complete)
        hmax.symm
      (by rw [hmax]; exact h.max_lt)
    have hid : ht'.imeta.maxNodeId = blockNum + 1 := by rw [heq]
    refine ⟨ht', hloop, ?_, hid ▸ hlt.trans h.max_lt⟩
    rwa [hid, max_eq_right (by omega)]
  · rw [Nat.sub_eq_zero_of_le hle]
    exact ⟨ht, rfl, h⟩

theorem NodesInv.step (h : NodesInv ht) {op : NodeOp} (hop : op.Sound) :
    ∃ ht', op.step ht = .ok ht' ∧ NodesInv ht' := by
  cases op with
  | get mem nodeId =>
    obtain ⟨hi, hu, hmem⟩ := hop
    obtain ⟨ht', hget, hinv, -⟩ := h.grow hi hu
    exact ⟨ht', (getNodeMem_eq hmem ht nodeId).trans hget, hinv⟩
  | truncate blockNum =>
    obtain ⟨ht', hcut, hinv⟩ := h.truncate blockNum
    exact ⟨ht', by rwa [NodeOp.step, blockNumToNodeId, Nat.mod_eq_of_lt hop], hinv⟩

theorem NodesInv.run :
    ∀ {ops : List NodeOp} {ht : TeeFsHtree}, NodesInv ht → (∀ op ∈ ops, op.Sound) →
    ∃ ht', exec NodeOp.step ht ops = .ok ht' ∧ NodesInv ht'
  | [], ht, h, _ => ⟨ht, rfl, h⟩
  | op :: ops, ht, h, hops => by
    obtain ⟨ht₁, hstep, h₁⟩ := h.step (hops op List.mem_cons_self)
    rw [exec, hstep]
    exact NodesInv.run h₁ fun op' hop' => hops op' (List.mem_cons_of_mem op hop')

/-- However nodes are got and cut off, with memory for them and ids that fit, the tree is whole. -/
theorem nodes_whole (ht : TeeFsHtree) (root : HtreeNode) (hroot : ht.tree = .node root .nil .nil)
    (hid : root.id = 1) (hmax : ht.imeta.maxNodeId ≤ 1) (ops : List NodeOp)
    (hops : ∀ op ∈ ops, op.Sound) :
    ∃ ht', exec NodeOp.step ht ops = .ok ht' ∧ WholeTree ht' ∧ ∀ nodeId, 1 ≤ nodeId →
      nodeId < uintMax →
      ∃ ht'', getNodeMem (fun _ => true) ht' nodeId = .ok ht'' ∧ Grows ht' ht'' nodeId := by
  have hinv : NodesInv ht := by
    refine ⟨?_, hmax.trans_lt (by decide)⟩
    rw [max_eq_left hmax, hroot]
    exact ⟨by simp [Shape], hid, trivial, trivial⟩
  obtain ⟨ht', hrun, hinv'⟩ := hinv.run hops
  refine ⟨ht', hrun, hinv'.whole, fun nodeId hi hu => ?_⟩
  obtain ⟨ht'', hget, -, hgrows⟩ := hinv'.grow hi hu
  exact ⟨ht'', (getNodeMem_eq (fun _ => rfl) ht' nodeId).trans hget, hgrows⟩

/-- The tree of a new file. -/
def rootAlone : TeeFsHtree :=
  ⟨.node (.new 1) .nil .nil, Image.zero, ByteVec.zero 16, ⟨⟨0⟩, 0⟩, true, none⟩

theorem nodes_whole_six :
    ∃ ht', exec NodeOp.step rootAlone [.get (fun _ => true) 6, .truncate 2] = .ok ht'
    ∧ WholeTree ht' := by
  obtain ⟨ht', hrun, hwhole, -⟩ := nodes_whole rootAlone (.new 1) rfl rfl (by decide)
    [.get (fun _ => true) 6, .truncate 2] (by simp [NodeOp.Sound, uintMax])
  exact ⟨ht', hrun, hwhole⟩

/-- Where memory runs out there are nodes past `max_node_id`, and there is no level of 0 and no
parent of the root. -/
theorem nodes_not_whole :
    (∃ ht', exec NodeOp.step rootAlone [.get (fun n => n < 5) 6] = .ok ht' ∧ ¬ WholeTree ht')
    ∧ exec NodeOp.step rootAlone [.get (fun _ => true) 0] = .error .panic
    ∧ exec NodeOp.step rootAlone [.get (fun _ => true) 2, .truncate (2 ^ 64 - 1)]
      = .error .panic := by
  refine ⟨?_, eq_error_of_decide (by decide +kernel), eq_error_of_decide (by decide +kernel)⟩
  obtain ⟨ht', hrun, hmax, hget⟩ :
    ∃ ht', exec NodeOp.step rootAlone [.get (fun n => n < 5) 6] = .ok ht'
      ∧ ht'.imeta.maxNodeId = 0 ∧ ht'.tree.get (pathOf 4) = some (.new 4) :=
      exists_ok_of_decide (by decide +kernel)
  refine ⟨ht', hrun, fun h => ?_⟩
  have hle := ((h.present 4).1 ⟨_, _, hget, rfl⟩).2
  rw [hmax] at hle
  exact absurd hle (by decide)

end Optee.Htree
