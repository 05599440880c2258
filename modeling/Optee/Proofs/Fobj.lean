import Mathlib.Data.List.Basic
import Mathlib.Data.List.Induction
import Mathlib.Data.Nat.Find
import Mathlib.Tactic.Common
import Optee.Fobj
import Optee.Result

/-!
# Relocations of a page

The index of a page is that of its first relocation in `relocs` where this is below 65535, and
`rrp_load_page` finds the end as the index of the next page with relocations.
-/

namespace Optee.Fobj

/-- The offsets of the relocations that lie in the pages of the object. -/
def inside (npg relocOffs : ℕ) (reloc : List ℕ) : List ℕ :=
  (reloc.filter fun r => relocOffs ≤ r ∧ r < relocOffs + npg * smallPageSize).map (· - relocOffs)

/-- The offsets in a page of the relocations that are for it. -/
def ofPage (relocOffs pageIdx : ℕ) (reloc : List ℕ) : List ℕ :=
  (reloc.filter fun r => relocOffs ≤ r ∧ (r - relocOffs) / smallPageSize = pageIdx).map
    fun r => (r - relocOffs) % smallPageSize

/-- The object is made, and each of its pages is loaded with the relocations that are for it. -/
def Relocated (wordSize npg relocOffs : ℕ) (reloc : List ℕ) : Prop :=
  ∃ o, fobjRoRelocPagedAlloc wordSize npg relocOffs reloc = .ok o ∧
    (∀ rrp ∈ o, rrp.numRelocs = rrp.relocs.length) ∧ ∀ pageIdx < npg,
    loadPage pageIdx o = ofPage relocOffs pageIdx reloc

/-- The number of relocations in earlier pages. -/
def before (rs : List ℕ) (pageIdx : ℕ) : ℕ := rs.countP fun r => r / smallPageSize < pageIdx

/-- What `page_reloc_idx` has for a page whose relocations are those from `a` up to `b`. -/
def indexOf (a b : ℕ) : ℕ :=
  if a = b then UINT16_MAX
  else if a % 2 ^ 16 ≠ UINT16_MAX then a % 2 ^ 16
  else if a + 1 < b then 0 else UINT16_MAX

theorem indexOf_self (a : ℕ) : indexOf a a = UINT16_MAX := if_pos rfl

theorem indexOf_of_lt {a b : ℕ} (hab : a < b) (ha : a < UINT16_MAX) : indexOf a b = a := by
  unfold UINT16_MAX at ha
  rw [indexOf, if_neg (by omega), Nat.mod_eq_of_lt (by omega), if_pos (by unfold UINT16_MAX; omega)]

theorem indexOf_lt (a b : ℕ) : indexOf a b < 2 ^ 16 := by
  unfold indexOf UINT16_MAX
  split_ifs <;> omega

theorem indexOf_succ {a b : ℕ} (h : a ≤ b) :
    (if indexOf a b = UINT16_MAX then b % 2 ^ 16 else indexOf a b) = indexOf a (b + 1) := by
  rcases Nat.eq_or_lt_of_le h with rfl | hlt
  · rw [indexOf_self, if_pos rfl, indexOf, if_neg (by omega)]
    split_ifs with hmod hmore
    · rfl
    · omega
    · exact not_not.1 hmod
  by_cases hmod : a % 2 ^ 16 = UINT16_MAX
  swap
  · have hindex : ∀ c, a < c → indexOf a c = a % 2 ^ 16 := fun c hc => by
      rw [indexOf, if_neg (by omega), if_pos hmod]
    rw [hindex b hlt, hindex (b + 1) (by omega), if_neg hmod]
  have hindex : ∀ c, a < c → indexOf a c = if a + 1 < c then 0 else UINT16_MAX := fun c hc => by
    rw [indexOf, if_neg (by omega), if_neg (not_not.2 hmod)]
  rw [hindex b hlt, hindex (b + 1) (by omega), if_pos (show a + 1 < b + 1 by omega)]
  by_cases hmore : a + 1 < b
  · rw [if_pos hmore, if_neg (by decide)]
  · obtain rfl : b = a + 1 := by omega
    rw [if_neg hmore, if_pos rfl, Nat.add_mod, hmod]
    rfl

section Pages

variable {rs : List ℕ} (hs : rs.Pairwise (· < ·))

variable {p : ℕ} {reloc : List ℕ}

theorem before_mono (rs : List ℕ) {q : ℕ} (h : p ≤ q) : before rs p ≤ before rs q :=
  List.countP_mono_left fun r _ hr => by
    simp only [decide_eq_true_eq] at hr ⊢
    omega

theorem before_zero : before rs 0 = 0 := by simp [before]

theorem before_eq_length (h : ∀ r ∈ rs, r / smallPageSize < p) : before rs p = rs.length :=
  List.countP_eq_length.2 fun r hr => by simpa using h r hr

theorem foldl_add :
    ∀ rs : List ℕ, rs.Pairwise (· < ·) →
    rs.foldl Rels.add .none = ⟨fun p => indexOf (before rs p) (before rs (p + 1)),
      rs.map (· % smallPageSize)⟩ := by
  intro rs
  induction rs using List.reverseRecOn with
  | nil => intro; simp [Rels.none, before, indexOf_self]
  | append_singleton rs r ih =>
    intro h
    obtain ⟨hs, -, hlast⟩ := List.pairwise_append.1 h
    have hpage : ∀ q ∈ rs, q / smallPageSize ≤ r / smallPageSize := fun q hq =>
      Nat.div_le_div_right (Nat.le_of_lt (hlast q hq r List.mem_cons_self))
    have hbefore : ∀ p, before (rs ++ [r]) p = before rs p + if r / smallPageSize < p then 1
        else 0 := by
      intro p
      simp [before, List.countP_append, List.countP_cons]
    have hall : ∀ p, r / smallPageSize < p → before rs p = rs.length := fun p hp =>
      before_eq_length fun q hq => Nat.lt_of_le_of_lt (hpage q hq) hp
    rw [List.foldl_append, ih hs]
    simp only [List.foldl_cons, List.foldl_nil, Rels.add, List.length_map, List.map_append,
      List.map_cons, List.map_nil, Rels.mk.injEq, and_true]
    funext p
    rcases Nat.lt_trichotomy p (r / smallPageSize) with hp | rfl | hp
    · rw [Function.update_of_ne (Nat.ne_of_lt hp), hbefore, hbefore, if_neg (by omega),
        if_neg (by omega)]
      rfl
    · have hlen := hall _ (Nat.lt_succ_self (r / smallPageSize))
      have hle : before rs (r / smallPageSize) ≤ rs.length := hlen ▸ before_mono _ (Nat.le_succ _)
      rw [Function.update_self, hbefore, hbefore, if_neg (Nat.lt_irrefl _),
        if_pos (Nat.lt_succ_self _), hlen, indexOf_succ hle]
      rfl
    · rw [Function.update_of_ne (Nat.ne_of_gt hp), hbefore, hbefore, if_pos hp, if_pos (by omega),
        hall p hp, hall (p + 1) (by omega), indexOf_self, indexOf_self]

theorem filter_page (p : ℕ) : ∀ {rs : List ℕ}, rs.Pairwise (· < ·) →
    rs.filter (fun r => r / smallPageSize = p) = (rs.take (before rs (p + 1))).drop (before rs p)
  | [], _ => by simp
  | r :: rs, h => by
    obtain ⟨hr, h⟩ := List.pairwise_cons.1 h
    have ih := filter_page p h
    have hcons : ∀ q, before (r :: rs) q = before rs q + if r / smallPageSize < q then 1
        else 0 := by
      intro q
      simp [before, List.countP_cons]
    have hpage : ∀ x ∈ rs, r / smallPageSize ≤ x / smallPageSize := fun x hx =>
      Nat.div_le_div_right (Nat.le_of_lt (hr x hx))
    have hzero : ∀ q, q ≤ r / smallPageSize → before rs q = 0 := fun q hq =>
      List.countP_eq_zero.2 fun x hx => by
        have := hpage x hx
        simp only [decide_eq_true_eq]
        omega
    rw [List.filter_cons, hcons, hcons]
    rcases Nat.lt_trichotomy (r / smallPageSize) p with hp | hp | hp
    · rw [if_neg (by simp only [decide_eq_true_eq]; omega), if_pos hp,
        if_pos (show r / smallPageSize < p + 1 by omega), List.take_succ_cons,
        List.drop_succ_cons, ih]
    · subst hp
      rw [hzero _ (Nat.le_refl _)] at ih ⊢
      rw [if_pos (by simp), if_pos (Nat.lt_succ_self _), if_neg (Nat.lt_irrefl _),
        List.take_succ_cons, ih]
      rfl
    · rw [hzero (p + 1) (by omega), hzero p (by omega)] at ih ⊢
      rw [if_neg (by simp only [decide_eq_true_eq]; omega), if_neg (by omega),
        if_neg (by omega), ih]
      rfl

/-- The object that holds these relocations, in this order. -/
def objectOf (npg : ℕ) (rs : List ℕ) : FobjRoRelocPaged :=
  { rs.foldl Rels.add .none with numRelocs := rs.length, numPages := npg }

theorem endRel_cases (rrp : FobjRoRelocPaged) (p : ℕ) :
    (∃ q, p < q ∧ q < rrp.numPages ∧ (∀ n, p < n → n < q → rrp.pageRelocIdx n = UINT16_MAX) ∧
        rrp.pageRelocIdx q ≠ UINT16_MAX ∧ rrp.endRel p = rrp.pageRelocIdx q) ∨
      (∀ n, p < n → n < rrp.numPages → rrp.pageRelocIdx n = UINT16_MAX)
        ∧ rrp.endRel p = rrp.numRelocs := by
  unfold FobjRoRelocPaged.endRel
  split
  next q hq =>
    obtain ⟨hne, hmem, hfirst⟩ := List.find?_range'_eq_some.1 hq
    simp only [List.mem_range'_1, decide_eq_true_eq] at hmem hne
    refine .inl ⟨q, by omega, by omega, fun n hn hnq => ?_, hne, rfl⟩
    simpa using hfirst n (by omega) hnq
  next hq =>
    refine .inr ⟨fun n hn hnpg => ?_, rfl⟩
    simpa using List.find?_range'_eq_none.1 hq n (by omega) (by omega)

variable {npg : ℕ} (hin : ∀ r ∈ rs, r / smallPageSize < npg)

include hs in
theorem objectOf_index (p : ℕ) :
    (objectOf npg rs).pageRelocIdx p = indexOf (before rs p) (before rs (p + 1)) := by
  rw [objectOf, foldl_add rs hs]

include hs in
theorem objectOf_load (p : ℕ) :
    loadPage p (some (objectOf npg rs)) =
    ((rs.take ((objectOf npg rs).endRel p)).drop (indexOf (before rs p) (before rs (p + 1)))).map
      (· % smallPageSize) := by
  have hrelocs : (objectOf npg rs).relocs = rs.map (· % smallPageSize) := by
    rw [objectOf, foldl_add rs hs]
  rw [loadPage, objectOf_index hs, hrelocs, ← List.map_take, ← List.map_drop]

theorem before_const {q : ℕ} (hpq : p ≤ q)
    (h : ∀ n, p ≤ n → n < q → before rs n = before rs (n + 1)) :
    before rs p = before rs q := by
  induction q, hpq using Nat.le_induction with
  | base => rfl
  | succ q hpq ih => rw [ih fun n hn hnq => h n hn (by omega), h q hpq (Nat.lt_succ_self q)]

include hs hin in
theorem endRel_eq (hidx : ∀ p < npg, before rs p < before rs (p + 1) → before rs p < UINT16_MAX)
    (hp : p < npg) :
    (objectOf npg rs).endRel p = before rs (p + 1) := by
  have hempty : ∀ n < npg, (objectOf npg rs).pageRelocIdx n = UINT16_MAX →
      before rs n = before rs (n + 1) := by
    intro n hn hmax
    rw [objectOf_index hs] at hmax
    by_contra hne
    have hlt : before rs n < before rs (n + 1) :=
      Nat.lt_of_le_of_ne (before_mono _ (Nat.le_succ n)) hne
    rw [indexOf_of_lt hlt (hidx n hn hlt)] at hmax
    exact absurd (hidx n hn hlt) (by omega)
  rcases endRel_cases (objectOf npg rs) p with ⟨q, hpq, hq, hbetween, hne, hend⟩ | ⟨hbetween, hend⟩
  · have hq : q < npg := hq
    rw [hend, objectOf_index hs] at *
    have hlt : before rs q < before rs (q + 1) := by
      refine Nat.lt_of_le_of_ne (before_mono _ (Nat.le_succ q)) fun heq => hne ?_
      rw [heq, indexOf_self]
    rw [indexOf_of_lt hlt (hidx q hq hlt)]
    exact (before_const hpq fun n hn hnq => hempty n (by omega) (hbetween n hn hnq)).symm
  · rw [hend, show (objectOf npg rs).numRelocs = rs.length from rfl, ← before_eq_length hin]
    exact (before_const hp fun n hn hnq => hempty n hnq (hbetween n hn hnq)).symm

include hs in
theorem index_of_load (hend : (objectOf npg rs).endRel p = rs.length)
    (h : loadPage p (some (objectOf npg rs)) = (rs.filter fun r => r / smallPageSize = p).map
      (· % smallPageSize)) :
    rs.length - indexOf (before rs p) (before rs (p + 1)) = before rs (p + 1) - before rs p := by
  have hle : before rs (p + 1) ≤ rs.length := List.countP_le_length
  have := congrArg List.length h
  rw [objectOf_load hs, hend, filter_page p hs] at this
  simpa [Nat.min_eq_left hle] using this

include hs hin in
theorem not_loads (hpos : 0 < npg) (hmany : UINT16_MAX < rs.length)
    (hlast : UINT16_MAX ≤ before rs (npg - 1))
    (h : ∀ p < npg, loadPage p (some (objectOf npg rs))
      = (rs.filter fun r => r / smallPageSize = p).map (· % smallPageSize)) :
    False := by
  obtain ⟨last, rfl⟩ : ∃ last, npg = last + 1 := ⟨npg - 1, by omega⟩
  rw [Nat.add_sub_cancel] at hlast
  have hlen : before rs (last + 1) = rs.length := before_eq_length hin
  have hle : before rs last ≤ rs.length := List.countP_le_length
  have hend : (objectOf (last + 1) rs).endRel last = rs.length := by
    rcases endRel_cases (objectOf (last + 1) rs) last with ⟨q, hq, hq', -⟩ | ⟨-, hend⟩
    · have hq' : q < last + 1 := hq'
      omega
    · exact hend
  -- the index of the last page is a `uint16_t`, so that only one relocation can be in it, the one
  -- with index 65535
  have hidx := index_of_load hs hend (h last (Nat.lt_succ_self last))
  have hlt := indexOf_lt (before rs last) (before rs (last + 1))
  have hmax : UINT16_MAX = 65535 := rfl
  rw [hlen] at hidx hlt
  have heq : indexOf (before rs last) rs.length = before rs last := by omega
  have hbefore : before rs last = UINT16_MAX := by omega
  have htotal : rs.length = UINT16_MAX + 1 := by
    rw [hbefore] at heq
    by_contra hne
    rw [indexOf, if_neg (by omega), if_neg (by decide), if_pos (by omega)] at heq
    cases heq
  -- the page before it takes that one for its own
  obtain ⟨q, hq, hq'⟩ : ∃ q, before rs q < UINT16_MAX ∧ UINT16_MAX ≤ before rs (q + 1) := by
    have hex : ∃ n, UINT16_MAX ≤ before rs n := ⟨last, hlast⟩
    obtain ⟨q, hfind⟩ : ∃ q, Nat.find hex = q + 1 := by
      refine Nat.exists_eq_succ_of_ne_zero fun h0 => ?_
      have := Nat.find_spec hex
      rw [h0, before_zero] at this
      cases this
    exact ⟨q, Nat.not_le.1 (Nat.find_min hex (by omega)), hfind ▸ Nat.find_spec hex⟩
  have hql : q < last := by
    by_contra hge
    have := before_mono rs (Nat.not_lt.1 hge)
    omega
  have hbetween : ∀ n, q < n → n ≤ last → before rs n = UINT16_MAX := by
    intro n hn hnl
    have h1 := before_mono rs (show q + 1 ≤ n from hn)
    have h2 := before_mono rs hnl
    omega
  have hendq : (objectOf (last + 1) rs).endRel q = rs.length := by
    rcases endRel_cases (objectOf (last + 1) rs) q with ⟨n, hqn, hn, -, hne, -⟩ | ⟨-, hend⟩
    · refine absurd ?_ hne
      have hn : n < last + 1 := hn
      rw [objectOf_index hs, hbetween n hqn (by omega)]
      rcases Nat.lt_or_eq_of_le (Nat.lt_succ_iff.1 hn) with hn | rfl
      · rw [hbetween (n + 1) (by omega) (by omega), indexOf_self]
      · rw [hlen, htotal]
        rfl
    · exact hend
  have hidxq := index_of_load hs hendq (h q (by omega))
  rw [hbetween (q + 1) (Nat.lt_succ_self q) hql, indexOf_of_lt hq hq, htotal] at hidxq
  omega

include hs hin in
theorem loads_iff (hpos : 0 < npg) : (∀ p < npg, loadPage p (some (objectOf npg rs)) =
        (rs.filter fun r => r / smallPageSize = p).map (· % smallPageSize)) ↔
      rs.length ≤ UINT16_MAX ∨ before rs (npg - 1) < UINT16_MAX := by
  have hlen : before rs npg = rs.length := before_eq_length hin
  constructor
  · intro h
    by_contra hno
    rw [not_or, Nat.not_le, Nat.not_lt] at hno
    exact not_loads hs hin hpos hno.1 hno.2 h
  · intro h p hp
    have hidx : ∀ p < npg, before rs p < before rs (p + 1) → before rs p < UINT16_MAX := by
      intro p hp hlt
      rcases h with h | h
      · have := before_mono rs (show p + 1 ≤ npg by omega)
        omega
      · exact Nat.lt_of_le_of_lt (before_mono _ (by omega)) h
    rw [objectOf_load hs, endRel_eq hs hin hidx hp, filter_page p hs]
    rcases Nat.eq_or_lt_of_le (before_mono rs (Nat.le_add_right p 1)) with heq | hlt
    · have hmax : before rs (p + 1) ≤ UINT16_MAX := by
        rcases h with h | h
        · exact Nat.le_trans (before_mono _ (by omega)) (hlen ▸ h)
        · rw [← heq]
          exact Nat.le_of_lt (Nat.lt_of_le_of_lt (before_mono _ (by omega)) h)
      rw [heq, indexOf_self, List.drop_eq_nil_of_le, List.drop_eq_nil_of_le]
        <;> rw [List.length_take] <;> omega
    · rw [indexOf_of_lt hlt (hidx p hp hlt)]

end Pages

section Table

variable {wordSize npg relocOffs : ℕ}

/-- The relocation is counted in the first loop. -/
def Counted (npg relocOffs r : ℕ) : Prop :=
  relocOffs ≤ r ∧ r ≤ (relocOffs + npg * smallPageSize) % 2 ^ 32

instance (npg relocOffs r : ℕ) : Decidable (Counted npg relocOffs r) :=
  inferInstanceAs (Decidable (_ ∧ _))

theorem getNumRels_eq :
    ∀ {reloc : List ℕ} {offs : ℕ}, reloc.Pairwise (· < ·) → (∀ r ∈ reloc, offs < r) →
    (∀ r ∈ reloc, r % wordSize = 0) →
    getNumRels wordSize npg relocOffs offs reloc
      = .ok (reloc.countP fun r => Counted npg relocOffs r)
  | [], _, _, _, _ => rfl
  | r :: reloc, offs, hs, hlt, halign => by
    obtain ⟨hr, hs⟩ := List.pairwise_cons.1 hs
    rw [getNumRels, if_pos ⟨halign r List.mem_cons_self, hlt r List.mem_cons_self⟩,
      getNumRels_eq hs hr fun x hx => halign x (List.mem_cons_of_mem r hx), List.countP_cons]
    change Except.ok (if Counted npg relocOffs r then _ else _) = _
    by_cases hc : Counted npg relocOffs r <;> simp [hc]

theorem inside_cons {r : ℕ} :
    inside npg relocOffs (r :: reloc) =
    if relocOffs ≤ r ∧ r < relocOffs + npg * smallPageSize then (r - relocOffs)
      :: inside npg relocOffs reloc
    else inside npg relocOffs reloc := by
  simp only [inside, List.filter_cons, decide_eq_true_eq]
  split_ifs <;> rfl

theorem initRels_ok {n : ℕ} : ∀ {reloc : List ℕ} {rels rels' : Rels}, reloc.Pairwise (· < ·) →
    (initRels npg relocOffs n rels reloc = .ok rels' ↔
      rels.relocs.length + (inside npg relocOffs reloc).length = n ∧
        rels' = (inside npg relocOffs reloc).foldl Rels.add rels)
  | [], rels, rels', _ => by
    simp only [initRels, checkRels, inside, List.filter_nil, List.map_nil, List.length_nil,
      List.foldl_nil, Nat.add_zero]
    split_ifs with h
    · simp [h, eq_comm]
    · simp [h]
  | r :: reloc, rels, rels', hs => by
    obtain ⟨hr, hs⟩ := List.pairwise_cons.1 hs
    have hpage : npg ≤ (r - relocOffs) / smallPageSize ↔ npg * smallPageSize ≤ r - relocOffs :=
      Nat.le_div_iff_mul_le (by decide)
    rw [initRels, inside_cons]
    by_cases hlow : r < relocOffs
    · rw [if_pos hlow, if_neg (by omega)]
      exact initRels_ok hs
    rw [if_neg hlow]
    by_cases hhigh : npg ≤ (r - relocOffs) / smallPageSize
    · have hnone : inside npg relocOffs reloc = [] := by
        rw [inside, List.map_eq_nil_iff, List.filter_eq_nil_iff]
        intro x hx
        have := hr x hx
        simp only [decide_eq_true_eq]
        omega
      rw [if_pos hhigh, if_neg (by omega), hnone, checkRels]
      split_ifs with h
      · simp [h, eq_comm]
      · simp [h]
    have hinside : relocOffs ≤ r ∧ r < relocOffs + npg * smallPageSize := by omega
    rw [if_neg hhigh, if_pos hinside, List.length_cons, List.foldl_cons]
    by_cases hfull : n ≤ rels.relocs.length
    · rw [if_pos hfull]
      refine iff_of_false nofun fun h => ?_
      omega
    · rw [if_neg hfull, initRels_ok hs]
      have : (rels.add (r - relocOffs)).relocs.length = rels.relocs.length + 1 := by simp [Rels.add]
      rw [this, Nat.add_right_comm, Nat.add_assoc]

theorem countP_eq_iff {P Q : ℕ → Prop} [DecidablePred P] [DecidablePred Q] (himp : ∀ r, P r → Q r) :
    ∀ {l : List ℕ}, l.countP (fun r => P r) = l.countP (fun r => Q r) ↔ ∀ r ∈ l, P r ↔ Q r
  | [] => by simp
  | r :: l => by
    have hle : l.countP (fun r => P r) ≤ l.countP fun r => Q r :=
      List.countP_mono_left fun x _ hx => by simpa using himp x (by simpa using hx)
    simp only [List.countP_cons, List.forall_mem_cons, ← countP_eq_iff himp (l := l),
      decide_eq_true_eq]
    by_cases hp : P r
    · simp [hp, himp r hp]
    · by_cases hq : Q r
      · simp only [hp, hq, if_false, if_true, false_iff, not_true, false_and, iff_false]
        omega
      · simp [hp, hq]

/-- The first loop counts the relocations that the second takes. -/
def CountsAgree (npg relocOffs : ℕ) (reloc : List ℕ) : Prop :=
  ∀ r ∈ reloc, relocOffs ≤ r →
    (r ≤ (relocOffs + npg * smallPageSize) % 2 ^ 32 ↔ r < relocOffs + npg * smallPageSize)

theorem length_inside (reloc : List ℕ) : (inside npg relocOffs reloc).length =
    reloc.countP fun r => relocOffs ≤ r ∧ r < relocOffs + npg * smallPageSize := by
  rw [inside, List.length_map, List.countP_eq_length_filter]

theorem counts_eq_iff :
    (reloc.countP fun r => Counted npg relocOffs r) = (inside npg relocOffs reloc).length ↔
      CountsAgree npg relocOffs reloc := by
  have hagree : CountsAgree npg relocOffs reloc ↔
      ∀ r ∈ reloc, Counted npg relocOffs r ↔ relocOffs ≤ r ∧ r < relocOffs + npg * smallPageSize :=
    forall₂_congr fun r _ => and_congr_right_iff.symm
  rw [length_inside, hagree]
  rcases Nat.lt_or_ge ((relocOffs + npg * smallPageSize) % 2 ^ 32)
    (relocOffs + npg * smallPageSize) with h | h
  · exact countP_eq_iff fun r hr => ⟨hr.1, Nat.lt_of_le_of_lt hr.2 h⟩
  · rw [eq_comm, countP_eq_iff (Q := Counted npg relocOffs)
      fun r hr => ⟨hr.1, Nat.le_trans (Nat.le_of_lt hr.2) h⟩]
    exact forall₂_congr fun r _ => Iff.comm

theorem sorted_inside (hs : reloc.Pairwise (· < ·)) :
    (inside npg relocOffs reloc).Pairwise (· < ·) := by
  refine List.pairwise_map.2 ((hs.filter _).imp_of_mem fun {a b} ha _ hab => ?_)
  simp only [List.mem_filter, decide_eq_true_eq] at ha
  omega

theorem page_of_inside {r : ℕ} (h : r ∈ inside npg relocOffs reloc) : r / smallPageSize < npg := by
  simp only [inside, List.mem_map, List.mem_filter, decide_eq_true_eq] at h
  obtain ⟨x, ⟨-, hx⟩, rfl⟩ := h
  rw [Nat.div_lt_iff_lt_mul (by decide)]
  omega

theorem ofPage_eq (hp : p < npg) (reloc : List ℕ) :
    ofPage relocOffs p reloc =
    ((inside npg relocOffs reloc).filter fun r => r / smallPageSize = p).map
      (· % smallPageSize) := by
  rw [inside, List.filter_map, List.map_map, List.filter_filter, ofPage]
  refine congrArg _ (List.filter_congr fun r _ => ?_)
  have hlt : (r - relocOffs) / smallPageSize < npg ↔ r - relocOffs < npg * smallPageSize :=
    Nat.div_lt_iff_lt_mul (by decide)
  simp only [Function.comp, ← Bool.decide_and, decide_eq_decide]
  omega

theorem alloc_eq_ok {o : Option FobjRoRelocPaged} (hpos : 0 < npg) (hs : reloc.Pairwise (· < ·))
    (hzero : 0 ∉ reloc) (halign : ∀ r ∈ reloc, r % wordSize = 0) :
    fobjRoRelocPagedAlloc wordSize npg relocOffs reloc = .ok o ↔
      (reloc.countP fun r => Counted npg relocOffs r) = 0 ∧ o = none ∨
      (reloc.countP fun r => Counted npg relocOffs r) ≠ 0 ∧
        (reloc.countP fun r => Counted npg relocOffs r) = (inside npg relocOffs reloc).length ∧
        o = some (objectOf npg (inside npg relocOffs reloc)) := by
  rw [fobjRoRelocPagedAlloc, if_neg (by omega)]
  by_cases hnil : reloc = []
  · subst hnil
    simp [eq_comm]
  have hlt : ∀ r ∈ reloc, 0 < r := fun r hr => Nat.pos_of_ne_zero fun h => hzero (h ▸ hr)
  rw [if_neg hnil, getNumRels_eq hs hlt halign]
  generalize hn : (reloc.countP fun r => Counted npg relocOffs r) = n
  change (if n = 0 then pure none else do
    let rels ← initRels npg relocOffs n .none reloc
    pure (some { rels with numRelocs := n, numPages := npg })) = Except.ok o ↔ _
  by_cases h0 : n = 0
  · rw [if_pos h0]
    simp [h0, eq_comm, pure, Except.pure]
  rw [if_neg h0, bind_eq_ok]
  simp only [h0, false_and, false_or, not_false_iff, true_and, ne_eq]
  constructor
  · rintro ⟨rels, hrels, ho⟩
    obtain ⟨hlen, rfl⟩ := (initRels_ok hs).1 hrels
    have hlen : n = (inside npg relocOffs reloc).length := by simpa [Rels.none] using hlen.symm
    cases ho
    exact ⟨hlen, by rw [objectOf, ← hlen]⟩
  · rintro ⟨hlen, rfl⟩
    refine ⟨_, (initRels_ok hs).2 ⟨by simpa [Rels.none] using hlen.symm, rfl⟩, ?_⟩
    rw [objectOf, ← hlen]
    rfl

/-- Relocations are applied once and on the right page exactly where the first offset is not 0, the
tests of `get_num_rels` and `init_rels` agree, and 65535 relocations are enough. -/
theorem relocated_iff {reloc : List ℕ} (hpos : 0 < npg) (hs : reloc.Pairwise (· < ·))
    (halign : ∀ r ∈ reloc, r % wordSize = 0) :
    Relocated wordSize npg relocOffs reloc ↔
      0 ∉ reloc ∧ CountsAgree npg relocOffs reloc ∧
        ((inside npg relocOffs reloc).length ≤ UINT16_MAX ∨
          before (inside npg relocOffs reloc) (npg - 1) < UINT16_MAX) := by
  by_cases hzero : 0 ∈ reloc
  · refine iff_of_false ?_ fun h => h.1 hzero
    rintro ⟨o, ho, -⟩
    cases reloc with
    | nil => cases hzero
    | cons r reloc =>
      have hr : r = 0 := by
        rcases List.mem_cons.1 hzero with rfl | hmem
        · rfl
        · exact absurd ((List.pairwise_cons.1 hs).1 0 hmem) (Nat.not_lt_zero r)
      subst hr
      simp [fobjRoRelocPagedAlloc, getNumRels, Nat.ne_of_gt hpos] at ho
      cases ho
  simp only [hzero, not_false_iff, true_and, ← counts_eq_iff]
  have hloads :=
    loads_iff (sorted_inside hs)
    (fun r (h : r ∈ inside npg relocOffs reloc) => page_of_inside h) hpos
  have hpages : ∀ o, (∀ p < npg, loadPage p o = ofPage relocOffs p reloc)
    ↔ ∀ p < npg, loadPage p o =
      ((inside npg relocOffs reloc).filter fun r => r / smallPageSize = p).map
      (· % smallPageSize) := fun o =>
    forall₂_congr fun p hp => by rw [ofPage_eq hp]
  simp only [Relocated, alloc_eq_ok hpos hs hzero halign, hpages]
  constructor
  · rintro ⟨o, ⟨h0, rfl⟩ | ⟨h0, hlen, rfl⟩, -, hload⟩
    · have hnil : inside npg relocOffs reloc = [] := by
        refine List.eq_nil_iff_forall_not_mem.2 fun r hr => ?_
        have := hload _ (page_of_inside hr)
        rw [loadPage, eq_comm, List.map_eq_nil_iff, List.filter_eq_nil_iff] at this
        exact this r hr (by simp)
      rw [h0, hnil]
      exact ⟨rfl, .inl (Nat.zero_le _)⟩
    · exact ⟨hlen, hloads.1 hload⟩
  · rintro ⟨hlen, hsize⟩
    by_cases h0 : (reloc.countP fun r => Counted npg relocOffs r) = 0
    · refine ⟨none, .inl ⟨h0, rfl⟩, nofun, fun p _ => ?_⟩
      rw [List.eq_nil_of_length_eq_zero (hlen.symm.trans h0)]
      rfl
    · refine ⟨_, .inr ⟨h0, hlen, rfl⟩, ?_, hloads.2 hsize⟩
      rintro rrp ⟨⟩
      simp [objectOf, foldl_add _ (sorted_inside hs)]

/-- Two pages of an object, the second with a relocation. -/
theorem relocated_second_page : Relocated 8 2 4096 [8, 8200] :=
  (relocated_iff (by decide) (by decide) (by decide)).2
    ⟨by decide, by unfold CountsAgree; decide, .inl (by decide)⟩

/-- A relocation right behind the object is counted and not stored. -/
theorem relocation_behind_object :
    fobjRoRelocPagedAlloc 8 1 0 [4096] = .error .assertion ∧ ¬Relocated 8 1 0 [4096] := by
  have hfault : fobjRoRelocPagedAlloc 8 1 0 [4096] = .error .assertion := by rfl
  refine ⟨hfault, ?_⟩
  rintro ⟨o, ho, -⟩
  cases hfault.symm.trans ho

end Table

end Optee.Fobj
