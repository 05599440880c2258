import Mathlib.Data.List.Basic
import Mathlib.Data.List.Range
import Mathlib.Tactic.Common
import Optee.MsgParam

/-!
# A buffer is what its list says

Before each entry the walk is at an index of a list page from which the number of the entry follows,
also where it is about to turn to the next list page (`turn_spec`). So the object has the pages that
the list has, in that order.
-/

namespace Optee.MsgParam

variable (ns : Normal) (buf : ℕ)

/-- The pages of the list, each of which names the next in its last word. -/
def listPage : ℕ → ℕ
  | 0 => buf
  | k + 1 => ns.word (listPage k + 511 * 8)

/-- The page that stands at a place of the list. -/
def entry (i : ℕ) : ℕ := ns.word (listPage ns buf (i / 511) + i % 511 * 8)

/-- The walk gets past an entry. -/
def EntryOk (i : ℕ) : Prop :=
  (i % 511 = 0 → pageOk ns (listPage ns buf (i / 511)) = true) ∧ entry ns buf i % smallPageSize = 0

/-- The list pages that were mapped by then. -/
def mappedUpTo (k : ℕ) : List ℕ := (List.range (k + 1)).map (listPage ns buf)

variable {ns buf}

theorem mappedUpTo_succ (k : ℕ) :
    mappedUpTo ns buf (k + 1) = mappedUpTo ns buf k ++ [listPage ns buf (k + 1)] := by
  rw [mappedUpTo, List.range_succ, List.map_append]
  rfl

theorem turn_spec {i k j : ℕ} (hi : i = 511 * k + j) (hj : j ≤ 511)
    (hk : pageOk ns (listPage ns buf k) = true) :
    pageOk ns (listPage ns buf (i / 511)) = true ∧
        turn ns (listPage ns buf k) j ⟨[listPage ns buf k], mappedUpTo ns buf k⟩ =
          .ok (listPage ns buf (i / 511), i % 511,
            ⟨[listPage ns buf (i / 511)], mappedUpTo ns buf (i / 511)⟩) ∨
      (i % 511 = 0 ∧ pageOk ns (listPage ns buf (i / 511)) = false) ∧
        turn ns (listPage ns buf k) j ⟨[listPage ns buf k], mappedUpTo ns buf k⟩
          = .error ⟨[], mappedUpTo ns buf k⟩ := by
  unfold turn smallPageSize
  rcases Nat.lt_or_eq_of_le hj with hlt | rfl
  · rw [show i / 511 = k by omega, show i % 511 = j by omega, if_neg (by omega)]
    exact .inl ⟨hk, rfl⟩
  rw [show i / 511 = k + 1 by omega, show i % 511 = 0 by omega, if_pos (by omega)]
  have hnext : ns.word (listPage ns buf k + 511 * 8) = listPage ns buf (k + 1) := rfl
  have hput : Mapped.put ⟨[listPage ns buf k], mappedUpTo ns buf k⟩ (listPage ns buf k)
      = ⟨[], mappedUpTo ns buf k⟩ := by
    simp [Mapped.put]
  simp only [hnext, hput]
  by_cases hok : pageOk ns (listPage ns buf (k + 1)) = true
  · have halign : listPage ns buf (k + 1) % 4096 = 0 :=
      of_decide_eq_true (Bool.and_eq_true_iff.1 hok).1
    rw [if_neg (not_not.2 halign), Mapped.alloc, if_pos hok, mappedUpTo_succ]
    exact .inl ⟨hok, rfl⟩
  · refine .inr ⟨⟨trivial, Bool.eq_false_iff.2 hok⟩, ?_⟩
    rw [Mapped.alloc, if_neg hok]
    split <;> rfl

/-- The loop returns the entries, or nothing if one is bad, with no page left mapped. -/
theorem extractLoop_spec :
    ∀ (n : ℕ) {i k j : ℕ} (pages : List ℕ), i = 511 * k + j → j ≤ 511 →
    pageOk ns (listPage ns buf k) = true →
    ∃ res K, extractLoop ns n (listPage ns buf k) j pages ⟨[listPage ns buf k],
      mappedUpTo ns buf k⟩ =
        (res, ⟨[], mappedUpTo ns buf K⟩) ∧ (K ≤ k ∨ K ≤ (i + n - 1) / 511) ∧
      ((∀ m, i ≤ m → m < i + n → EntryOk ns buf m) ∧
        res = some (pages ++ (List.range' i n).map (entry ns buf)) ∨
        ¬(∀ m, i ≤ m → m < i + n → EntryOk ns buf m) ∧ res = none)
  | 0, i, k, j, pages, _, _, _ => by
    refine ⟨some pages, k, ?_, .inl (Nat.le_refl k), .inl ⟨fun m _ _ => by omega, by simp⟩⟩
    simp [extractLoop, Mapped.put]
  | n + 1, i, k, j, pages, hi, hj, hk => by
    rw [extractLoop]
    rcases turn_spec hi hj hk with ⟨hok, hturn⟩ | ⟨⟨hmod, hbad⟩, hturn⟩
    swap
    · rw [hturn]
      refine ⟨none, k, rfl, .inl (Nat.le_refl k), .inr ⟨fun h => ?_, rfl⟩⟩
      have := (h i (Nat.le_refl i) (by omega)).1 hmod
      exact absurd (hbad.symm.trans this) nofun
    rw [hturn]
    change ∃ res K, (if entry ns buf i % smallPageSize ≠ 0 then _
      else extractLoop ns n _ (i % 511 + 1) (pages ++ [entry ns buf i]) _) = _ ∧ _
    by_cases halign : entry ns buf i % smallPageSize = 0
    swap
    · rw [if_pos halign]
      refine ⟨none, i / 511, by simp [Mapped.put], .inr (Nat.div_le_div_right (by omega)),
        .inr ⟨fun h => ?_, rfl⟩⟩
      exact halign (h i (Nat.le_refl i) (by omega)).2
    rw [if_neg (not_not.2 halign)]
    obtain ⟨res, K, hloop, hK, hres⟩ := extractLoop_spec n (pages ++ [entry ns buf i])
      (show i + 1 = 511 * (i / 511) + (i % 511 + 1) by omega) (by omega) hok
    have hall : (∀ m, i ≤ m → m < i + (n + 1) → EntryOk ns buf m)
        ↔ ∀ m, i + 1 ≤ m → m < i + 1 + n → EntryOk ns buf m := by
      refine ⟨fun h m h1 h2 => h m (by omega) (by omega), fun h m h1 h2 => ?_⟩
      rcases Nat.eq_or_lt_of_le h1 with rfl | h1
      · exact ⟨fun _ => hok, halign⟩
      · exact h m h1 (by omega)
    refine ⟨res, K, hloop, ?_, ?_⟩
    · have : i / 511 ≤ (i + (n + 1) - 1) / 511 := Nat.div_le_div_right (by omega)
      have : (i + 1 + n - 1) / 511 = (i + (n + 1) - 1) / 511 := by
        rw [show i + 1 + n - 1 = i + (n + 1) - 1 by omega]
      omega
    · rw [hall, List.range'_succ, List.map_cons, List.append_cons]
      exact hres

/-- The list pages that are needed and the pages listed are aligned and non-secure. -/
def ListOk (ns : Normal) (buf n : ℕ) : Prop :=
  (∀ k ≤ (n - 1) / 511, pageOk ns (listPage ns buf k) = true) ∧ ∀ i < n,
    pageOk ns (entry ns buf i) = true

theorem pageOk.aligned {page : ℕ} (h : pageOk ns page = true) : page % smallPageSize = 0 :=
  of_decide_eq_true (Bool.and_eq_true_iff.1 h).1

theorem extractPages_spec (ns : Normal) {n : ℕ} (hn : 0 < n) (hbuf : buf % smallPageSize = 0) :
    ∃ res log, msgParamExtractPages ns buf n ⟨[], []⟩ = (res, ⟨[], log⟩) ∧
      (∃ K ≤ (n - 1) / 511 + 1, log = (List.range K).map (listPage ns buf)) ∧
      (∀ pages, res = some pages → pages = (List.range n).map (entry ns buf)) ∧
        (ListOk ns buf n → res.isSome) ∧
      (res.isSome → ∀ k ≤ (n - 1) / 511, pageOk ns (listPage ns buf k) = true) := by
  rw [msgParamExtractPages, if_neg (not_not.2 hbuf), Mapped.alloc]
  by_cases hok : pageOk ns buf = true
  swap
  · rw [if_neg hok]
    exact ⟨none, [], rfl, ⟨0, Nat.zero_le _, rfl⟩, nofun,
      fun h => absurd (h.1 0 (Nat.zero_le _)) hok, nofun⟩
  rw [if_pos hok]
  obtain ⟨res, K, hloop, hK, hres⟩ := @extractLoop_spec ns buf n 0 0 0 [] rfl (by omega) hok
  refine ⟨res, _, hloop, ⟨K + 1, by omega, rfl⟩, ?_⟩
  rcases hres with ⟨hall, rfl⟩ | ⟨hnot, rfl⟩
  · refine ⟨fun pages hp => ?_, fun _ => rfl, fun _ k hk => ?_⟩
    · cases hp
      rw [List.nil_append, List.range_eq_range']
    · have := (hall (511 * k) (Nat.zero_le _) (by omega)).1 (by omega)
      rwa [show 511 * k / 511 = k by omega] at this
  · refine ⟨nofun, fun h => absurd (fun m _ hm => ⟨fun _ => h.1 _ (Nat.div_le_div_right (by omega)),
      ?_⟩) hnot, nofun⟩
    exact pageOk.aligned (h.2 m (by omega))

/-- The object has the pages listed, and a size and addresses that fit them. -/
structure Describes (ns : Normal) (buf offset n size : ℕ) (m : MobjRegShm) : Prop where
  pages : m.pages = (List.range n).map (entry ns buf)
  size_eq : m.size = smallPageSize * n - offset
  size_le : size ≤ m.size
  getPa : ∀ o < m.size, m.getPa o 0 =
    some (entry ns buf ((o + offset) / smallPageSize) + (o + offset) % smallPageSize)

theorem numPages_eq {s : ℕ} (h0 : 0 < s) (h1 : s < 2 ^ 64) :
    numPages s = (s + (smallPageSize - 1)) / smallPageSize := by
  unfold numPages smallPageSize
  omega

theorem regShmAlloc_spec (ns : Normal) (buf shmRef : ℕ) {offset n size : ℕ}
    (hoff : offset < smallPageSize) (hn : 0 < n) (hle : size + offset ≤ smallPageSize * n)
    (hfits : smallPageSize * n - offset < 2 ^ 64) :
    ((mobjRegShmAlloc ns ((List.range n).map (entry ns buf)) offset shmRef).isSome ↔
        ∀ i < n, pageOk ns (entry ns buf i) = true) ∧
      ∀ m ∈ mobjRegShmAlloc ns ((List.range n).map (entry ns buf)) offset shmRef,
        Describes ns buf offset n size m := by
  have hlen : ((List.range n).map (entry ns buf)).length = n := by simp
  have hall : ((List.range n).map (entry ns buf)).all (pageOk ns) = true
      ↔ ∀ i < n, pageOk ns (entry ns buf i) = true := by
    simp
  rw [mobjRegShmAlloc, hlen, if_neg (by omega)]
  by_cases hok : ∀ i < n, pageOk ns (entry ns buf i) = true
  swap
  · rw [if_neg (mt hall.1 hok)]
    exact ⟨iff_of_false nofun hok, nofun⟩
  rw [if_pos (hall.2 hok)]
  have hsize : (n * smallPageSize + 2 ^ 64 - offset) % 2 ^ 64 = smallPageSize * n - offset := by
    rw [Nat.mul_comm, show smallPageSize * n + 2 ^ 64 - offset
      = smallPageSize * n - offset + 2 ^ 64 by omega, Nat.add_mod_right, Nat.mod_eq_of_lt hfits]
  refine ⟨iff_of_true rfl hok, ?_⟩
  rintro m ⟨⟩
  refine ⟨rfl, hsize, by simp only [hsize]; omega, fun o ho => ?_⟩
  have hidx : (o + offset) / smallPageSize < n := by
    rw [Nat.div_lt_iff_lt_mul (by decide), Nat.mul_comm]
    simp only [hsize] at ho
    omega
  rw [MobjRegShm.getPa, if_neg (Nat.not_le.2 ho)]
  simp only [if_true, List.getD_eq_getElem?_getD, List.getElem?_map, List.getElem?_range hidx,
    Option.map_some, Option.getD_some]

/-- A size that overflows with the offset is refused before a list page is mapped. A buffer with at
least one byte whose object has a size that fits is read as the list of pages that it is. -/
theorem noncontig_list (bufPtr size shmRef : ℕ) :
    (2 ^ 64 ≤ size + bufPtr % smallPageSize →
      msgParamMobjFromNoncontig ns bufPtr size shmRef ⟨[], []⟩ = (none, ⟨[], []⟩)) ∧
    ∀ n, n = (size + bufPtr % smallPageSize + (smallPageSize - 1)) / smallPageSize →
      0 < size + bufPtr % smallPageSize → size + bufPtr % smallPageSize < 2 ^ 64 →
      smallPageSize * n - bufPtr % smallPageSize < 2 ^ 64 →
      ∃ res log, msgParamMobjFromNoncontig ns bufPtr size shmRef ⟨[], []⟩ = (res, ⟨[], log⟩) ∧
        (res.isSome ↔ ListOk ns (bufPtr - bufPtr % smallPageSize) n) ∧
        (∀ m ∈ res,
          Describes ns (bufPtr - bufPtr % smallPageSize) (bufPtr % smallPageSize) n size m) ∧
        ∃ K ≤ (n - 1) / 511 + 1,
          log = (List.range K).map (listPage ns (bufPtr - bufPtr % smallPageSize)) := by
  rw [msgParamMobjFromNoncontig]
  refine ⟨fun hover => if_pos hover, fun n hn h0 h1 h2 => ?_⟩
  have hoff : bufPtr % smallPageSize < smallPageSize := Nat.mod_lt _ (by decide)
  have hbuf : (bufPtr - bufPtr % smallPageSize) % smallPageSize = 0 := by
    rw [Nat.sub_mod_eq_zero_of_mod_eq (Nat.mod_mod _ _).symm]
  generalize bufPtr % smallPageSize = offset at *
  generalize bufPtr - offset = buf at *
  have hpos : 0 < n ∧ size + offset ≤ smallPageSize * n ∧ n * 8 < 2 ^ 64 := by
    subst hn
    unfold smallPageSize
    omega
  obtain ⟨res, log, hextract, hlog, hpages, hsome, hlists⟩ := extractPages_spec ns hpos.1 hbuf
  simp only [if_neg (Nat.not_le.2 h1), numPages_eq h0 h1, ← hn,
    if_neg (Nat.not_le.2 hpos.2.2), hextract]
  cases res with
  | none => exact ⟨none, log, rfl, iff_of_false nofun fun h => absurd (hsome h) nofun, nofun, hlog⟩
  | some pages =>
    obtain rfl := hpages pages rfl
    obtain ⟨hiff, hdesc⟩ := regShmAlloc_spec ns buf shmRef hoff hpos.1 hpos.2.1 h2
    exact ⟨_, log, rfl, hiff.trans ⟨fun h => ⟨hlists rfl, h⟩, fun h => h.2⟩, hdesc, hlog⟩

def zeros : Normal := ⟨fun _ => 0, fun _ => true⟩

theorem noncontig_list_zeros :
    msgParamMobjFromNoncontig zeros 1 (2 ^ 64 - 1) 7 ⟨[], []⟩ = (none, ⟨[], []⟩) ∧
    ∃ res log, msgParamMobjFromNoncontig zeros 1 5000 7 ⟨[], []⟩ = (res, ⟨[], log⟩) ∧
      (res.isSome ↔ ListOk zeros (1 - 1 % smallPageSize) 2) ∧
      (∀ m ∈ res, Describes zeros (1 - 1 % smallPageSize) (1 % smallPageSize) 2 5000 m) ∧
      ∃ K ≤ (2 - 1) / 511 + 1,
        log = (List.range K).map (listPage zeros (1 - 1 % smallPageSize)) :=
  ⟨(noncontig_list 1 (2 ^ 64 - 1) 7).1 (by decide),
    (noncontig_list 1 5000 7).2 2 (by decide) (by decide) (by decide) (by decide)⟩

/-- A size that does not fit with the offset is refused, and a buffer of no bytes would need a list
of `2 ^ 52` pages. -/
theorem noncontig_refused :
    (msgParamMobjFromNoncontig zeros 1 (2 ^ 64 - 1) 0 ⟨[], []⟩).1 = none ∧ ListOk zeros 0 (2 ^ 52) ∧
      numPages (0 + 0 % smallPageSize) = 2 ^ 52 := by
  have hlist : ∀ k, listPage zeros 0 k = 0 := fun k => by cases k <;> rfl
  refine ⟨by decide, ⟨fun k _ => ?_, fun i _ => rfl⟩, by decide⟩
  rw [hlist k]
  rfl

end Optee.MsgParam
