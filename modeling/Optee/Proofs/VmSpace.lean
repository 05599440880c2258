import Optee.Proofs.VmPlace

/-!
# Address spaces that are in order

The regions of a context are page aligned, lie in the user VA range and in their mobjs, and are
sorted and apart (`SpaceOk`). What a list of regions says about an address is the page there
(`pageAt`).
-/

namespace Optee.Vm

open Segments

variable {cfg : Config} {s s' : VmInfo} {reg r r' q : VmRegion} {l l' l₁ l₂ : List VmRegion}
  {padBegin padEnd align va len x : ℕ}

/-- What a page of an address space is. -/
structure Page where
  mobj : Mobj
  offset : ℕ
  flags : VmFlags
  attr : Attr

/-- What a region has at an address. -/
def VmRegion.page (r : VmRegion) (x : ℕ) : Page := ⟨r.mobj, r.offset + (x - r.va), r.flags, r.attr⟩

/-- Regions are in order and do not overlap. -/
def RegionsApart (l : List VmRegion) : Prop := Apart VmRegion.va VmRegion.endVa l

/-- A region is inside of the address space and of its memory object. -/
structure RegionOk (cfg : Config) (r : VmRegion) : Prop where
  va : PageAligned r.va
  pos : 0 < r.va
  size : PageAligned r.size
  base_le : cfg.base ≤ r.va
  end_le : r.endVa ≤ cfg.base + cfg.size
  offset_lt : r.offset + r.size < 2 ^ cfg.bits
  inside : r.offset + r.size ≤ wrapRoundup cfg.bits smallPageSize r.mobj.size

/-- The regions are in order, and each is inside of its memory object. -/
structure SpaceOk (cfg : Config) (l : List VmRegion) : Prop where
  ok : ∀ r ∈ l, RegionOk cfg r
  apart : RegionsApart l

theorem SpaceOk.nil : SpaceOk cfg [] := ⟨by simp, List.Pairwise.nil⟩

theorem SpaceOk.sublist (h : SpaceOk cfg l) (hs : l'.Sublist l) : SpaceOk cfg l' :=
  ⟨fun r hr => h.ok r (hs.subset hr), h.apart.sublist hs⟩

theorem RegionOk.inside_mobj (h : RegionOk cfg r) :
    r.offset + r.size ≤ roundup smallPageSize r.mobj.size := by
  refine h.inside.trans ?_
  unfold wrapRoundup roundup
  exact Nat.mul_le_mul_right _ (Nat.div_le_div_right (Nat.mod_le ..))

theorem VmRegion.va_le_endVa (r : VmRegion) : r.va ≤ r.endVa := Nat.le_add_right ..

/-! ### Placing a region -/

theorem getLastD_concat (l : List VmRegion) (p d : VmRegion) : (l ++ [p]).getLastD d = p := by
  simp [List.getLastD_eq_getLast?]

theorem endVa_le_getLastD (ha : RegionsApart l) (hq : q ∈ l) (d : VmRegion) :
    q.endVa ≤ (l.getLastD d).endVa := by
  rcases List.eq_nil_or_concat l with rfl | ⟨l', p, rfl⟩
  · cases hq
  rw [List.concat_eq_append] at ha hq ⊢
  rw [getLastD_concat]
  rcases List.mem_append.1 hq with hq | hq
  · have := (List.pairwise_append.1 ha).2.2 q hq p List.mem_cons_self
    exact this.trans p.va_le_endVa
  · rw [List.mem_singleton.1 hq]

theorem headD_va_le (ha : RegionsApart l) (hq : q ∈ l) (d : VmRegion) : (l.headD d).va ≤ q.va := by
  cases l with
  | nil => cases hq
  | cons p l =>
    rcases List.mem_cons.1 hq with rfl | hq
    · exact le_rfl
    · exact p.va_le_endVa.trans ((List.pairwise_cons.1 ha).1 q hq)

theorem SpaceOk.base_le_getLastD (h : SpaceOk cfg l) :
    cfg.base ≤ (l.getLastD cfg.dummyFirst).endVa := by
  rcases List.eq_nil_or_concat l with rfl | ⟨l', p, rfl⟩
  · exact le_rfl
  · rw [List.concat_eq_append, getLastD_concat]
    exact (h.ok p (by simp)).base_le.trans p.va_le_endVa

theorem SpaceOk.headD_va_le_range (h : SpaceOk cfg l) :
    (l.headD cfg.dummyLast).va ≤ cfg.base + cfg.size := by
  cases l with
  | nil => exact le_rfl
  | cons p l => exact p.va_le_endVa.trans (h.ok p List.mem_cons_self).end_le

section Placed

variable (h : SpaceOk cfg (l₁ ++ l₂)) (hp : Placed cfg reg padBegin align r l₁ l₂)
include h hp

theorem Placed.above (hq : q ∈ l₁) : q.endVa + pad (l₁.getLastD cfg.dummyFirst) r ≤ r.va := by
  have h₁ := endVa_le_getLastD (h.sublist (List.sublist_append_left l₁ l₂)).apart hq cfg.dummyFirst
  have h₂ := hp.between.low
  omega

theorem Placed.below (hq : q ∈ l₂) : r.endVa + pad (l₂.headD cfg.dummyLast) r ≤ q.va := by
  have h₁ := headD_va_le (h.sublist (List.sublist_append_right l₁ l₂)).apart hq cfg.dummyLast
  have h₂ := hp.between.high
  omega

theorem Placed.regionOk : RegionOk cfg r where
  va := hp.va
  pos := hp.pos
  size := hp.size
  base_le := by
    have h₁ := (h.sublist (List.sublist_append_left l₁ l₂)).base_le_getLastD
    have h₂ := hp.between.low
    omega
  end_le := by
    have h₁ := (h.sublist (List.sublist_append_right l₁ l₂)).headD_va_le_range
    have h₂ := hp.between.high
    omega
  offset_lt := hp.offset_lt
  inside := hp.inside

theorem Placed.spaceOk : SpaceOk cfg (l₁ ++ r :: l₂) where
  ok q hq := by
    rcases List.mem_append.1 hq with hq | hq
    · exact h.ok q (List.mem_append_left _ hq)
    rcases List.mem_cons.1 hq with rfl | hq
    · exact hp.regionOk h
    · exact h.ok q (List.mem_append_right _ hq)
  apart := h.apart.insert (fun _ hq => (Nat.le_add_right ..).trans (hp.above h hq))
    (fun _ hq => (Nat.le_add_right ..).trans (hp.below h hq))

end Placed

end Optee.Vm
