import Mathlib.Data.List.Perm.Basic
import Optee.LateMap
import Optee.Result

/-!
# Mappings after boot

`core_mmu_add_mapping` checks with the length of the request that it stays in the table, where it
maps whole granules, and `core_mmu_remove_mapping` clears entries of the table that the reserved
space begins in at the time. Where all these are in one table (`fits`), entries do not overlap and
are translated as they say (`Sound`, `call_sound`).
-/

namespace Optee.LateMap

open MemMap PageTables

variable {cfg : Config} {st st' boot : State} {t : TableInfo} {tables tables' : Tables MapAttr}
  {a b e f res map : TeeMmapRegion} {maps rest : List TeeMmapRegion} {type : MemType}
  {attr : MapAttr} {desc : ℕ → Desc MapAttr} {pa va len addr x y i j : ℕ} {masked : Bool}

/-- A virtual address of an entry. -/
def Has (e : TeeMmapRegion) (x : ℕ) : Prop := e.va ≤ x ∧ x < e.va + e.size

/-- Two entries share no virtual address. -/
def Apart (e f : TeeMmapRegion) : Prop := ∀ x, Has e x → ¬ Has f x

theorem Apart.symm (h : Apart e f) : Apart f e := fun x hf he => h x he hf

/-- The tables translate the addresses of an entry to its memory, if its type can be mapped. -/
def Installed (cfg : Config) (tables : Tables MapAttr) (e : TeeMmapRegion) : Prop :=
  (coreMmuTypeToAttr cfg.extDtSecure e.type).any MapAttr.valid = true →
    ∀ x, Has e x → cfg.levels.translate tables x = some (e.pa + (x - e.va))

/-- Entries share no virtual address, and none wraps around. -/
structure Layout (cfg : Config) (maps : List TeeMmapRegion) : Prop where
  apart : maps.Pairwise Apart
  bound : ∀ e ∈ maps, e.va + e.size < 2 ^ cfg.bits

/-- The map is in order, and what came after boot is in the tables. -/
structure Sound (cfg : Config) (boot st : State) : Prop where
  layout : Layout cfg st.maps
  installed : ∀ e ∈ st.maps, e ∈ boot.maps ∨ Installed cfg st.tables e

/-! ### The memory map -/

theorem Layout.perm (h : Layout cfg maps) (hp : maps.Perm rest) : Layout cfg rest :=
  ⟨(hp.pairwise_iff Apart.symm).1 h.apart, fun e he => h.bound e (hp.mem_iff.2 he)⟩

theorem Sound.of_perm {l : List TeeMmapRegion} (hlay : Layout cfg l) (hp : l.Perm maps)
    (hinst : ∀ e ∈ l, e ∈ boot.maps ∨ Installed cfg tables e) : Sound cfg boot ⟨maps, tables⟩ :=
  ⟨hlay.perm hp, fun e he => hinst e (hp.mem_iff.2 he)⟩

theorem Layout.merge (h : Layout cfg (e :: res :: rest)) (hsub : ∀ x, Has a x → Has e x ∨ Has res x)
    (hb : a.va + a.size < 2 ^ cfg.bits) : Layout cfg (a :: rest) := by
  obtain ⟨hapart, hbound⟩ := h
  rw [List.pairwise_cons, List.pairwise_cons] at hapart
  obtain ⟨he, hres, hrest⟩ := hapart
  refine ⟨List.pairwise_cons.2 ⟨fun f hf x hx => ?_, hrest⟩, fun f hf => ?_⟩
  · rcases hsub x hx with hx | hx
    · exact he f (List.mem_cons_of_mem _ hf) x hx
    · exact hres f hf x hx
  · rcases List.mem_cons.1 hf with rfl | hf
    · exact hb
    · exact hbound f (List.mem_cons_of_mem _ (List.mem_cons_of_mem _ hf))

theorem Layout.shrink (h : Layout cfg (res :: rest)) (hsub : ∀ x, Has a x → Has res x)
    (hb : a.va + a.size < 2 ^ cfg.bits) : Layout cfg (a :: rest) := by
  obtain ⟨hapart, hbound⟩ := h
  rw [List.pairwise_cons] at hapart
  refine ⟨List.pairwise_cons.2 ⟨fun f hf x hx => hapart.1 f hf x (hsub x hx), hapart.2⟩,
    fun f hf => ?_⟩
  rcases List.mem_cons.1 hf with rfl | hf
  · exact hb
  · exact hbound f (List.mem_cons_of_mem _ hf)

theorem Layout.carve (h : Layout cfg (res :: rest)) (ha : ∀ x, Has a x → Has res x)
    (hb : ∀ x, Has b x → Has res x) (hab : Apart a b) (ha' : a.va + a.size < 2 ^ cfg.bits)
    (hb' : b.va + b.size < 2 ^ cfg.bits) :
    Layout cfg (a :: b :: rest) := by
  have hrest := h.shrink hb hb'
  have hapart := (h.shrink ha ha').apart
  rw [List.pairwise_cons] at hapart
  refine ⟨List.pairwise_cons.2 ⟨fun f hf => ?_, hrest.apart⟩, fun f hf => ?_⟩
  · rcases List.mem_cons.1 hf with rfl | hf
    · exact hab
    · exact hapart.1 f hf
  · rcases List.mem_cons.1 hf with rfl | hf
    · exact ha'
    · exact hrest.bound f hf

theorem perm_eraseIdx {α : Type} {l : List α} {c : α}
    (h : l[i]? = some c) : l.Perm (c :: l.eraseIdx i) := by
  obtain ⟨hi, rfl⟩ := List.getElem?_eq_some_iff.1 h
  exact (List.getElem_cons_eraseIdx_perm hi).symm

theorem perm_set {α : Type} {l : List α} {c : α} (h : l[i]? = some c) (d : α) :
    (l.set i d).Perm (d :: l.eraseIdx i) :=
  List.set_perm_cons_eraseIdx (List.getElem?_eq_some_iff.1 h).1 d

theorem perm_set_eraseIdx {α : Type} {c d : α} (d' : α) :
    ∀ {l : List α} {i j : ℕ}, l[i]? = some d → l[j]? = some c →
    i ≠ j → ∃ rest, l.Perm (c :: d :: rest) ∧ ((l.set i d').eraseIdx j).Perm (d' :: rest)
  | [], _, _, h, _, _ => by cases h
  | k :: l, 0, 0, _, _, hne => absurd rfl hne
  | k :: l, 0, j + 1, hi, hj, _ => by
    obtain rfl := Option.some.inj hi
    exact ⟨l.eraseIdx j, ((perm_eraseIdx (l := l) hj).cons k).trans (.swap c k _), .refl _⟩
  | k :: l, i + 1, 0, hi, hj, _ => by
    obtain rfl := Option.some.inj hj
    exact ⟨l.eraseIdx i, (perm_eraseIdx (l := l) hi).cons k, perm_set (l := l) hi d'⟩
  | k :: l, i + 1, j + 1, hi, hj, hne => by
    obtain ⟨rest, h, h'⟩ := perm_set_eraseIdx d' (l := l) hi hj fun h => hne (congrArg _ h)
    refine ⟨k :: rest, (h.cons k).trans ?_, (h'.cons k).trans (.swap d' k rest)⟩
    exact (List.Perm.swap c k (d :: rest)).trans ((List.Perm.swap d k rest).cons c)

theorem findMapByType_spec (h : findMapByType maps type = some (e, i)) :
    maps[i]? = some e ∧ e.type = type := by
  have hp := List.find?_some h
  exact ⟨List.mem_zipIdx_iff_getElem?.1 (List.mem_of_find?_eq_some h), of_decide_eq_true hp⟩

theorem findMapByTypeAndPa_spec (h : findMapByTypeAndPa cfg maps type pa len = some (e, i)) :
    maps[i]? = some e ∧ e.type = type ∧ paIsInMap cfg e pa len = true := by
  have hp := List.find?_some h
  rw [Bool.and_eq_true, decide_eq_true_eq] at hp
  exact ⟨List.mem_zipIdx_iff_getElem?.1 (List.mem_of_find?_eq_some h), hp⟩

theorem alreadyMapped_spec (h : alreadyMapped cfg maps type addr len = some e) :
    e ∈ maps ∧ e.type = type ∧ e.pa ≤ addr ∧ addr + len ≤ e.pa + e.size := by
  rw [alreadyMapped, Option.filter_eq_some_iff, Option.map_eq_some_iff] at h
  obtain ⟨⟨⟨e', i⟩, hfind, rfl⟩, hin⟩ := h
  obtain ⟨hget, htype, hpa⟩ := findMapByTypeAndPa_spec hfind
  refine ⟨List.mem_of_getElem? hget, htype, ?_⟩
  change e'.pa ≤ addr ∧ addr + len ≤ e'.pa + e'.size
  have hsize : e'.size ≠ 0 := by
    intro hzero
    rw [pbufInsideMapArea, Buffer.coreIsBufferInside, Buffer.isValidConfAndNotnullSize] at hin
    simp [hzero] at hin
  rw [paIsInMap] at hpa
  split at hpa
  · cases hpa
  · have hle : Buffer.lastAddr cfg.paddrBits e'.pa e'.size ≤ e'.pa + e'.size - 1 := by
      have hpos := Nat.two_pow_pos cfg.paddrBits
      have heq : e'.pa + e'.size + (2 ^ cfg.paddrBits - 1)
        = e'.pa + e'.size - 1 + 2 ^ cfg.paddrBits := by omega
      rw [Buffer.lastAddr, heq, Nat.add_mod_right]
      exact Nat.mod_le _ _
    have := of_decide_eq_true hpa
    omega

/-! ### Translation tables -/

theorem coreMmuFindTable_spec (h : coreMmuFindTable cfg masked tables va = some t) :
    cfg.levels.find tables va = some t :=
  (Option.filter_eq_some_iff.1 h).1

theorem coreMmuVa2idx_eq (hfind : cfg.levels.find tables x = some t) (hlo : t.vaBase ≤ va)
    (hhi : va ≤ t.vaEnd) (hb : va < 2 ^ cfg.bits) :
    coreMmuVa2idx cfg t va = (va - t.vaBase) / 2 ^ t.shift := by
  have hnum : t.numEntries < 2 ^ 32 := Levels.find_numEntries cfg.entries_lt
    (fun s hs => Nat.pow_lt_pow_right (by decide) (cfg.finer_lt s hs)) hfind
  have hmod : (va + (2 ^ cfg.bits - t.vaBase)) % 2 ^ cfg.bits = va - t.vaBase := by
    have heq : va + (2 ^ cfg.bits - t.vaBase) = va - t.vaBase + 2 ^ cfg.bits := by omega
    rw [heq, Nat.add_mod_right, Nat.mod_eq_of_lt (by omega)]
  have hidx : (va - t.vaBase) / 2 ^ t.shift ≤ t.numEntries := by
    rw [TableInfo.vaEnd] at hhi
    refine Nat.div_le_of_le_mul ?_
    rw [Nat.mul_comm]
    omega
  rw [coreMmuVa2idx, hmod, Nat.mod_eq_of_lt (by omega)]

theorem fillRegion_inside (e : TeeMmapRegion) (desc : ℕ → Desc MapAttr)
    (hfind : cfg.levels.find tables x = some t) (hdesc : ∀ k, desc k ≠ .table)
    (hva : 2 ^ t.shift ∣ e.va) (hsize : 2 ^ t.shift ∣ e.size) (hpa : 2 ^ t.shift ∣ e.pa)
    (hlo : t.vaBase ≤ e.va) (hhi : e.va + e.size ≤ t.vaEnd) (hb : e.va + e.size < 2 ^ cfg.bits) :
    ∃ tables', fillRegion cfg t e desc tables = .ok tables' ∧
      (∀ y, Has e y → cfg.levels.translate tables' y
        = (desc ((y - e.va) / 2 ^ t.shift)).at t.shift y) ∧
      ∀ y, ¬ Has e y → cfg.levels.translate tables' y = cfg.levels.translate tables y := by
  have hcount : (e.va + e.size - t.vaBase) / 2 ^ t.shift - (e.va - t.vaBase) / 2 ^ t.shift
      = e.size / 2 ^ t.shift := by
    have hpos := Nat.two_pow_pos t.shift
    have heq : e.va + e.size - t.vaBase = e.va - t.vaBase + e.size := by omega
    obtain ⟨z, hz⟩ := hsize
    rw [heq, hz, Nat.add_mul_div_left _ _ hpos, Nat.mul_div_cancel_left _ hpos,
      Nat.add_sub_cancel_left]
  have hfill := Levels.fill_range hfind hva hsize hlo hhi desc
  refine ⟨_, ?_, fun y hy => Levels.translate_fill hfind hva hsize hlo hhi hdesc hfill hy.1 hy.2,
    fun y hy => Levels.translate_fill_outside hfind hva hsize hlo hhi hfill hy⟩
  rw [fillRegion, if_neg (by simp [Nat.mod_eq_zero_of_dvd, hva, hsize, hpa]), Nat.mod_eq_of_lt hb,
    coreMmuVa2idx_eq hfind hlo (by omega) (by omega), coreMmuVa2idx_eq hfind (by omega) hhi hb]
  simp only [hcount, hfill]

theorem Installed.of_same (h : Installed cfg tables e)
    (hsame : ∀ y, Has e y → cfg.levels.translate tables' y = cfg.levels.translate tables y) :
    Installed cfg tables' e := fun hattr y hy => (hsame y hy).trans (h hattr y hy)

/-! ### Adding a mapping -/

/-- What is asked of the reserved space and its table, where both are found. -/
def onReserved (cfg : Config) (st : State) (masked : Bool)
    (p : TeeMmapRegion → TableInfo → Bool) : Bool :=
  (findMapByType st.maps .resVaspace).all fun res =>
    (coreMmuFindTable cfg masked st.tables res.1.va).all (p res.1)

/-- The granules of a new mapping are refused, or lie inside of the table. -/
def granulesFit (cfg : Config) (addr len : ℕ) (res : TeeMmapRegion) (t : TableInfo) : Bool :=
  decide (res.size < granulesSize t addr len % 2 ^ cfg.bits) ||
  decide (t.numEntries ≤ coreMmuVa2idx cfg t ((res.va + len) % 2 ^ cfg.bits)) ||
  decide (res.va % 2 ^ t.shift = 0 ∧ granulesSize t addr len < 2 ^ cfg.bits ∧
    res.va + granulesSize t addr len ≤ t.vaEnd)

/-- An entry to be removed is no full match, or lies inside of the table. -/
def entryFits (cfg : Config) (pa len : ℕ) (e : TeeMmapRegion) (t : TableInfo) : Bool :=
  decide (e.pa ≠ granuleStart t pa ∨ e.size ≠ granulesSize t pa len % 2 ^ cfg.bits) ||
  decide (e.va % 2 ^ t.shift = 0 ∧ t.vaBase ≤ e.va ∧ e.va + e.size ≤ t.vaEnd)

/-- What a call needs of the translation table that the reserved address space begins in. -/
def fits (cfg : Config) (st : State) : Op → Bool
  | .add masked type addr len =>
    (alreadyMapped cfg st.maps type addr len).isSome
      || onReserved cfg st masked (granulesFit cfg addr len)
  | .remove masked type va len =>
    (findMapByTypeAndPa cfg st.maps type (virtToPhys cfg st va) len).all fun e =>
      onReserved cfg st masked fun _ => entryFits cfg (virtToPhys cfg st va) len e.1

/-- An entry of the type maps the virtual address to the physical one, for the whole length. -/
def MapsTo (maps : List TeeMmapRegion) (type : MemType) (addr len v : ℕ) : Prop :=
  ∃ e ∈ maps, e.type = type ∧ e.va ≤ v ∧ v + len ≤ e.va + e.size ∧ e.pa ≤ addr
    ∧ e.pa + (v - e.va) = addr

/-- An entry is gone from the map and its addresses from the tables; only the reserved entry
differs. -/
def Unmaps (cfg : Config) (st st' : State) (e : TeeMmapRegion) : Prop :=
  (∃ i res, (st.maps.set i res).Perm (e :: st'.maps)) ∧ ∀ x, Has e x →
    cfg.levels.translate st'.tables x = none

/-- An address that is returned maps what was asked for, and a removal removes one such entry. -/
def Answers (cfg : Config) (st st' : State) : Op → Answer → Prop
  | .add _ type addr len, .address (some v) => MapsTo st'.maps type addr len v
  | .remove _ type va len, .removed true => ∃ e ∈ st.maps, e.type = type ∧
      paIsInMap cfg e (virtToPhys cfg st va) len = true ∧ Unmaps cfg st st' e
  | _, _ => True

theorem dvd_granulesSize : 2 ^ t.shift ∣ granulesSize t addr len := dvd_roundup

theorem dvd_granuleStart : 2 ^ t.shift ∣ granuleStart t addr := Nat.dvd_mul_left _ _

theorem granuleStart_le : granuleStart t addr ≤ addr := Nat.div_mul_le_self addr _

theorem le_granulesSize : addr + len ≤ granuleStart t addr + granulesSize t addr len := by
  have hle : granuleStart t addr ≤ addr := granuleStart_le
  have hup : len + addr - granuleStart t addr ≤ granulesSize t addr len :=
    le_roundup (Nat.two_pow_pos _)
  omega

theorem descOf_at (hvalid : attr.valid = true) (hva : 2 ^ t.shift ∣ va) (hx : va ≤ x) :
    (descOf (pa + (x - va) / 2 ^ t.shift * 2 ^ t.shift) attr).at t.shift x
      = some (pa + (x - va)) := by
  have hmod : x % 2 ^ t.shift = (x - va) % 2 ^ t.shift := by
    obtain ⟨k, rfl⟩ := hva
    rw [Nat.sub_mul_mod hx]
  have hdiv := Nat.div_add_mod' (x - va) (2 ^ t.shift)
  rw [descOf, if_pos hvalid, Desc.at, hmod, Nat.add_assoc, hdiv]

theorem descOf_ne_table : descOf pa attr ≠ .table := by
  rw [descOf]
  split <;> exact nofun

theorem installed_of_resVaspace (h : e.type = .resVaspace) : Installed cfg tables e := by
  intro hattr
  rw [h] at hattr
  cases hattr

theorem mapReserved_sound (hs : Sound cfg boot st) (hget : st.maps[i]? = some res)
    (hres : res.type = .resVaspace) (hfind : cfg.levels.find st.tables res.va = some t)
    (hfit : granulesFit cfg addr len res t = true) :
    EndsIn (fun r => Sound cfg boot r.1 ∧ ∀ v, r.2 = some v → MapsTo r.1.maps type addr len v)
      (fun e => e = .invalidType) (mapReserved cfg st type addr len res i t) := by
  rw [mapReserved]
  dsimp only
  split
  · exact ⟨hs, nofun⟩
  split
  · exact ⟨hs, nofun⟩
  next hsize hidx =>
  rw [granulesFit, decide_eq_false hsize, decide_eq_false hidx, Bool.false_or, Bool.false_or,
    decide_eq_true_eq] at hfit
  obtain ⟨halign, htrunc, hend⟩ := hfit
  rw [Nat.mod_eq_of_lt htrunc] at hsize ⊢
  have hperm := perm_eraseIdx hget
  have hlay := hs.layout.perm hperm
  have hbound := hlay.bound res List.mem_cons_self
  have hgran : addr + len ≤ granuleStart t addr + granulesSize t addr len := le_granulesSize
  have hstart : granuleStart t addr ≤ addr := granuleStart_le
  cases hattr : coreMmuTypeToAttr cfg.extDtSecure type with
  | none => exact rfl
  | some attr =>
    have hva : 2 ^ t.shift ∣ res.va := Nat.dvd_of_mod_eq_zero halign
    generalize hnew :
      (⟨type, 2 ^ t.shift, granuleStart t addr, res.va, granulesSize t addr len⟩ : TeeMmapRegion)
      = new
    have htype : new.type = type := by rw [← hnew]
    have hnpa : new.pa = granuleStart t addr := by rw [← hnew]
    have hnva : new.va = res.va := by rw [← hnew]
    have hnsize : new.size = granulesSize t addr len := by rw [← hnew]
    have hsub : ∀ x, Has new x → Has res x := by
      intro x hx
      rw [Has] at hx ⊢
      omega
    obtain ⟨tables', hset, hin, hout⟩ := fillRegion_inside new
      (fun k => descOf (new.pa + k * 2 ^ t.shift) attr) hfind (fun _ => descOf_ne_table)
      (hnva ▸ hva) (hnsize ▸ dvd_granulesSize) (hnpa ▸ dvd_granuleStart)
      (hnva ▸ (Levels.find_inside hfind).1.base_le) (by omega) (by omega)
    have hinst : Installed cfg tables' new := by
      intro hvalid x hx
      rw [htype, hattr, Option.any_some] at hvalid
      rw [hin x hx, descOf_at hvalid (hnva ▸ hva) hx.1]
    -- the entries that are left do not have addresses of the new one
    have hrest : ∀ f ∈ st.maps.eraseIdx i, f ∈ boot.maps ∨ Installed cfg tables' f := by
      intro f hf
      refine (hs.installed f (hperm.mem_iff.2 (List.mem_cons_of_mem _ hf))).imp_right fun h =>
        h.of_same fun y hy => ?_
      exact hout y fun hnew => (List.pairwise_cons.1 hlay.apart).1 f hf y (hsub y hnew) hy
    have hmaps : ∀ maps, new ∈ maps →
        MapsTo maps type addr len ((res.va + addr - granuleStart t addr) % 2 ^ cfg.bits) := by
      intro maps hmem
      rw [Nat.mod_eq_of_lt (by omega)]
      exact ⟨new, hmem, htype, by omega, by omega, by omega, by omega⟩
    dsimp only
    rw [setRegion, hset]
    dsimp only
    split
    next =>
      generalize hleft :
        ({ res with va := (res.va + granulesSize t addr len) % 2 ^ cfg.bits, size := _ } :
        TeeMmapRegion) = left
      have hleft' : left.type = .resVaspace ∧ left.va = res.va + granulesSize t addr len ∧
          left.size = res.size - granulesSize t addr len := by
        rw [← hleft]
        exact ⟨hres, Nat.mod_eq_of_lt (by omega), rfl⟩
      have hlay' : Layout cfg (left :: new :: st.maps.eraseIdx i) := by
        refine hlay.carve (fun x hx => ?_) hsub (fun x hx hx' => ?_) (by omega) (by omega)
        · rw [Has] at hx ⊢
          omega
        · rw [Has] at hx hx'
          omega
      have hp : (left :: new :: st.maps.eraseIdx i).Perm (st.maps.set i left ++ [new]) :=
        (List.Perm.swap _ _ _).trans
          (((perm_set hget left).symm.cons new).trans (List.perm_append_singleton _ _).symm)
      refine ⟨.of_perm hlay' hp fun f hf => ?_, fun v hv => Option.some.inj hv ▸ hmaps _ (by simp)⟩
      rcases List.mem_cons.1 hf with rfl | hf
      · exact .inr (installed_of_resVaspace hleft'.1)
      rcases List.mem_cons.1 hf with rfl | hf
      · exact .inr hinst
      · exact hrest f hf
    next =>
      have hp : (new :: st.maps.eraseIdx i).Perm (st.maps.set i new) := (perm_set hget new).symm
      refine ⟨.of_perm (hlay.shrink hsub (by omega)) hp fun f hf => ?_,
        fun v hv => Option.some.inj hv ▸ hmaps _ (hp.mem_iff.1 List.mem_cons_self)⟩
      rcases List.mem_cons.1 hf with rfl | hf
      · exact .inr hinst
      · exact hrest f hf

/-! ### Removing a mapping -/

theorem giveBack_has (he : e.va + e.size < 2 ^ cfg.bits) (hres : res.va + res.size < 2 ^ cfg.bits) :
    (∀ x, Has (giveBack cfg res e) x → Has e x ∨ Has res x) ∧
      (giveBack cfg res e).va + (giveBack cfg res e).size < 2 ^ cfg.bits ∧ (giveBack cfg res e).type
        = res.type := by
  rw [giveBack]
  split
  next hadj =>
    have hva : res.va = e.va + e.size := by
      rcases Nat.lt_or_ge res.va e.size with hlt | hge
      · rw [Nat.mod_eq_of_lt (by omega)] at hadj
        omega
      · have heq : res.va + (2 ^ cfg.bits - e.size) = res.va - e.size + 2 ^ cfg.bits := by omega
        rw [heq, Nat.add_mod_right, Nat.mod_eq_of_lt (by omega)] at hadj
        omega
    have hsize : (res.size + e.size) % 2 ^ cfg.bits = res.size + e.size :=
      Nat.mod_eq_of_lt (by omega)
    refine ⟨fun x hx => ?_, ?_, rfl⟩
    · simp only [Has, hsize] at hx ⊢
      omega
    · simp only [hsize]
      omega
  next => exact ⟨fun _ => .inr, hres, rfl⟩

theorem giveBack_self (he : e.va + e.size < 2 ^ cfg.bits) : giveBack cfg e e = e := by
  rw [giveBack]
  split
  next hadj =>
    have hzero : e.size = 0 := by
      rcases Nat.lt_or_ge e.va e.size with hlt | hge
      · rw [Nat.mod_eq_of_lt (by omega)] at hadj
        omega
      · have heq : e.va + (2 ^ cfg.bits - e.size) = e.va - e.size + 2 ^ cfg.bits := by omega
        rw [heq, Nat.add_mod_right, Nat.mod_eq_of_lt (by omega)] at hadj
        omega
    obtain ⟨type, regionSize, pa, va, size⟩ := e
    obtain rfl : size = 0 := hzero
    simp
  next => rfl

theorem Layout.unmap (h : Layout cfg maps) (hget : maps[j]? = some e) (hget' : maps[i]? = some res)
    (hres : res.type = .resVaspace) : (maps.set i (giveBack cfg res e))[j]? = some e ∧
      ∃ l, l.Perm ((maps.set i (giveBack cfg res e)).eraseIdx j) ∧ Layout cfg l ∧
        ∀ f ∈ l, f.type = .resVaspace ∨ f ∈ maps ∧ Apart e f := by
  have hbe := h.bound e (List.mem_of_getElem? hget)
  have hbres := h.bound res (List.mem_of_getElem? hget')
  by_cases hij : i = j
  · subst hij
    obtain rfl : e = res := Option.some.inj (hget.symm.trans hget')
    rw [giveBack_self hbe]
    have hset : maps.set i e = maps := by
      obtain ⟨hi, rfl⟩ := List.getElem?_eq_some_iff.1 hget
      exact List.set_getElem_self hi
    have hlay := h.perm (perm_eraseIdx hget)
    rw [hset]
    refine ⟨hget, maps.eraseIdx i, .refl _,
      ⟨hlay.apart.of_cons, fun f hf => hlay.bound f (List.mem_cons_of_mem _ hf)⟩, fun f hf =>
      .inr ⟨List.mem_of_mem_eraseIdx hf, (List.pairwise_cons.1 hlay.apart).1 f hf⟩⟩
  · obtain ⟨hsub, hb, htype⟩ := giveBack_has hbe hbres
    obtain ⟨rest, hp, hp'⟩ := perm_set_eraseIdx (giveBack cfg res e) hget' hget hij
    have hlay := h.perm hp
    refine ⟨by rw [List.getElem?_set_ne hij, hget], _, hp'.symm, hlay.merge hsub hb, fun f hf => ?_⟩
    rcases List.mem_cons.1 hf with rfl | hf
    · exact .inl (htype.trans hres)
    · have hf' : f ∈ res :: rest := List.mem_cons_of_mem _ hf
      exact .inr ⟨hp.mem_iff.2 (List.mem_cons_of_mem _ hf'),
        (List.pairwise_cons.1 hlay.apart).1 f hf'⟩

theorem unmapEntry_sound (hs : Sound cfg boot st) (hget : st.maps[j]? = some e)
    (hget' : st.maps[i]? = some res) (hres : res.type = .resVaspace)
    (hfind : cfg.levels.find st.tables res.va = some t) (hfit : entryFits cfg pa len e t = true) :
    EndsIn (fun r => Sound cfg boot r.1 ∧ (r.2 = true → Unmaps cfg st r.1 e))
      (fun e => e = .invalidType)
      (unmapEntry cfg st pa len e j res i t) := by
  rw [unmapEntry]
  split
  · exact ⟨hs, nofun⟩
  next hmatch =>
  rw [entryFits, decide_eq_false hmatch, Bool.false_or, decide_eq_true_eq] at hfit
  obtain ⟨halign, hlo, hhi⟩ := hfit
  have hmatch : e.pa = granuleStart t pa ∧ e.size = granulesSize t pa len % 2 ^ cfg.bits := by tauto
  have hshift : t.shift ≤ cfg.bits := (Levels.find_inside hfind).2.shift_le.trans cfg.shift_le
  have hsize : 2 ^ t.shift ∣ e.size := by
    rw [hmatch.2]
    exact (Nat.dvd_mod_iff (Nat.pow_dvd_pow 2 hshift)).2 dvd_granulesSize
  obtain ⟨tables', hclear, hin, hout⟩ := fillRegion_inside e (fun _ => Desc.invalid) hfind nofun
    (Nat.dvd_of_mod_eq_zero halign) hsize (hmatch.1 ▸ dvd_granuleStart) hlo hhi
    (hs.layout.bound e (List.mem_of_getElem? hget))
  obtain ⟨hj, l, hp, hlay, hl⟩ := hs.layout.unmap hget hget' hres
  rw [clearRegion, hclear]
  refine ⟨.of_perm hlay hp fun f hf => ?_,
    fun _ => ⟨⟨i, _, perm_eraseIdx hj⟩, fun x hx => hin x hx⟩⟩
  rcases hl f hf with hf | ⟨hf, hapart⟩
  · exact .inr (installed_of_resVaspace hf)
  · exact (hs.installed f hf).imp_right fun h => h.of_same fun y hy => hout y (hapart.symm y hy)

/-! ### Calls -/

theorem onReserved_spec {p : TeeMmapRegion → TableInfo → Bool}
    (h : onReserved cfg st masked p = true)
    (hres : findMapByType st.maps .resVaspace = some (res, i))
    (hfind : coreMmuFindTable cfg masked st.tables res.va = some t) : p res t = true := by
  rw [onReserved, hres, Option.all_some, hfind, Option.all_some] at h
  exact h

section

variable (hs : Sound cfg boot st)
include hs

theorem coreMmuAddMapping_sound
    (hfit : (alreadyMapped cfg st.maps type addr len).isSome = true ∨
      onReserved cfg st masked (granulesFit cfg addr len) = true) :
    EndsIn (fun r => Sound cfg boot r.1 ∧ ∀ v, r.2 = some v → MapsTo r.1.maps type addr len v)
      (fun e => e = .invalidType) (coreMmuAddMapping cfg masked st type addr len) := by
  rw [coreMmuAddMapping]
  split
  · exact ⟨hs, nofun⟩
  split
  · exact ⟨hs, nofun⟩
  split
  next e he =>
    obtain ⟨hmem, htype, hpa, hend⟩ := alreadyMapped_spec he
    have hbound := hs.layout.bound e hmem
    refine ⟨hs, fun v hv => ?_⟩
    rw [Nat.mod_eq_of_lt (by omega)] at hv
    obtain rfl := Option.some.inj hv
    exact ⟨e, hmem, htype, by omega, by omega, hpa, by omega⟩
  next hnone =>
    rw [hnone] at hfit
    have hfit := hfit.resolve_left nofun
    split
    · exact ⟨hs, nofun⟩
    next res i hres =>
    split
    · exact ⟨hs, nofun⟩
    next t hfind =>
    obtain ⟨hget, htype⟩ := findMapByType_spec hres
    exact mapReserved_sound hs hget htype (coreMmuFindTable_spec hfind)
      (onReserved_spec hfit hres hfind)

theorem coreMmuRemoveMapping_sound (hfit : fits cfg st (.remove masked type va len) = true) :
    EndsIn (fun r => Sound cfg boot r.1 ∧ (r.2 = true → ∃ e ∈ st.maps, e.type = type ∧
        paIsInMap cfg e (virtToPhys cfg st va) len = true ∧ Unmaps cfg st r.1 e))
      (fun e => e = .invalidType) (coreMmuRemoveMapping cfg masked st type va len) := by
  rw [coreMmuRemoveMapping]
  split
  · exact ⟨hs, nofun⟩
  next e j he =>
  split
  · exact ⟨hs, nofun⟩
  next res i hres =>
  split
  · exact ⟨hs, nofun⟩
  next t hfind =>
  rw [fits, he, Option.all_some] at hfit
  obtain ⟨hget, htype, hpa⟩ := findMapByTypeAndPa_spec he
  obtain ⟨hget', hres'⟩ := findMapByType_spec hres
  have hfit := onReserved_spec hfit hres hfind
  have h := unmapEntry_sound hs hget hget' hres' (coreMmuFindTable_spec hfind) hfit
  exact h.imp fun r hr => ⟨hr.1, fun hok => ⟨e, List.mem_of_getElem? hget, htype, hpa, hr.2 hok⟩⟩

theorem call_sound (op : Op) (hfit : fits cfg st op = true) :
    EndsIn (fun r => Sound cfg boot r.1 ∧ Answers cfg st r.1 op r.2) (fun e => e = .invalidType)
      (call cfg st op) := by
  cases op with
  | add masked type addr len =>
    rw [fits, Bool.or_eq_true] at hfit
    refine (coreMmuAddMapping_sound hs hfit).bind fun r hr => ⟨hr.1, ?_⟩
    cases hv : r.2 with
    | none => exact trivial
    | some v => exact hr.2 v hv
  | remove masked type va len =>
    refine (coreMmuRemoveMapping_sound hs hfit).bind fun r hr => ⟨hr.1, ?_⟩
    cases hok : r.2 with
    | false => exact trivial
    | true => exact hr.2 hok

/-- A mapping made or removed after boot leaves the memory map sound. -/
theorem step_sound (op : Op) (hfit : fits cfg st op = true)
    (h : step cfg st op = .ok st') : Sound cfg boot st' := by
  obtain ⟨r, hcall, hr⟩ := bind_eq_ok.1 h
  obtain rfl := Except.ok.inj hr
  exact ((call_sound hs op hfit).of_ok hcall).1

end

/-- In a run whose calls find the table of the reserved address space as they need it, no entry
outside of a table is touched, entries do not overlap, and each call answers as it should. -/
theorem lateMappings_sound (cfg : Config) (boot : State) (hboot : Layout cfg boot.maps)
    (ops : List Op) (op : Op) (st : State)
    (hfits : Guarded (fun st op => fits cfg st op = true) (step cfg) boot (ops ++ [op]))
    (hrun : exec (step cfg) boot ops = .ok st) :
    Sound cfg boot st ∧
      EndsIn (fun r => Sound cfg boot r.1 ∧ Answers cfg st r.1 op r.2) (fun e => e = .invalidType)
        (call cfg st op) := by
  have hstart : Sound cfg boot boot := ⟨hboot, fun e he => .inl he⟩
  obtain ⟨hbefore, hlast⟩ := hfits.append hrun
  have hs : Sound cfg boot st :=
    exec_invariant (fun s a s' hs hfit => step_sound hs a hfit) hstart hbefore hrun
  exact ⟨hs, call_sound hs op hlast.1⟩

/-- A 64-bit core with tables of three levels for 4 GiB. -/
def threeLevels : Config where
  bits := 64
  paddrBits := 64
  maxPa := 2 ^ 40 - 1
  arraySize := 13
  extDtSecure := false
  levels := ⟨4, 30, [21, 12], by decide⟩
  shift_le := by decide
  width_le := by decide
  entries_lt := by decide
  finer_lt := by decide

/-- A map with nothing but reserved address space. -/
def reservedAt (va size : ℕ) : State where
  maps := [⟨.resVaspace, 0x200000, 0, va, size⟩]
  tables := fun s n => if s = 30 ∧ (n = 1 ∨ n = 2) then .table else .invalid

theorem layout_reservedAt {size : ℕ} (h : va + size < 2 ^ 64) :
    Layout threeLevels (reservedAt va size).maps := by
  refine ⟨List.pairwise_singleton _ _, fun e he => ?_⟩
  obtain rfl := List.mem_singleton.1 he
  exact h

/-- A device is mapped, and then a part of the same page. -/
def deviceCalls : List Op :=
  [.add false .ioSec 0x50001000 0x1000, .add false .ioSec 0x50001800 0x100]

theorem lateMappings_sound_device :
    ∃ st st', exec (step threeLevels) (reservedAt 0x7fc00000 0xa00000) deviceCalls = .ok st ∧
      call threeLevels st (.remove false .ioSec 0x7fc01000 0x1000) = .ok (st', .removed true) ∧
      Sound threeLevels (reservedAt 0x7fc00000 0xa00000) st' ∧
      Answers threeLevels st st' (.remove false .ioSec 0x7fc01000 0x1000) (.removed true) := by
  have hrun : ∃ st, exec (step threeLevels) (reservedAt 0x7fc00000 0xa00000) deviceCalls = .ok st ∧
      okAnd (call threeLevels st (.remove false .ioSec 0x7fc01000 0x1000))
      (fun r => decide (r.2 = .removed true)) =
        true := exists_ok_of_decide (by decide +kernel)
  obtain ⟨st, hst, hcall⟩ := hrun
  obtain ⟨⟨st', answer⟩, hcall, hanswer⟩ := exists_of_okAnd hcall
  obtain rfl : answer = .removed true := of_decide_eq_true hanswer
  have h := lateMappings_sound threeLevels _ (layout_reservedAt (by decide)) deviceCalls
    (.remove false .ioSec 0x7fc01000 0x1000) st (by decide +kernel) hst
  exact ⟨st, st', hst, hcall, h.2.of_ok hcall⟩

/-- Where the reserved address space begins with the last entry of a table, a request may be for an
entry more than the table has, and what the last entry maps stays mapped when it is removed. -/
theorem lateMapping_across_tables :
    (∃ boot, Layout threeLevels boot.maps ∧
      call threeLevels boot (.add false .ioSec 0x501ffff0 32) = .error .entryIndex) ∧
    ∃ boot st st', Layout threeLevels boot.maps ∧
      call threeLevels boot (.add false .ioSec 0x50001000 0x1000)
        = .ok (st, .address (some 0x7fe01000)) ∧
      call threeLevels st (.remove false .ioSec 0x7fe01000 0x1000) = .ok (st', .removed true) ∧
      threeLevels.levels.translate st'.tables 0x7fe01000 = some 0x50001000 := by
  have hlayout : Layout threeLevels (reservedAt 0x7fe00000 0xa00000).maps :=
    layout_reservedAt (by decide)
  refine ⟨⟨_, hlayout, eq_error_of_decide (by decide +kernel)⟩, reservedAt 0x7fe00000 0xa00000, ?_⟩
  have hadd :
    okAnd (call threeLevels (reservedAt 0x7fe00000 0xa00000) (.add false .ioSec 0x50001000 0x1000))
      (fun r => decide (r.2 = .address (some 0x7fe01000)) &&
        okAnd (call threeLevels r.1 (.remove false .ioSec 0x7fe01000 0x1000)) fun r' =>
          decide (r'.2 = .removed true) &&
            decide (threeLevels.levels.translate r'.1.tables 0x7fe01000 = some 0x50001000))
            = true := by decide +kernel
  obtain ⟨⟨st, _⟩, hadd, h⟩ := exists_of_okAnd hadd
  simp only [Bool.and_eq_true, decide_eq_true_eq] at h
  obtain ⟨rfl, h⟩ := h
  obtain ⟨⟨st', _⟩, hremove, h⟩ := exists_of_okAnd h
  simp only [Bool.and_eq_true, decide_eq_true_eq] at h
  obtain ⟨rfl, h⟩ := h
  exact ⟨st, st', hlayout, hadd, hremove, h⟩

end Optee.LateMap
