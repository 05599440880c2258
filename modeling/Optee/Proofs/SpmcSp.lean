import Optee.Lib.Run
import Optee.Proofs.ThreadSpmc
import Optee.Proofs.VmOps
import Optee.SpmcSp

/-!
# The protocol of sharing memory with secure partitions

What is mapped in the address space of a partition are the pieces it started with and the regions of
the shares it has retrieved and not relinquished (`SpaceInv`), so that a region is mapped in a
receiver exactly while its count is not zero (`Protocol`).

This holds as long as requests are `sound`.
-/

namespace Optee.SpmcSp

open Ffa

variable {cfg : Config} {s s' : State} {share share' : Share} {reg reg' : MapRegion}
  {space space' : Vm.VmInfo} {endpoint e handle n first next : ℕ}
  {regions regions' : List MapRegion} {env : ℕ → Vm.Env} {F : Prop}

/-! ## Sound requests -/

/-- At most one region, with pages and less than 4 GiB. -/
def mappable (regions : List MapRegion) : Bool :=
  regions.length ≤ 1 && regions.all fun reg => 0 < reg.pageCount && reg.pageCount < 2 ^ 20

/-- The descriptor does not name the endpoint as a receiver. -/
def namesNot (memTrans : MemTransaction) (rx : Buffer) (endpoint : ℕ) : Bool :=
  (List.range memTrans.memAccessCount).all fun i =>
    endpointId rx (memTrans.memAccessOffs + 16 * i) ≠ endpoint

/-- A request that meets none of the defects. -/
def sound (s : State) : Request → Bool
  | .share endpoint _ rxtx _ fragLen =>
    match readMemTransaction rxtx.version11 rxtx.rx fragLen with
    | .error _ => true
    | .ok memTrans => namesNot memTrans rxtx.rx endpoint
  | .shareNw .. => true
  | .retrieve endpoint _ rxtx totLen fragLen =>
    match retrieveTarget s rxtx totLen fragLen with
    | .error _ => true
    | .ok (share, memTrans, offs) =>
      match share.receiver endpoint with
      | none => false
      | some receiver =>
        !(checkRetrieveRequest receiver share memTrans rxtx && receiver.refCount = 0 &&
          canMap receiver.perm (retrieveVa rxtx offs)) || mappable share.regions
  | .relinquish endpoint _ rxtx =>
    match relinquishTarget s endpoint rxtx with
    | .error _ => true
    | .ok share => (share.receiver endpoint).isSome
  | .reclaim .. => true
  | .reclaimNw handle _ => (s.get handle).all fun share => (s.spaces share.senderId).isNone

/-- All mappings of a region from its start on have its length and may be written to, and there is
one. -/
def clearable (space : Vm.VmInfo) (reg : MapRegion) : Bool :=
  let mappings := space.regions.filter fun r => r.mobj = reg.mobj ∧ r.offset = reg.pageOffset
  !mappings.isEmpty &&
    mappings.all fun r => reg.len ≤ r.size && (r.attr.prot.uw || r.attr.prot.pw)

/-- A request at which the core does not stop: there is memory for the regions of a share, and what
is to be cleared can be. -/
def spared (s : State) : Request → Bool
  | .share _ alloc _ _ _ => alloc.region
  | .reclaim endpoint handle flags =>
    !flags.testBit 0 || (s.spaces endpoint).all fun space =>
      (s.get handle).all fun share => share.regions.all (clearable space)
  | _ => true

/-! ## Pieces of memory objects -/

/-- A part of a memory object. -/
structure Piece where
  mobj : Vm.Mobj
  offset : ℕ
  size : ℕ

/-- Two parts of one object have a byte in common. -/
def Piece.Overlaps (p q : Piece) : Prop :=
  p.mobj = q.mobj ∧ ∃ x, p.offset ≤ x ∧ x < p.offset + p.size ∧ q.offset ≤ x ∧ x < q.offset + q.size

/-- What a mapping maps. -/
def pieceOf (r : Vm.VmRegion) : Piece := ⟨r.mobj, r.offset, r.size⟩

/-- What a region of a share has. -/
def MapRegion.piece (reg : MapRegion) : Piece :=
  ⟨reg.mobj, reg.pageOffset, reg.pageCount * smallPageSize⟩

/-- What an address space maps. -/
def pieces (space : Vm.VmInfo) : List Piece := space.regions.map pieceOf

/-- What an address space maps, with the permissions. -/
def mappings (space : Vm.VmInfo) : List (Piece × Vm.Prot) :=
  space.regions.map fun r => (pieceOf r, r.attr.prot)

theorem fst_mappings (space : Vm.VmInfo) : (mappings space).map Prod.fst = pieces space := by
  simp [mappings, pieces]

theorem pieces_perm {perm : ℕ}
    (h : (mappings space').Perm (regions.map (fun reg => (reg.piece, permProt perm))
      ++ mappings space)) :
    (pieces space').Perm (regions.map MapRegion.piece ++ pieces space) := by
  simpa [fst_mappings, Function.comp_def] using h.map Prod.fst

theorem Mappable.pos (h : mappable regions = true) (hreg : reg ∈ regions) :
    0 < reg.pageCount ∧ reg.pageCount < 2 ^ 20 := by
  have := List.all_eq_true.1 (Bool.and_eq_true_iff.1 h).2 reg hreg
  simpa using this

theorem Mappable.cases (h : mappable regions = true) : regions = [] ∨ ∃ reg, regions = [reg] := by
  have := of_decide_eq_true (Bool.and_eq_true_iff.1 h).1
  match regions, this with
  | [], _ => exact .inl rfl
  | [reg], _ => exact .inr ⟨reg, rfl⟩

theorem MapRegion.len_eq (h : reg.pageCount < 2 ^ 20) :
    reg.len = reg.pageCount * smallPageSize := by
  rw [MapRegion.len, smallPageSize, Nat.mod_eq_of_lt (by omega)]

theorem MapRegion.endOffs_eq (h : reg.pageCount < 2 ^ 20)
    (hlt : reg.pageOffset + reg.pageCount * smallPageSize < 2 ^ 32) :
    reg.endOffs = reg.pageOffset + reg.pageCount * smallPageSize := by
  rw [MapRegion.endOffs, MapRegion.len_eq h, Nat.mod_eq_of_lt hlt]

/-! ## Mapping and unmapping -/

theorem MapRegion.dvd_len (reg : MapRegion) : smallPageSize ∣ reg.len :=
  (Nat.dvd_mod_iff (by decide)).2 ⟨reg.pageCount, Nat.mul_comm ..⟩

theorem wrapRoundup_len (cfg : Config) (reg : MapRegion) :
    wrapRoundup cfg.vm.bits smallPageSize reg.len = reg.len := by
  have hbits : 2 ^ 32 ≤ 2 ^ cfg.vm.bits := Nat.pow_le_pow_right (by decide) cfg.bits_ge
  have hlt : reg.len < 2 ^ 32 := Nat.mod_lt _ (by decide)
  obtain ⟨k, hk⟩ := reg.dvd_len
  rw [smallPageSize] at hk
  rw [wrapRoundup, show smallPageSize = 4096 from rfl, Nat.mod_eq_of_lt (by omega)]
  omega

/-- The address space has a place for the region. -/
def Room (cfg : Config) (space : Vm.VmInfo) (perm va : ℕ) (reg : MapRegion) : Prop :=
  Vm.CanMap cfg.vm space va reg.len (permProt perm) .none reg.mobj reg.pageOffset 0 0 0

/-- A region was mapped in addition to what was mapped before. -/
structure Mapped (cfg : Config) (perm va : ℕ) (reg : MapRegion) (space space' : Vm.VmInfo)
    (r : Vm.VmRegion) : Prop where
  ok : Vm.SpaceOk cfg.vm space'.regions
  tail : space'.tail = true
  regions : space'.regions.Perm (r :: space.regions)
  piece : pieceOf r = ⟨reg.mobj, reg.pageOffset, wrapRoundup cfg.vm.bits smallPageSize reg.len⟩
  prot : r.attr.prot = permProt perm
  va : va ≠ 0 → r.va = va

theorem vmMap_cases (cfg : Config) (env : Vm.Env) (perm va : ℕ) (reg : MapRegion)
    (hok : Vm.SpaceOk cfg.vm space.regions) (htail : space.tail = true) :
    (∃ err, Vm.vmMap cfg.vm env space va reg.len
      (some (permProt perm)) .none reg.mobj reg.pageOffset
      = .ok (space, .error err) ∧ (env = Vm.Env.good → ¬ Room cfg space perm va reg)) ∨
    ∃ space' r, Vm.vmMap cfg.vm env space va reg.len
      (some (permProt perm)) .none reg.mobj reg.pageOffset
      = .ok (space', .ok r.va) ∧ Room cfg space perm va reg
        ∧ Mapped cfg perm va reg space space' r := by
  obtain ⟨⟨space', res⟩, hmap, hroom, hgood⟩ : ∃ x, Vm.vmMap cfg.vm env space va reg.len
      (some (permProt perm)) .none reg.mobj reg.pageOffset = .ok x ∧
      (x.2.toBool = true → Room cfg space perm va reg) ∧
      (Room cfg space perm va reg → env = Vm.Env.good → x.2.toBool = true) := Vm.vmMapPad_tail htail
  obtain ⟨rfl, err, rfl⟩ | ⟨p, memType, l₁, r, l₂, hp, hl, rfl, rfl, hplaced⟩ :=
    Vm.vmMapPad_cases hmap
  · exact .inl ⟨err, hmap, fun henv h => by simpa [Except.toBool] using hgood h henv⟩
  · cases hp
    refine .inr ⟨_, r, hmap, hroom rfl, hplaced.spaceOk (hl ▸ hok), htail, ?_, ?_, ?_,
      fun hva => ?_⟩
    · rw [hl]
      exact List.perm_middle
    · rw [hplaced.same]
      rfl
    · rw [hplaced.same]
      rfl
    · rw [hplaced.begins, Vm.beginVa]
      exact if_pos hva

variable {va offs blen : ℕ} {receiver : Receiver} {p : Piece} {rxtx : RxTx}
  {memTrans : MemTransaction} {buf : Buffer} {alloc : Alloc}

theorem mapShared_cases {perm : ℕ} (hm : canMap perm va = true → mappable regions = true)
    (hok : Vm.SpaceOk cfg.vm space.regions) (htail : space.tail = true) :
    mapShared cfg env perm va space regions = .ok (space, false) ∨
    ∃ space', mapShared cfg env perm va space regions = .ok (space', true) ∧
      mappable regions = true ∧
      Vm.SpaceOk cfg.vm space'.regions ∧ space'.tail = true ∧
      (mappings space').Perm (regions.map (fun reg => (reg.piece, permProt perm))
        ++ mappings space) := by
  rw [mapShared]
  split_ifs with hcan
  swap
  · exact .inl rfl
  have hm := hm hcan
  rcases Mappable.cases hm with rfl | ⟨reg, rfl⟩
  · exact .inr ⟨space, rfl, hm, hok, htail, List.Perm.refl _⟩
  obtain ⟨err, hmap, -⟩ | ⟨space', r, hmap, -, h⟩ := vmMap_cases cfg (env 0) perm va reg hok htail
  · exact .inl (by rw [mapRegions, hmap]; rfl)
  · refine .inr ⟨space', by rw [mapRegions, hmap]; rfl, hm, h.ok, h.tail, ?_⟩
    have hpiece : pieceOf r = reg.piece := by
      rw [h.piece, wrapRoundup_len, MapRegion.len_eq (Mappable.pos hm List.mem_cons_self).2]
      rfl
    have := h.regions.map fun r => (pieceOf r, r.attr.prot)
    rwa [List.map_cons, hpiece, h.prot] at this

/-- The mapping that is found for the region is of that region. -/
def Found (space : Vm.VmInfo) (reg : MapRegion) : Prop :=
  ∃ r ∈ space.regions, getVa space reg = some r.va ∧ pieceOf r = reg.piece

theorem unmapRegions_eq (env : ℕ → Vm.Env) (hm : mappable regions = true)
    (hok : Vm.SpaceOk cfg.vm space.regions) (htail : space.tail = true)
    (hfound : ∀ reg ∈ regions, Found space reg) :
    ∃ space', unmapRegions cfg env 0 space regions = .ok (space', true) ∧
      Vm.SpaceOk cfg.vm space'.regions ∧ space'.tail = true ∧
      (pieces space).Perm (regions.map MapRegion.piece ++ pieces space') := by
  rcases Mappable.cases hm with rfl | ⟨reg, rfl⟩
  · exact ⟨space, rfl, hok, htail, List.Perm.refl _⟩
  obtain ⟨r, hr, hva, hpiece⟩ := hfound reg List.mem_cons_self
  obtain ⟨hpos, hlt⟩ := Mappable.pos hm List.mem_cons_self
  obtain ⟨l₁, l₂, hl⟩ := List.append_of_mem hr
  have hsize : r.size = reg.len := by
    rw [MapRegion.len_eq hlt]
    exact congrArg Piece.size hpiece
  have hunmap :=
    Vm.vmUnmap_region (env 0) hok hl (by rw [hsize, MapRegion.len_eq hlt, smallPageSize]; omega)
  have hloop : unmapRegions cfg env 0 space [reg]
      = .ok (⟨l₁ ++ l₂, space.tail || l₂.isEmpty⟩, true) := by
    rw [unmapRegions, hva, Option.getD_some, ← hsize, hunmap]
    rfl
  rw [hl] at hok
  refine ⟨_, hloop, hok.sublist ((List.sublist_cons_self r l₂).append_left l₁), by simp [htail], ?_⟩
  rw [pieces, pieces, hl, List.map_append, List.map_cons, hpiece, List.map_append]
  exact List.perm_middle

/-! ## Counts of receivers -/

/-- The count of a receiver. -/
def Share.refOf (share : Share) (endpoint : ℕ) : ℕ :=
  ((share.receiver endpoint).map Receiver.refCount).getD 0

/-- What an endpoint has mapped of a share. -/
def Share.mappedIn (endpoint : ℕ) (share : Share) : List Piece :=
  if share.refOf endpoint = 0 then [] else share.regions.map MapRegion.piece

theorem refOf_eq (h : share.receiver endpoint = some receiver) :
    share.refOf endpoint = receiver.refCount := by
  rw [Share.refOf, h]
  rfl

theorem receiver_setRefCount :
    (share.setRefCount endpoint n).receiver e = (share.receiver e).map fun r =>
    if r.endpointId = endpoint then { r with refCount := n } else r := by
  rw [Share.receiver, Share.setRefCount, List.find?_map]
  congr 2
  funext r
  simp only [Function.comp_apply]
  split_ifs <;> rfl

theorem endpointId_of_receiver (h : share.receiver endpoint = some receiver) :
    receiver.endpointId = endpoint := by
  rw [Share.receiver] at h
  simpa using List.find?_some h

theorem refOf_setRefCount (h : share.receiver endpoint = some receiver) :
    (share.setRefCount endpoint n).refOf e = if e = endpoint then n else share.refOf e := by
  rw [Share.refOf, receiver_setRefCount]
  split_ifs with he
  · subst he
    rw [h, Option.map_some, if_pos (endpointId_of_receiver h)]
    rfl
  · rw [Share.refOf, Option.map_map]
    cases hr : share.receiver e with
    | none => rfl
    | some r =>
      rw [Option.map_some, Option.map_some, Function.comp_apply,
        if_neg (endpointId_of_receiver hr ▸ he)]

theorem endpoints_setRefCount : (share.setRefCount endpoint n).receivers.map (·.endpointId)
    = share.receivers.map (·.endpointId) := by
  rw [Share.setRefCount, List.map_map]
  refine List.map_congr_left fun r _ => ?_
  simp only [Function.comp_apply]
  split_ifs <;> rfl

theorem map_setRefCount {α : Type} {f : Share → α}
    (hf : ∀ share, f (share.setRefCount endpoint n) = f share) :
    (s.setRefCount handle endpoint n).shares.map f = s.shares.map f := by
  rw [State.setRefCount, List.map_map]
  refine List.map_congr_left fun share _ => ?_
  simp only [Function.comp_apply]
  split_ifs
  · exact hf share
  · rfl

/-! ## The invariant -/

/-- A region is of memory of the sender, or of an object that was made for the share. -/
def RegionOk (own : ℕ → List Piece) (first next sender : ℕ) (reg : MapRegion) : Prop :=
  ((∃ p ∈ own sender, p.mobj = reg.mobj) ∧ reg.pageCount < 2 ^ 20 ∧
    reg.pageOffset + reg.pageCount * smallPageSize < 2 ^ 32) ∨
  (first ≤ reg.mobj.id ∧ reg.mobj.id < next ∧ reg.pageOffset = 0)

/-- The receivers of a share are different and not the sender. -/
structure ShareOk (own : ℕ → List Piece) (first next : ℕ) (share : Share) : Prop where
  endpoints : (share.receivers.map (·.endpointId)).Nodup
  sender : share.senderId ∉ share.receivers.map (·.endpointId)
  regions : ∀ reg ∈ share.regions, RegionOk own first next share.senderId reg

/-- The regions of two shares have nothing in common. -/
def ApartRegions (first : ℕ) (regions regions' : List MapRegion) : Prop :=
  ∀ reg ∈ regions, ∀ reg' ∈ regions', reg.mobj = reg'.mobj →
    reg.mobj.id < first ∧ ¬ reg.piece.Overlaps reg'.piece

/-- An address space maps what it had at the start and what it has retrieved. -/
structure SpaceInv (cfg : Config) (own : List Piece) (shares : List Share) (endpoint : ℕ)
    (space : Vm.VmInfo) : Prop where
  ok : Vm.SpaceOk cfg.vm space.regions
  tail : space.tail = true
  mapped : (pieces space).Perm (own ++ shares.flatMap (Share.mappedIn endpoint))

/-- What partitions have at the start is small and not shared. -/
structure OwnOk (own : ℕ → List Piece) (first : ℕ) : Prop where
  small : ∀ endpoint, ∀ p ∈ own endpoint, roundup smallPageSize p.mobj.size < 2 ^ 32
  old : ∀ endpoint, ∀ p ∈ own endpoint, p.mobj.id < first
  apart : ∀ endpoint e, endpoint ≠ e → ∀ p ∈ own endpoint, ∀ q ∈ own e, p.mobj ≠ q.mobj

structure Inv (cfg : Config) (own : ℕ → List Piece) (first : ℕ) (s : State) : Prop where
  next : first ≤ s.nextMobj
  handles : (s.shares.map Share.handle).Nodup
  bits : ∀ h ∈ s.shares.map Share.handle, ∃ i ∈ s.bits, h = globalHandle i
  shares : ∀ share ∈ s.shares, ShareOk own first s.nextMobj share
  apart : (s.shares.map Share.regions).Pairwise (ApartRegions first)
  mappable : ∀ share ∈ s.shares, ∀ endpoint, share.refOf endpoint ≠ 0 →
    mappable share.regions = true
  spaces : ∀ endpoint space, s.spaces endpoint = some space →
    SpaceInv cfg (own endpoint) s.shares endpoint space

variable {own : ℕ → List Piece}

theorem get_mem (h : s.get handle = some share) : share ∈ s.shares ∧ share.handle = handle :=
  ⟨List.mem_of_find?_eq_some h, by rw [State.get] at h; simpa using List.find?_some h⟩

theorem split_of_get (hnodup : (s.shares.map Share.handle).Nodup) (h : s.get handle = some share) :
    ∃ l₁ l₂, s.shares = l₁ ++ share :: l₂ ∧ share.handle = handle ∧ ∀ a ∈ l₁ ++ l₂,
      a.handle ≠ handle := by
  obtain ⟨hmem, rfl⟩ := get_mem h
  obtain ⟨l₁, l₂, hl⟩ := List.append_of_mem hmem
  refine ⟨l₁, l₂, hl, rfl, fun a ha heq => ?_⟩
  rw [hl, List.map_append, List.map_cons] at hnodup
  have := (List.nodup_middle.1 hnodup)
  rw [← List.map_append] at this
  exact (List.nodup_cons.1 this).1 (heq ▸ List.mem_map_of_mem ha)

theorem setRefCount_split {l₁ l₂ : List Share} (hl : s.shares = l₁ ++ share :: l₂)
    (hne : ∀ a ∈ l₁ ++ l₂, a.handle ≠ share.handle) :
    (s.setRefCount share.handle endpoint n).shares = l₁ ++ share.setRefCount endpoint n :: l₂ := by
  have hsame : ∀ l : List Share, (∀ a ∈ l, a.handle ≠ share.handle) →
      l.map (fun a => if a.handle = share.handle then a.setRefCount endpoint n
      else a) = l := fun l h =>
    (List.map_congr_left fun a ha => if_neg (h a ha)).trans (List.map_id l)
  rw [State.setRefCount, hl, List.map_append, List.map_cons, if_pos rfl,
    hsame l₁ fun a ha => hne a (List.mem_append_left l₂ ha),
    hsame l₂ fun a ha => hne a (List.mem_append_right l₁ ha)]

theorem Inv.setRefCount (h : Inv cfg own first s) (hget : s.get handle = some share)
    (hr : share.receiver endpoint = some receiver)
    (hm : n ≠ 0 → SpmcSp.mappable share.regions = true)
    (hspaces : ∀ e space', s'.spaces e = some space' →
      SpaceInv cfg (own e) (s.setRefCount handle endpoint n).shares e space')
    (hs' : s'.bits = s.bits ∧ s'.shares = (s.setRefCount handle endpoint n).shares
      ∧ s'.nextMobj = s.nextMobj) :
    Inv cfg own first s' := by
  obtain ⟨hbits, hshares, hnext⟩ := hs'
  have hhandle : s'.shares.map Share.handle = s.shares.map Share.handle := by
    rw [hshares]
    exact map_setRefCount fun _ => rfl
  have hregions : s'.shares.map Share.regions = s.shares.map Share.regions := by
    rw [hshares]
    exact map_setRefCount fun _ => rfl
  have hmem : ∀ a' ∈ s'.shares, a' ∈ s.shares ∨ a' = share.setRefCount endpoint n := by
    obtain ⟨l₁, l₂, hl, rfl, hne⟩ := split_of_get h.handles hget
    rw [hshares, setRefCount_split hl hne, hl]
    simp only [List.mem_append, List.mem_cons]
    tauto
  refine ⟨hnext ▸ h.next, hhandle ▸ h.handles, ?_, fun a' ha' => ?_, hregions ▸ h.apart,
    fun a' ha' e hne => ?_, ?_⟩
  · rw [hhandle, hbits]
    exact h.bits
  · rw [hnext]
    rcases hmem a' ha' with ha | rfl
    · exact h.shares a' ha
    · obtain ⟨hendpoints, hsender, hregs⟩ := h.shares share (get_mem hget).1
      exact ⟨by rw [endpoints_setRefCount]; exact hendpoints,
        by rw [endpoints_setRefCount]; exact hsender, hregs⟩
  · rcases hmem a' ha' with ha | rfl
    · exact h.mappable a' ha e hne
    · rw [refOf_setRefCount hr] at hne
      split_ifs at hne
      · exact hm hne
      · exact h.mappable share (get_mem hget).1 e hne
  · rw [hshares]
    exact hspaces

/-! ## What is mapped after a request -/

theorem flatMap_setRefCount (hnodup : (s.shares.map Share.handle).Nodup)
    (hget : s.get handle = some share) (hr : share.receiver endpoint = some receiver) :
    ∃ rest, (s.shares.flatMap (Share.mappedIn e)).Perm (share.mappedIn e ++ rest) ∧
      ((s.setRefCount handle endpoint n).shares.flatMap (Share.mappedIn e)).Perm
        ((if (if e = endpoint then n else share.refOf e) = 0 then []
          else share.regions.map MapRegion.piece)
          ++ rest) := by
  obtain ⟨l₁, l₂, hl, rfl, hne⟩ := split_of_get hnodup hget
  refine ⟨l₁.flatMap (Share.mappedIn e) ++ l₂.flatMap (Share.mappedIn e), ?_, ?_⟩
  · rw [hl, List.flatMap_append, List.flatMap_cons]
    exact List.perm_append_comm_assoc _ _ _
  · rw [setRefCount_split hl hne, List.flatMap_append, List.flatMap_cons, Share.mappedIn,
      refOf_setRefCount hr]
    exact List.perm_append_comm_assoc _ _ _

theorem SpaceInv.setRefCount (h : SpaceInv cfg (own e) s.shares e space)
    (hnodup : (s.shares.map Share.handle).Nodup) (hget : s.get handle = some share)
    (hr : share.receiver endpoint = some receiver)
    (hsame : e = endpoint → (n = 0 ↔ receiver.refCount = 0)) :
    SpaceInv cfg (own e) (s.setRefCount handle endpoint n).shares e space := by
  obtain ⟨rest, hold, hnew⟩ := flatMap_setRefCount (n := n) (e := e) hnodup hget hr
  refine ⟨h.ok, h.tail,
    h.mapped.trans (List.Perm.append_left _ (hold.trans (List.Perm.trans ?_ hnew.symm)))⟩
  have hcount : ((if e = endpoint then n else share.refOf e) = 0) ↔ share.refOf e = 0 := by
    split_ifs with he
    · rw [hsame he, he, refOf_eq hr]
    · rfl
  rw [Share.mappedIn, if_congr hcount rfl rfl]

theorem spaces_setSpace {space'' : Vm.VmInfo}
    (h : (s.setSpace endpoint space').spaces e = some space'') :
    (e = endpoint ∧ space'' = space') ∨ (e ≠ endpoint ∧ s.spaces e = some space'') := by
  simp only [State.setSpace, Function.update_apply] at h
  split_ifs at h with he
  · exact .inl ⟨he, by cases h; rfl⟩
  · exact .inr ⟨he, h⟩

theorem Inv.map (h : Inv cfg own first s) (hget : s.get handle = some share)
    (hr : share.receiver endpoint = some receiver) (hzero : receiver.refCount = 0)
    (hspace : s.spaces endpoint = some space) (hm : SpmcSp.mappable share.regions = true)
    (hok : Vm.SpaceOk cfg.vm space'.regions) (htail : space'.tail = true)
    (hperm : (pieces space').Perm (share.regions.map MapRegion.piece ++ pieces space)) :
    Inv cfg own first ((s.setSpace endpoint space').setRefCount handle endpoint 1) := by
  refine h.setRefCount hget hr (n := 1) (fun _ => hm) (fun e space'' he => ?_) ⟨rfl, rfl, rfl⟩
  rcases spaces_setSpace he with ⟨rfl, rfl⟩ | ⟨hne, he⟩
  · obtain ⟨rest, hold, hnew⟩ := flatMap_setRefCount (n := 1) (e := e) h.handles hget hr
    rw [Share.mappedIn, refOf_eq hr, if_pos hzero, List.nil_append] at hold
    rw [if_pos rfl, if_neg one_ne_zero] at hnew
    have hspaces := (h.spaces e space hspace).mapped.trans (hold.append_left _)
    have hmoved : (share.regions.map MapRegion.piece ++ (own e ++ rest)).Perm
        (own e ++ (share.regions.map MapRegion.piece ++ rest)) := List.perm_append_comm_assoc _ _ _
    exact ⟨hok, htail,
      hperm.trans ((hspaces.append_left _).trans (hmoved.trans (hnew.symm.append_left _)))⟩
  · exact (h.spaces e space'' he).setRefCount h.handles hget hr fun heq => absurd heq hne

theorem Inv.unmap (h : Inv cfg own first s) (hget : s.get handle = some share)
    (hr : share.receiver endpoint = some receiver) (hone : receiver.refCount ≠ 0)
    (hspace : s.spaces endpoint = some space) (hok : Vm.SpaceOk cfg.vm space'.regions)
    (htail : space'.tail = true)
    (hperm : (pieces space).Perm (share.regions.map MapRegion.piece ++ pieces space')) :
    Inv cfg own first ((s.setRefCount handle endpoint 0).setSpace endpoint space') := by
  refine h.setRefCount hget hr (n := 0) (fun hn => absurd rfl hn) (fun e space'' he => ?_)
    ⟨rfl, rfl, rfl⟩
  rcases spaces_setSpace he with ⟨rfl, rfl⟩ | ⟨hne, he⟩
  · obtain ⟨rest, hold, hnew⟩ := flatMap_setRefCount (n := 0) (e := e) h.handles hget hr
    rw [Share.mappedIn, refOf_eq hr, if_neg hone] at hold
    rw [if_pos rfl, if_pos rfl, List.nil_append] at hnew
    have hspaces := (h.spaces e space hspace).mapped.trans (hold.append_left _)
    have hmoved : (own e ++ (share.regions.map MapRegion.piece ++ rest)).Perm
        (share.regions.map MapRegion.piece ++ (own e ++ rest)) := List.perm_append_comm_assoc _ _ _
    have hrest := (List.perm_append_left_iff _).1 (hperm.symm.trans (hspaces.trans hmoved))
    exact ⟨hok, htail, hrest.trans (hnew.symm.append_left _)⟩
  · exact (h.spaces e space'' he).setRefCount h.handles hget hr fun heq => absurd heq hne

theorem SpaceInv.origin {owned : List Piece} {shares : List Share}
    (h : SpaceInv cfg owned shares e space) (hp : p ∈ pieces space) :
    p ∈ owned ∨ ∃ share ∈ shares, share.refOf e ≠ 0 ∧ ∃ reg ∈ share.regions, reg.piece = p := by
  rcases List.mem_append.1 (h.mapped.mem_iff.1 hp) with hp | hp
  · exact .inl hp
  obtain ⟨share, hshare, hp⟩ := List.mem_flatMap.1 hp
  rw [Share.mappedIn] at hp
  split_ifs at hp with hzero
  · cases hp
  · exact .inr ⟨share, hshare, hzero, List.mem_map.1 hp⟩

theorem SpaceInv.mem_pieces {owned : List Piece} {shares : List Share}
    (h : SpaceInv cfg owned shares e space) (hshare : share ∈ shares) (hcount : share.refOf e ≠ 0)
    (hreg : reg ∈ share.regions) : reg.piece ∈ pieces space := by
  refine h.mapped.mem_iff.2 (List.mem_append_right _ (List.mem_flatMap.2 ⟨share, hshare, ?_⟩))
  rw [Share.mappedIn, if_neg hcount]
  exact List.mem_map_of_mem hreg

theorem ApartRegions.symm (h : ApartRegions first regions regions') :
    ApartRegions first regions' regions := by
  intro reg hreg reg' hreg' hmobj
  obtain ⟨hid, hover⟩ := h reg' hreg' reg hreg hmobj.symm
  exact ⟨hmobj ▸ hid, fun ⟨_, x, h₁, h₂, h₃, h₄⟩ => hover ⟨hmobj.symm, x, h₃, h₄, h₁, h₂⟩⟩

theorem Inv.apart_of_ne (h : Inv cfg own first s) (hshare : share ∈ s.shares)
    (hshare' : share' ∈ s.shares) (hne : share ≠ share') :
    ApartRegions first share.regions share'.regions := by
  have : Std.Symm fun a b : Share => ApartRegions first a.regions b.regions :=
    ⟨fun _ _ hab => hab.symm⟩
  exact (List.pairwise_map.1 h.apart).forall hshare hshare' hne

theorem Inv.not_own (h : Inv cfg own first s) (hown : OwnOk own first) (hshare : share ∈ s.shares)
    (hr : share.receiver e = some receiver) (hreg : reg ∈ share.regions)
    (hp : p ∈ own e) : p.mobj ≠ reg.mobj := by
  have hok := h.shares share hshare
  have hmem : e ∈ share.receivers.map (·.endpointId) :=
    List.mem_map.2 ⟨receiver, List.mem_of_find?_eq_some hr, endpointId_of_receiver hr⟩
  rcases hok.regions reg hreg with ⟨⟨q, hq, hmobj⟩, -, -⟩ | ⟨hfirst, -, -⟩
  · rw [← hmobj]
    exact hown.apart e share.senderId (fun heq => hok.sender (heq ▸ hmem)) p hp q hq
  · intro heq
    have := hown.old e p hp
    rw [heq] at this
    omega

theorem Inv.found (h : Inv cfg own first s) (hown : OwnOk own first) (hshare : share ∈ s.shares)
    (hr : share.receiver e = some receiver) (hcount : receiver.refCount ≠ 0)
    (hspace : s.spaces e = some space) (hreg : reg ∈ share.regions) : Found space reg := by
  have hinv := h.spaces e space hspace
  have hcount : share.refOf e ≠ 0 := by rwa [refOf_eq hr]
  obtain ⟨r₀, hr₀, hpiece₀⟩ := List.mem_map.1 (hinv.mem_pieces hshare hcount hreg)
  have hsome :
      (space.regions.find? fun r => r.mobj = reg.mobj ∧ r.offset = reg.pageOffset).isSome := by
    rw [List.find?_isSome]
    exact ⟨r₀, hr₀, decide_eq_true ⟨congrArg Piece.mobj hpiece₀, congrArg Piece.offset hpiece₀⟩⟩
  obtain ⟨r, hfind⟩ := Option.isSome_iff_exists.1 hsome
  have hrmem := List.mem_of_find?_eq_some hfind
  obtain ⟨hmobj, hoffset⟩ : r.mobj = reg.mobj ∧ r.offset = reg.pageOffset := by
    simpa using List.find?_some hfind
  refine ⟨r, hrmem, by rw [getVa, hfind]; rfl, ?_⟩
  -- the region that is found first is one of the share itself, which has only one
  rcases hinv.origin (List.mem_map_of_mem hrmem) with hp
    | ⟨share', hshare', hcount', reg', hreg', hpiece⟩
  · exact absurd hmobj (h.not_own hown hshare hr hreg hp)
  have hm := h.mappable share hshare e hcount
  have hm' := h.mappable share' hshare' e hcount'
  by_cases heq : share = share'
  · subst heq
    rcases Mappable.cases hm with hnil | ⟨reg₀, hone⟩
    · rw [hnil] at hreg
      cases hreg
    · rw [hone, List.mem_singleton] at hreg hreg'
      rw [← hpiece, hreg, hreg']
  · have hpos := Mappable.pos hm hreg
    have hpos' := Mappable.pos hm' hreg'
    have hmobj' : reg.mobj = reg'.mobj := hmobj.symm.trans (congrArg Piece.mobj hpiece).symm
    have hoffset' : reg'.pageOffset = reg.pageOffset := (congrArg Piece.offset hpiece).trans hoffset
    refine absurd ⟨hmobj', reg.pageOffset,
      ?_⟩ (h.apart_of_ne hshare hshare' heq reg hreg reg' hreg' hmobj').2
    simp only [MapRegion.piece, smallPageSize]
    omega

/-! ## Requests -/

/-- A request keeps the invariant, or stops the core, which happens only under `F`. -/
def Keeps (cfg : Config) (own : ℕ → List Piece) (first : ℕ) (F : Prop)
    (x : Except Fault (Reply × State)) : Prop :=
  EndsIn (fun res => Inv cfg own first res.2) (fun _ => F) x

theorem setSpace_self (h : s.spaces endpoint = some space) : s.setSpace endpoint space = s := by
  rw [State.setSpace, ← h, Function.update_eq_self]

theorem retrieveTarget_ok {totLen fragLen : ℕ}
    (h : retrieveTarget s rxtx totLen fragLen = .ok (share, memTrans, offs)) :
    s.get (rawTransaction rxtx.version11 rxtx.rx).globalHandle = some share := by
  rw [retrieveTarget] at h
  split_ifs at h
  obtain ⟨memTrans', hread, h⟩ := bind_eq_ok.1 h
  split at h
  · cases h
  · rename_i share' hget
    rw [← readMemTransaction_eq hread]
    dsimp only at h
    split_ifs at h
    cases h
    exact hget

theorem Inv.retrieve (h : Inv cfg own first s) (hspace : s.spaces endpoint = some space)
    {totLen fragLen : ℕ} (hsound : sound s (.retrieve endpoint env rxtx totLen fragLen) = true) :
    Keeps cfg own first F (memRetrieve cfg s endpoint space env rxtx totLen fragLen) := by
  rw [memRetrieve]
  simp only [sound] at hsound
  cases htarget : retrieveTarget s rxtx totLen fragLen with
  | error err => exact h
  | ok target =>
    obtain ⟨share, memTrans, offs⟩ := target
    have hget : s.get share.handle = some share := by
      have hget := retrieveTarget_ok htarget
      rwa [(get_mem hget).2]
    simp only [htarget] at hsound ⊢
    cases hr : share.receiver endpoint with
    | none => simp [hr] at hsound
    | some receiver =>
      simp only [hr] at hsound ⊢
      by_cases hcheck : checkRetrieveRequest receiver share memTrans rxtx = true
      swap
      · simp only [hcheck]
        exact h
      simp only [hcheck, Bool.not_true, Bool.false_eq_true, if_false]
      by_cases hmax : receiver.refCount = 255
      · rw [if_pos hmax]
        exact h
      rw [if_neg hmax]
      by_cases hzero : receiver.refCount = 0
      · rw [if_pos hzero]
        have hinv := h.spaces endpoint space hspace
        have hm : canMap receiver.perm (retrieveVa rxtx offs) = true →
            SpmcSp.mappable share.regions = true := by
          intro hcan
          simpa [hcheck, hzero, hcan] using hsound
        rcases mapShared_cases hm hinv.ok hinv.tail with hfails
          | ⟨space', hmaps, hmap, hok, htail, hperm⟩
        · rw [hfails]
          simp only [setSpace_self hspace]
          exact h
        · rw [hmaps]
          exact h.map hget hr hzero hspace hmap hok htail (pieces_perm hperm)
      · rw [if_neg hzero]
        exact h.setRefCount hget hr (n := receiver.refCount + 1)
          (fun _ => h.mappable share (get_mem hget).1 endpoint (by rwa [refOf_eq hr]))
          (fun e space' he => (h.spaces e space' he).setRefCount h.handles hget hr
          (by simp [hzero])) ⟨rfl, rfl, rfl⟩

theorem relinquishTarget_ok (h : relinquishTarget s endpoint rxtx = .ok share) :
    s.get (readField rxtx.rx 0 8) = some share := by
  rw [relinquishTarget] at h
  split at h
  · cases h
  cases hget : s.get (readField rxtx.rx 0 8) with
  | none => simp [hget] at h
  | some share' =>
    simp only [hget] at h
    split_ifs at h
    exact congrArg some (Except.ok.inj h)

theorem Inv.relinquish (h : Inv cfg own first s) (hown : OwnOk own first)
    (hspace : s.spaces endpoint = some space)
    (hsound : sound s (.relinquish endpoint env rxtx) = true) :
    Keeps cfg own first F (memRelinquish cfg s endpoint space env rxtx) := by
  rw [memRelinquish]
  simp only [sound] at hsound
  cases htarget : relinquishTarget s endpoint rxtx with
  | error err => exact h
  | ok share =>
    have hget : s.get share.handle = some share := by
      have hget := relinquishTarget_ok htarget
      rwa [(get_mem hget).2]
    simp only [htarget] at hsound ⊢
    cases hr : share.receiver endpoint with
    | none => simp [hr] at hsound
    | some receiver =>
      dsimp only
      by_cases hzero : receiver.refCount = 0
      · rw [if_pos hzero]
        exact h
      rw [if_neg hzero]
      have hshare := (get_mem hget).1
      have hm := h.mappable share hshare endpoint (by rwa [refOf_eq hr])
      by_cases hone : receiver.refCount = 1
      · rw [if_pos hone]
        have hinv := h.spaces endpoint space hspace
        obtain ⟨space', hunmap, hok, htail, hperm⟩ := unmapRegions_eq env hm hinv.ok hinv.tail
          fun reg hreg => h.found hown hshare hr hzero hspace hreg
        rw [hunmap, hone]
        exact h.unmap hget hr hzero hspace hok htail hperm
      · rw [if_neg hone]
        exact h.setRefCount hget hr (n := receiver.refCount - 1) (fun _ => hm)
          (fun e space' he => (h.spaces e space' he).setRefCount h.handles hget hr (by omega))
          ⟨rfl, rfl, rfl⟩

theorem refOf_of_all_zero (h : ∀ r ∈ share.receivers, r.refCount = 0) : share.refOf e = 0 := by
  cases hr : share.receiver e with
  | none => rw [Share.refOf, hr]; rfl
  | some receiver => rw [refOf_eq hr, h receiver (List.mem_of_find?_eq_some hr)]

theorem Inv.remove (h : Inv cfg own first s) (hget : s.get share.handle = some share)
    (hzero : ∀ r ∈ share.receivers, r.refCount = 0) : Inv cfg own first (s.remove share) := by
  obtain ⟨l₁, l₂, hl, -, hne⟩ := split_of_get h.handles hget
  have herase : (s.remove share).shares = l₁ ++ l₂ := by
    rw [State.remove, hl]
    change List.eraseP _ _ = _
    rw [List.eraseP_append_right _ fun a ha => by simpa using hne a (List.mem_append_left l₂ ha),
      List.eraseP_cons_of_pos (by simp)]
  have hsub : (l₁ ++ l₂).Sublist s.shares := hl ▸ (List.sublist_cons_self share l₂).append_left l₁
  refine ⟨h.next, ?_, ?_, ?_, ?_, ?_, fun e space hspace => ?_⟩ <;> simp only [herase]
  · exact h.handles.sublist (hsub.map _)
  · intro handle hhandle
    obtain ⟨a, ha, rfl⟩ := List.mem_map.1 hhandle
    obtain ⟨i, hi, heq⟩ := h.bits a.handle (List.mem_map_of_mem (hsub.subset ha))
    exact ⟨i, List.mem_filter.2 ⟨hi, by simpa [← heq] using hne a ha⟩, heq⟩
  · exact fun a ha => h.shares a (hsub.subset ha)
  · exact h.apart.sublist (hsub.map _)
  · exact fun a ha => h.mappable a (hsub.subset ha)
  · obtain ⟨hok, htail, hmapped⟩ := h.spaces e space hspace
    refine ⟨hok, htail, ?_⟩
    rwa [hl, List.flatMap_append, List.flatMap_cons, Share.mappedIn,
      if_pos (refOf_of_all_zero hzero), List.nil_append, ← List.flatMap_append] at hmapped

theorem zeroMemRegion_eq_ok (h : ∀ reg ∈ regions, clearable space reg = true) :
    zeroMemRegion space regions = .ok () := by
  induction regions with
  | nil => rfl
  | cons reg regions ih =>
    obtain ⟨hreg, hregions⟩ := List.forall_mem_cons.1 h
    simp only [clearable, Bool.and_eq_true, List.all_eq_true, List.mem_filter, decide_eq_true_eq,
      Bool.not_eq_true', List.isEmpty_eq_false_iff_exists_mem] at hreg
    obtain ⟨⟨r, hr, hstart⟩, hall⟩ := hreg
    rw [zeroMemRegion]
    cases hfind : space.regions.find? fun r => r.mobj = reg.mobj ∧ r.offset = reg.pageOffset with
    | none =>
      have := List.find?_eq_none.1 hfind r hr
      simp only [decide_eq_true_eq] at this
      exact absurd hstart this
    | some q =>
      obtain ⟨hlen, hwrite⟩ := hall q ⟨List.mem_of_find?_eq_some hfind, by
        simpa using List.find?_some hfind⟩
      dsimp only
      rw [if_neg fun hbad => hbad.2.elim (Nat.not_lt.2 hlen) (by simp [hwrite])]
      exact ih hregions

/-- The sender asks for memory to be cleared that it cannot be. -/
def Unclearable (s : State) (caller : Option (ℕ × Vm.VmInfo)) (handle flags : ℕ) : Prop :=
  flags.testBit 0 = true ∧ ∃ c ∈ caller, ∃ share ∈ s.get handle,
    zeroMemRegion c.2 share.regions ≠ .ok ()

theorem memReclaim_cases (s : State) (caller : Option (ℕ × Vm.VmInfo)) (handle flags : ℕ) :
    (∃ reply, memReclaim s caller handle flags = .ok (reply, s) ∧ ∀ handle', reply
      ≠ .success handle') ∨
    (Unclearable s caller handle flags ∧ ∃ fault, memReclaim s caller handle flags = .error fault) ∨
    ∃ share, s.get handle = some share ∧ (∀ c ∈ caller, c.1 = share.senderId) ∧
      (∀ r ∈ share.receivers, r.refCount = 0) ∧
      memReclaim s caller handle flags = .ok (.success handle, s.remove share) := by
  rw [memReclaim]
  cases hget : s.get handle with
  | none => exact .inl ⟨_, rfl, nofun⟩
  | some share =>
    dsimp only
    split_ifs with hcaller hcount hclear
    · exact .inl ⟨_, rfl, nofun⟩
    · exact .inl ⟨_, rfl, nofun⟩
    all_goals
      have hcaller : ∀ c ∈ caller, c.1 = share.senderId := fun c hc => by
        subst hc
        simpa using hcaller
      have hcount : ∀ r ∈ share.receivers, r.refCount = 0 := by simpa using hcount
    · cases caller with
      | none => exact .inl ⟨_, rfl, nofun⟩
      | some c =>
        dsimp only
        cases hzero : zeroMemRegion c.2 share.regions with
        | ok => exact .inr (.inr ⟨share, rfl, hcaller, hcount, rfl⟩)
        | error fault =>
          exact .inr (.inl ⟨⟨hclear, c, rfl, share, hget, by simp [hzero]⟩, fault, rfl⟩)
    · exact .inr (.inr ⟨share, rfl, hcaller, hcount, rfl⟩)

theorem Inv.reclaim (h : Inv cfg own first s) (caller : Option (ℕ × Vm.VmInfo)) (handle flags : ℕ)
    (hF : Unclearable s caller handle flags → F) :
    Keeps cfg own first F (memReclaim s caller handle flags) := by
  rcases memReclaim_cases s caller handle flags with
    ⟨reply, heq, -⟩ | ⟨hun, fault, heq⟩ | ⟨share, hget, -, hcount, heq⟩
  · rw [heq]
    exact h
  · rw [heq]
    exact hF hun
  · rw [heq]
    exact h.remove ((get_mem hget).2 ▸ hget) hcount

/-! ## Sharing -/

theorem vmGetMobj_some {len l : ℕ} {mobj : Vm.Mobj} {prot : Vm.Prot}
    (h : Vm.vmGetMobj space va len = some (mobj, l, prot, offs)) :
    ∃ r ∈ space.regions, r.va ≤ va ∧ va < r.endVa ∧ Vm.PageAligned len ∧ Vm.PageAligned va ∧
      mobj = r.mobj ∧ l = min (r.size - (va - r.va)) len ∧ offs = r.offset + (va - r.va) := by
  rw [Vm.vmGetMobj] at h
  split_ifs at h with haligned
  split at h
  · cases h
  · rename_i before r after hfind
    cases h
    obtain ⟨hl, h₁, h₂⟩ := Vm.findVmRegion_some hfind
    exact ⟨r, by simp [hl], h₁, h₂, haligned.1, haligned.2, rfl, rfl, rfl⟩

/-- A region lies in a mapping. -/
structure PartOf (r : Vm.VmRegion) (reg : MapRegion) : Prop where
  mobj : reg.mobj = r.mobj
  low : r.offset ≤ reg.pageOffset
  pos : 0 < reg.pageCount
  high : reg.pageOffset + reg.pageCount * smallPageSize ≤ r.offset + r.size

theorem partOf_vmGetMobj {len l : ℕ} {mobj : Vm.Mobj} {prot : Vm.Prot}
    (hok : Vm.SpaceOk cfg.vm space.regions) (hpos : 0 < len)
    (h : Vm.vmGetMobj space va len = some (mobj, l, prot, offs)) :
    0 < l ∧ l ≤ len ∧ ∃ r ∈ space.regions, PartOf r ⟨mobj, offs, l / smallPageSize⟩ := by
  obtain ⟨r, hr, h₁, h₂, hlen, hva, rfl, rfl, rfl⟩ := vmGetMobj_some h
  have hrva := (hok.ok r hr).va
  have hrsize := (hok.ok r hr).size
  rw [Vm.PageAligned, show smallPageSize = 4096 from rfl] at hlen hva hrva hrsize
  rw [Vm.VmRegion.endVa] at h₂
  have haligned : min (r.size - (va - r.va)) len % 4096 = 0 := by omega
  have hl : 0 < min (r.size - (va - r.va)) len := by omega
  refine ⟨hl, by omega, r, hr, rfl, Nat.le_add_right _ _, ?_, ?_⟩ <;> dsimp only <;>
    rw [smallPageSize] <;> omega

/-- A region has nothing in common with what is shared already. -/
def NewOk (own : ℕ → List Piece) (first endpoint : ℕ) (s : State) (reg : MapRegion) : Prop :=
  RegionOk own first s.nextMobj endpoint reg ∧
    ∀ share ∈ s.shares, ∀ reg' ∈ share.regions, reg.mobj = reg'.mobj →
      reg.mobj.id < first ∧ ¬ reg.piece.Overlaps reg'.piece

/-- A request is refused, or stops the core for want of memory. -/
def Stop.Allowed (alloc : Bool) : Stop → Prop
  | .err _ => True
  | .fault _ => alloc = false

section

variable (h : Inv cfg own first s) (hown : OwnOk own first)
  (hspace : s.spaces endpoint = some space)
include h hown hspace

theorem Inv.new_region {r : Vm.VmRegion} (hr : r ∈ space.regions)
    (hpart : PartOf r ⟨reg.mobj, offs, reg.pageCount⟩) (hoffs : reg.pageOffset = offs % 2 ^ 32)
    (hcount : reg.pageCount < 2 ^ 20) (hshared : isShared s.shares reg = false) :
    NewOk own first endpoint s reg := by
  obtain ⟨hmobj, hlow, hpos, hhigh⟩ := hpart
  dsimp only at hmobj hlow hpos hhigh
  have hinv := h.spaces endpoint space hspace
  have hshared : ∀ share ∈ s.shares, ∀ reg' ∈ share.regions, reg.mobj = reg'.mobj →
      reg.pageOffset < reg'.endOffs → reg.endOffs ≤ reg'.pageOffset := by
    intro share hshare reg' hreg' hmobj' hlt
    by_contra hge
    have : isShared s.shares reg = true :=
      List.any_eq_true.2 ⟨share, hshare,
        List.any_eq_true.2 ⟨reg', hreg', by simp [hmobj', hlt, Nat.not_le.1 hge]⟩⟩
    rw [hshared] at this
    cases this
  rcases hinv.origin (List.mem_map_of_mem hr) with hp
    | ⟨share, hshare, hcount', reg', hreg', hpiece⟩
  · have hsmall := hown.small endpoint _ hp
    have hinside := (hinv.ok.ok r hr).inside_mobj
    have hold := hown.old endpoint _ hp
    dsimp only [pieceOf] at hsmall hold
    have hbound : offs + reg.pageCount * smallPageSize < 2 ^ 32 := by omega
    have heq : reg.pageOffset = offs := by omega
    have hend := MapRegion.endOffs_eq hcount (heq ▸ hbound)
    refine ⟨.inl ⟨⟨_, hp, hmobj.symm⟩, hcount, heq ▸ hbound⟩,
      fun share hshare reg' hreg' hmobj' => ?_⟩
    refine ⟨hmobj ▸ hold, fun ⟨_, x, h₁, h₂, h₃, h₄⟩ => ?_⟩
    rcases (h.shares share hshare).regions reg' hreg' with ⟨-, hcount', hbound'⟩ | ⟨hfirst, -, -⟩
    · have hend' := MapRegion.endOffs_eq hcount' hbound'
      have := hshared share hshare reg' hreg' hmobj'
      simp only [MapRegion.piece] at h₁ h₂ h₃ h₄
      omega
    · rw [← hmobj', hmobj] at hfirst
      omega
  · -- memory that the sender has retrieved itself is still shared
    obtain ⟨hpos', hlt'⟩ := Mappable.pos (h.mappable share hshare endpoint hcount') hreg'
    have hmobj' : reg.mobj = reg'.mobj := hmobj.trans (congrArg Piece.mobj hpiece).symm
    have hoffset' : reg'.pageOffset = r.offset := congrArg Piece.offset hpiece
    have hsize' : reg'.pageCount * smallPageSize = r.size := congrArg Piece.size hpiece
    have hbound' : reg'.pageOffset + reg'.pageCount * smallPageSize < 2 ^ 32 := by
      rcases (h.shares share hshare).regions reg' hreg' with ⟨-, -, hbound⟩ | ⟨-, -, hzero⟩
      · exact hbound
      · rw [hzero, smallPageSize]
        omega
    have hend' := MapRegion.endOffs_eq hlt' hbound'
    have heq : reg.pageOffset = offs := by omega
    have hend := MapRegion.endOffs_eq hcount (by omega)
    have := hshared share hshare reg' hreg' hmobj'
    rw [smallPageSize] at *
    omega

theorem Inv.addSpRegion (perm : ℕ) (alloc : Bool) (rounds va regionLen : ℕ)
    (hlen : regionLen < 2 ^ 32) (hregions : ∀ reg ∈ regions, NewOk own first endpoint s reg) :
    EndsIn (fun regions' => ∀ reg ∈ regions', NewOk own first endpoint s reg) (Stop.Allowed alloc)
      (addSpRegion cfg s.shares space perm alloc rounds va regionLen regions) := by
  induction rounds generalizing va regionLen regions with
  | zero =>
    cases regionLen with
    | zero => exact hregions
    | succ _ => trivial
  | succ rounds ih =>
    cases regionLen with
    | zero => exact hregions
    | succ k =>
      rw [SpmcSp.addSpRegion.eq_3 _ _ _ _ _ _ _ _ _ (Nat.succ_ne_zero k)]
      split
      · trivial
      · rename_i mobj len prot offs hget
        dsimp only
        split_ifs with hrw hexe halloc hshared
        · trivial
        · trivial
        · exact (by simpa using halloc : alloc = false)
        · trivial
        · obtain ⟨-, hle, r, hr, hpart⟩ :=
            partOf_vmGetMobj (h.spaces endpoint space hspace).ok (Nat.succ_pos k) hget
          have hcount : len / smallPageSize < 2 ^ 20 := by
            rw [smallPageSize]
            omega
          refine ih _ _ (by omega) (List.forall_mem_cons.2 ⟨?_, hregions⟩)
          exact h.new_region hown hspace hr hpart rfl hcount (by simpa using hshared)

theorem Inv.addSpRegions (perm : ℕ) (alloc : Bool) (rxtx : RxTx) (ranges : List ℕ)
    (hregions : ∀ reg ∈ regions, NewOk own first endpoint s reg) :
    EndsIn (fun regions' => ∀ reg ∈ regions', NewOk own first endpoint s reg) (Stop.Allowed alloc)
      (addSpRegions cfg s.shares space perm alloc rxtx ranges regions) := by
  induction ranges generalizing regions with
  | nil => exact hregions
  | cons offs ranges ih =>
    rw [SpmcSp.addSpRegions]
    split_ifs
    · trivial
    · exact (h.addSpRegion hown hspace perm alloc _ _ _ (Nat.mod_lt _ (by decide)) hregions).bind
        fun _ => ih

end

/-- The receivers are different partitions that the descriptor names. -/
structure ReceiversOk (session : ℕ → Bool) (buf : Buffer) (offs : ℕ) (is : List ℕ)
    (receivers : List SpMem.Receiver) : Prop where
  nodup : (receivers.map SpMem.Receiver.endpointId).Nodup
  named : ∀ r ∈ receivers, session r.endpointId = true ∧ ∃ i ∈ is,
    r.endpointId = endpointId buf (offs + 16 * i)

theorem addReceivers_ok {spcfg : SpMem.Config} {all is : List ℕ} {receivers : List SpMem.Receiver}
    (hsub : ∀ i ∈ is, i ∈ all) (h : ReceiversOk spcfg.session buf offs all receivers) :
    EndsIn (ReceiversOk spcfg.session buf offs all) (fun _ => True)
      (SpMem.addReceivers spcfg buf offs is receivers) := by
  induction is generalizing receivers with
  | nil => exact h
  | cons i is ih =>
    have hadd : EndsIn (ReceiversOk spcfg.session buf offs all) (fun _ => True)
        (SpMem.addMemRegionToSp spcfg buf (offs + 16 * i) receivers) := by
      rw [SpMem.addMemRegionToSp]
      split_ifs with hsession hany
      all_goals first | trivial | skip
      refine ⟨List.nodup_cons.2 ⟨fun hmem => hany ?_, h.nodup⟩,
        List.forall_mem_cons.2 ⟨⟨by simpa using hsession, i, hsub i List.mem_cons_self, rfl⟩,
        h.named⟩⟩
      obtain ⟨r, hr, heq⟩ := List.mem_map.1 hmem
      exact List.any_eq_true.2 ⟨r, hr, decide_eq_true heq⟩
    exact hadd.bind fun _ hr => ih (fun j hj => hsub j (List.mem_cons_of_mem i hj)) hr

theorem RegionOk.mono {sender next' : ℕ} (hle : next ≤ next')
    (h : RegionOk own first next sender reg) :
    RegionOk own first next' sender reg :=
  h.imp_right fun ⟨h₁, h₂, h₃⟩ => ⟨h₁, h₂.trans_le hle, h₃⟩

theorem Inv.add (h : Inv cfg own first s) {i : ℕ} (hbit : s.freeBit = some i)
    {receivers : List SpMem.Receiver} (hnodup : (receivers.map SpMem.Receiver.endpointId).Nodup)
    (hsender : ∀ r ∈ receivers, r.endpointId ≠ memTrans.senderId)
    (hregions : ∀ reg ∈ regions, RegionOk own first (s.nextMobj + 1) memTrans.senderId reg)
    (hapart : ∀ share ∈ s.shares, ApartRegions first regions share.regions) :
    Inv cfg own first (s.add i memTrans regions receivers) := by
  have hfresh : i ∉ s.bits := by
    rw [State.freeBit] at hbit
    simpa using List.find?_some hbit
  have hzero : ∀ e, (s.add i memTrans regions receivers).shares.flatMap (Share.mappedIn e)
      = s.shares.flatMap (Share.mappedIn e) := by
    intro e
    rw [State.add, List.flatMap_cons, Share.mappedIn, refOf_of_all_zero, if_pos rfl,
      List.nil_append]
    intro r hr
    obtain ⟨_, _, rfl⟩ := List.mem_map.1 hr
    rfl
  refine ⟨h.next.trans (Nat.le_succ _), List.nodup_cons.2 ⟨fun hmem => ?_, h.handles⟩,
    List.forall_mem_cons.2 ⟨⟨i, List.mem_cons_self, rfl⟩, fun handle hhandle => ?_⟩,
    List.forall_mem_cons.2 ⟨⟨?_, fun hmem => ?_, hregions⟩, fun share hshare => ?_⟩,
    List.pairwise_cons.2 ⟨fun l hl => ?_, h.apart⟩,
    List.forall_mem_cons.2 ⟨fun e hne => ?_, h.mappable⟩, fun e space hspace => ?_⟩
  · obtain ⟨j, hj, heq⟩ := h.bits _ hmem
    exact hfresh (Nat.add_right_cancel heq ▸ hj)
  · obtain ⟨j, hj, heq⟩ := h.bits handle hhandle
    exact ⟨j, List.mem_cons_of_mem i hj, heq⟩
  · rwa [List.map_map]
  · simp only [List.map_map, List.mem_map, Function.comp_apply] at hmem
    obtain ⟨r, hr, heq⟩ := hmem
    exact hsender r hr heq
  · obtain ⟨h₁, h₂, h₃⟩ := h.shares share hshare
    exact ⟨h₁, h₂, fun reg hreg => (h₃ reg hreg).mono (Nat.le_succ _)⟩
  · obtain ⟨share, hshare, rfl⟩ := List.mem_map.1 hl
    exact hapart share hshare
  · refine absurd (refOf_of_all_zero fun r hr => ?_) hne
    obtain ⟨_, _, rfl⟩ := List.mem_map.1 hr
    rfl
  · obtain ⟨hok, htail, hmapped⟩ := h.spaces e space hspace
    exact ⟨hok, htail, by rw [hzero]; exact hmapped⟩

/-- What is asked of a share before it is added. -/
structure NewShare (own : ℕ → List Piece) (first sender : ℕ) (s : State)
    (new : List MapRegion × List SpMem.Receiver) : Prop where
  nodup : (new.2.map SpMem.Receiver.endpointId).Nodup
  others : ∀ r ∈ new.2, r.endpointId ≠ sender
  regions : ∀ reg ∈ new.1, RegionOk own first (s.nextMobj + 1) sender reg
  apart : ∀ share ∈ s.shares, ApartRegions first new.1 share.regions

theorem endsIn_mapError {α : Type} {P : α → Prop} {b : Bool} {x : Except Err α}
    (h : EndsIn P (fun _ => True) x) :
    EndsIn P (Stop.Allowed b) (x.mapError .err) := by
  cases x with
  | ok a => exact h
  | error e => trivial

theorem receiversOk_nil {session : ℕ → Bool} {is : List ℕ} :
    ReceiversOk session buf offs is [] := ⟨List.nodup_nil, nofun⟩

theorem Inv.addSpShare (h : Inv cfg own first s) (hown : OwnOk own first)
    (hspace : s.spaces endpoint = some space) (hnames : namesNot memTrans rxtx.rx endpoint = true) :
    EndsIn (NewShare own first memTrans.senderId s)
      (Stop.Allowed alloc.region) (addSpShare cfg s alloc endpoint space memTrans rxtx blen) := by
  rw [SpmcSp.addSpShare]
  split_ifs with hmem howner hcount hlen
  · trivial
  · trivial
  · trivial
  · trivial
  refine (h.addSpRegions hown hspace _ _ _ _ (List.forall_mem_nil _)).bind fun regions hregions =>
    ?_
  refine (endsIn_mapError (addReceivers_ok (fun i hi => hi) receiversOk_nil)).bind
    fun receivers hreceivers => ?_
  have hsame : endpoint = memTrans.senderId := not_not.1 howner
  refine ⟨hreceivers.nodup, fun r hr => ?_, fun reg hreg => ?_,
    fun share hshare reg hreg => (hregions reg hreg).2 share hshare⟩
  · obtain ⟨-, i, hi, heq⟩ := hreceivers.named r hr
    have := List.all_eq_true.1 hnames i hi
    rw [heq, ← hsame]
    simpa using this
  · rw [← hsame]
    exact (hregions reg hreg).1.mono (Nat.le_succ _)

theorem spMem_addShare_ok {spcfg : SpMem.Config} :
    EndsIn (fun new : SpMem.Share => spcfg.session memTrans.senderId = false ∧
        ReceiversOk spcfg.session buf memTrans.memAccessOffs
          (List.range memTrans.memAccessCount) new.receivers)
      (fun _ => True) (SpMem.addShare spcfg memTrans buf blen) := by
  rw [SpMem.addShare]
  split_ifs with hmem hsession
  · trivial
  · trivial
  · trivial
  · trivial
  have hregion : EndsIn (fun _ => True) (fun _ => True)
      (SpMem.addNwRegion spcfg buf (SpMem.regionOffs memTrans buf)) := by
    cases SpMem.addNwRegion spcfg buf (SpMem.regionOffs memTrans buf) <;> trivial
  refine hregion.bind fun _ _ => (addReceivers_ok (fun i hi => hi) receiversOk_nil).bind
    fun receivers hreceivers => ?_
  exact ⟨by simpa using hsession, hreceivers⟩

theorem Inv.addNwShare (h : Inv cfg own first s) (hown : OwnOk own first) :
    EndsIn (NewShare own first memTrans.senderId s) (Stop.Allowed true)
      (addNwShare cfg s alloc memTrans rxtx blen) := by
  refine (endsIn_mapError spMem_addShare_ok).bind fun new ⟨hsession, hreceivers⟩ => ?_
  refine ⟨hreceivers.nodup, fun r hr heq => ?_, fun reg hreg => ?_,
    fun share hshare reg hreg reg' hreg' hmobj => ?_⟩
  · have := (hreceivers.named r hr).1
    rw [heq, hsession] at this
    cases this
  · cases List.mem_singleton.1 hreg
    exact .inr ⟨h.next, Nat.lt_succ_self _, rfl⟩
  · cases List.mem_singleton.1 hreg
    have hid : reg'.mobj.id = s.nextMobj := (congrArg Vm.Mobj.id hmobj).symm
    have hnext := h.next
    rcases (h.shares share hshare).regions reg' hreg' with ⟨⟨p, hp, hmobj'⟩, -, -⟩ | ⟨-, hlt, -⟩
    · have := hown.old _ p hp
      rw [hmobj'] at this
      omega
    · omega

theorem Inv.addShare (h : Inv cfg own first s) {owner : Option (ℕ × Vm.VmInfo)} {b : Bool}
    (hnew : EndsIn (NewShare own first memTrans.senderId s) (Stop.Allowed b)
      (newShare cfg s alloc owner memTrans rxtx blen)) :
    Keeps cfg own first (b = false) (addShare cfg s alloc owner memTrans rxtx blen) := by
  unfold SpmcSp.addShare
  cases hbit : s.freeBit with
  | none => exact h
  | some i =>
    dsimp only
    generalize newShare cfg s alloc owner memTrans rxtx blen = x at hnew ⊢
    match x, hnew with
    | .ok (regions, receivers), hnew =>
      exact h.add hbit hnew.nodup hnew.others hnew.regions hnew.apart
    | .error (.err _), _ => exact h
    | .error (.fault _), hfault => exact hfault

/-- A sound request keeps the invariant, or stops the core if it is not spared. -/
theorem Inv.respond (h : Inv cfg own first s) (hown : OwnOk own first) {req : Request}
    (hsound : sound s req = true) :
    Keeps cfg own first (spared s req = false) (respond cfg s req) := by
  have hwith : ∀ endpoint handle, (∀ space, s.spaces endpoint = some space →
      Keeps cfg own first (spared s req = false) (handle space)) →
      Keeps cfg own first (spared s req = false) (s.withSpace endpoint handle) := by
    intro endpoint handle hkeeps
    rw [State.withSpace]
    split
    · exact h
    · exact hkeeps _ ‹_›
  cases req with
  | share endpoint alloc rxtx totLen fragLen =>
    refine hwith endpoint _ fun space hspace => ?_
    rw [handleMemShare]
    split_ifs
    · exact h
    · exact h
    cases hread : readMemTransaction rxtx.version11 rxtx.rx fragLen with
    | error err => exact h
    | ok memTrans =>
      simp only [sound, hread] at hsound
      exact h.addShare (h.addSpShare hown hspace hsound)
  | shareNw alloc rxtx totLen fragLen =>
    simp only [SpmcSp.respond, handleMemShareNw]
    split_ifs
    · exact h
    cases hread : readMemTransaction rxtx.version11 rxtx.rx fragLen with
    | error err => exact h
    | ok memTrans =>
      dsimp only
      split_ifs
      · exact h
      · exact h.addShare (h.addNwShare hown)
  | retrieve endpoint env rxtx totLen fragLen =>
    exact hwith endpoint _ fun space hspace => h.retrieve hspace hsound
  | relinquish endpoint env rxtx =>
    exact hwith endpoint _ fun space hspace => h.relinquish hown hspace hsound
  | reclaim endpoint handle flags =>
    refine hwith endpoint _ fun space hspace => h.reclaim _ handle flags fun hun => ?_
    obtain ⟨hclear, c, hc, share, hshare, hzero⟩ := hun
    cases hc
    by_contra hspared
    simp only [spared, Bool.not_eq_false, hclear, hspace, Option.mem_def.1 hshare, Bool.not_true,
      Bool.false_or, Option.all_some, List.all_eq_true] at hspared
    exact hzero (zeroMemRegion_eq_ok hspared)
  | reclaimNw handle flags =>
    refine h.reclaim none handle flags fun hun => ?_
    obtain ⟨-, c, hc, -⟩ := hun
    cases hc

/-! ## The protocol -/

/-- The state at boot: nothing is shared, and partitions have memory of their own. -/
structure Start (cfg : Config) (s : State) : Prop where
  shares : s.shares = []
  ok : ∀ e space, s.spaces e = some space → Vm.SpaceOk cfg.vm space.regions ∧ space.tail = true
  small : ∀ e space, s.spaces e = some space → ∀ r ∈ space.regions,
    roundup smallPageSize r.mobj.size < 2 ^ 32 ∧ r.mobj.id < s.nextMobj
  apart : ∀ e e' space space', e ≠ e' → s.spaces e = some space → s.spaces e' = some space' →
    ∀ r ∈ space.regions, ∀ r' ∈ space'.regions, r.mobj ≠ r'.mobj

/-- What a partition maps at the start. -/
def ownOf (s : State) (endpoint : ℕ) : List Piece := ((s.spaces endpoint).map pieces).getD []

theorem mem_ownOf (h : p ∈ ownOf s e) :
    ∃ space, s.spaces e = some space ∧ ∃ r ∈ space.regions, pieceOf r = p := by
  rw [ownOf] at h
  cases hspace : s.spaces e with
  | none => simp [hspace] at h
  | some space =>
    rw [hspace] at h
    exact ⟨space, rfl, List.mem_map.1 h⟩

theorem Start.ownOk (h : Start cfg s) : OwnOk (ownOf s) s.nextMobj := by
  refine ⟨fun e p hp => ?_, fun e p hp => ?_, fun e e' hne p hp q hq => ?_⟩
  · obtain ⟨space, hspace, r, hr, rfl⟩ := mem_ownOf hp
    exact (h.small e space hspace r hr).1
  · obtain ⟨space, hspace, r, hr, rfl⟩ := mem_ownOf hp
    exact (h.small e space hspace r hr).2
  · obtain ⟨space, hspace, r, hr, rfl⟩ := mem_ownOf hp
    obtain ⟨space', hspace', r', hr', rfl⟩ := mem_ownOf hq
    exact h.apart e e' space space' hne hspace hspace' r hr r' hr'

theorem Start.inv (h : Start cfg s) : Inv cfg (ownOf s) s.nextMobj s := by
  refine ⟨le_rfl, ?_, ?_, ?_, ?_, ?_, fun e space hspace => ?_⟩
  case refine_6 =>
    refine ⟨(h.ok e space hspace).1, (h.ok e space hspace).2, ?_⟩
    simp [h.shares, ownOf, hspace]
  all_goals simp [h.shares]

/-- The partition and the handle that a request names. -/
def Request.names : Request → Option (ℕ × ℕ)
  | .retrieve endpoint _ rxtx _ _ =>
    some (endpoint, (rawTransaction rxtx.version11 rxtx.rx).globalHandle)
  | .relinquish endpoint _ rxtx => some (endpoint, readField rxtx.rx 0 8)
  | _ => none

section

variable (h : Inv cfg own first s)
include h

theorem Inv.get_remove (hget : s.get handle = some share) : (s.remove share).get handle = none := by
  obtain ⟨l₁, l₂, hl, rfl, hne⟩ := split_of_get h.handles hget
  rw [State.get, State.remove, hl, List.find?_eq_none]
  intro a ha
  rw [List.eraseP_append_right _ fun a ha => by simpa using hne a (List.mem_append_left l₂ ha),
    List.eraseP_cons_of_pos (by simp)] at ha
  simpa using hne a ha

theorem Inv.unmapped (hown : OwnOk own first) (hshare : share ∈ s.shares)
    (hr : share.receiver e = some receiver) (hspace : s.spaces e = some space)
    (hzero : receiver.refCount = 0) (hreg : reg ∈ share.regions)
    (hp : p ∈ pieces space) : ¬ p.Overlaps reg.piece := by
  intro hover
  rcases (h.spaces e space hspace).origin hp with hp | ⟨share', hshare', hcount', reg', hreg', rfl⟩
  · exact h.not_own hown hshare hr hreg hp hover.1
  · have hne : share' ≠ share := by
      rintro rfl
      exact hcount' ((refOf_eq hr).trans hzero)
    exact (h.apart_of_ne hshare' hshare hne reg' hreg' reg hreg hover.1).2 hover

end

def smallConfig : Config where
  vm := { Vm.lpaeConfig with paddrBits := 32, bits_le := by decide }
  mem := ThreadSpmc.smallConfig.mem
  myEndpointId := 0x8000
  bits_ge := by decide

/-- Two pages of a partition. -/
def ownRegion : Vm.VmRegion where
  mobj := ⟨0, 2 ^ 13, false, true, some 1, 0⟩
  offset := 0
  va := 2 ^ 30
  size := 2 ^ 13
  attr := ⟨1, true, Vm.Prot.prwUrw⟩
  flags := Vm.VmFlags.none

/-- Two partitions, one of which has memory. -/
def twoPartitions : State where
  bits := []
  shares := []
  spaces e := if e = 0x8001 then some ⟨[ownRegion], true⟩
    else if e = 0x8002 then some Vm.VmInfo.empty else none
  nextMobj := 1

def ofBytes (bytes : List UInt8) : RxTx := ⟨true, 4096, false, true, fun i => bytes.getD i 0⟩

def descriptor (sender senderHigh endpoint handle pages count : UInt8)
    (ranges : List UInt8) : RxTx :=
  ofBytes ([sender, senderHigh, 0x2f, 0, 0, 0, 0, 0, 0, 0, 0, 0, 0, handle, 0, 0, 0, 0, 0, 0, 0, 0,
    0, 0, 0, 0, 0, 0, 1, 0, 0, 0, endpoint, 0x80, 2, 0, 48, 0, 0, 0, 0, 0, 0, 0, 0, 0, 0, 0, pages,
    0, 0, 0, count, 0, 0, 0, 0, 0, 0, 0, 0, 0, 0, 0] ++ ranges)

def allGood : Alloc := ⟨true, fun _ => true, true, true⟩

def nwShare : Request :=
  .shareNw allGood (descriptor 0 0 1 0 1 1 [0, 0x10, 0, 0, 0, 0, 0, 0, 1, 0, 0, 0, 0, 0,
    0, 0]) 80 80

def retrieveBy (endpoint : ℕ) (low : UInt8) : Request :=
  .retrieve endpoint (fun _ => Vm.Env.good) (descriptor 0 0 low 0x20 0 0 []) 80 80

theorem start_twoPartitions : Start smallConfig twoPartitions := by
  have hspaces : ∀ e space, twoPartitions.spaces e = some space →
      e = 0x8001 ∧ space = ⟨[ownRegion], true⟩ ∨ e = 0x8002 ∧ space = Vm.VmInfo.empty := by
    intro e space h
    simp only [twoPartitions] at h
    split_ifs at h with h₁ h₂
    · exact .inl ⟨h₁, by cases h; rfl⟩
    · exact .inr ⟨h₂, by cases h; rfl⟩
  refine ⟨rfl, fun e space h => ?_, fun e space h r hr => ?_,
    fun e e' space space' hne h h' r hr r' hr' => ?_⟩
  · rcases hspaces e space h with ⟨-, rfl⟩ | ⟨-, rfl⟩
    · refine ⟨⟨fun r hr => ?_, List.pairwise_singleton _ _⟩, rfl⟩
      cases List.mem_singleton.1 hr
      constructor <;> decide +kernel
    · exact ⟨Vm.SpaceOk.nil, rfl⟩
  · rcases hspaces e space h with ⟨-, rfl⟩ | ⟨-, rfl⟩
    · cases List.mem_singleton.1 hr
      constructor <;> decide +kernel
    · cases hr
  · rcases hspaces e space h with ⟨rfl, rfl⟩ | ⟨rfl, rfl⟩
    · rcases hspaces e' space' h' with ⟨rfl, rfl⟩ | ⟨rfl, rfl⟩
      · exact absurd rfl hne
      · cases hr'
    · cases hr

/-- What is mapped in a partition is what it started with and the regions of the shares that it has
retrieved and not relinquished, each once. -/
theorem spaces_exact (cfg : Config) (init : State) (hstart : Start cfg init) (reqs : List Request)
    {s : State} (hsound : Guarded (fun s req => sound s req = true) (step cfg) init reqs)
    (hrun : exec (step cfg) init reqs = .ok s) {e : ℕ} {space : Vm.VmInfo}
    (hspace : s.spaces e = some space) :
    (pieces space).Perm (ownOf init e ++ s.shares.flatMap (Share.mappedIn e))
      ∧ Vm.SpaceOk cfg.vm space.regions := by
  have hinv : Inv cfg (ownOf init) init.nextMobj s := by
    refine exec_invariant (fun s req s' h hreq hs => ?_) hstart.inv hsound hrun
    rw [step] at hs
    cases hres : respond cfg s req <;> rw [hres] at hs <;> cases hs
    exact (h.respond hstart.ownOk hreq).of_ok hres
  exact ⟨(hinv.spaces e space hspace).mapped, (hinv.spaces e space hspace).ok⟩

theorem spaces_exact_retrieved :
    ∃ s space,
    exec (step smallConfig) twoPartitions [nwShare, retrieveBy 0x8001 1] = .ok s ∧
      s.spaces 0x8001 = some space ∧
      (pieces space).Perm (ownOf twoPartitions 0x8001 ++ s.shares.flatMap (Share.mappedIn 0x8001)) ∧
      (pieces space).length = 2 := by
  obtain ⟨s, hs, hspace⟩ := exists_ok_of_decide
    (r := exec (step smallConfig) twoPartitions [nwShare, retrieveBy 0x8001 1])
    (P := fun s => (s.spaces 0x8001).map (fun space => (pieces space).length) = some 2)
    (by decide +kernel)
  obtain ⟨space, hspace, hlen⟩ := Option.map_eq_some_iff.1 hspace
  exact ⟨s, space, hs, hspace,
    (spaces_exact smallConfig twoPartitions start_twoPartitions _ (by decide +kernel) hs hspace).1,
    hlen⟩

end Optee.SpmcSp
