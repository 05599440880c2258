import Optee.Proofs.ThreadSpmc
import Optee.Result
import Optee.SpMem

/-!
# Pages of shared objects

The page entries of the objects that the normal world gets registered. The address of a range need
not be at a page boundary. For memory shared with secure partitions, moreover, less is checked
(`shared_pages_bad`).
-/

namespace Optee.ThreadSpmc

open Ffa

variable {cfg : Config} {s : State} {mem : Memory} {Sent : AddressRange → Prop}
  {obj obj' : PageList} {idx idx' offs flen blen : ℕ} {ranges : List AddressRange} {buf : Buffer}

/-! ## Memory shared with OP-TEE -/

/-- The object has the pages of ranges that were sent. -/
structure ObjOk (mem : Memory) (Sent : AddressRange → Prop) (obj : PageList) (idx : ℕ) : Prop where
  filled : Filled mem obj idx
  counted : idx ≤ obj.ffaPageCount
  sent : ∀ r ∈ obj.ranges, Sent r

theorem objOk_new (mem : Memory) (n : ℕ) : ObjOk mem Sent (.new n) 0 :=
  ⟨filled_new mem n, Nat.zero_le _, nofun⟩

theorem ObjOk.addPagesAt {r : AddressRange} (h : ObjOk mem Sent obj idx) (hsent : Sent r)
    (hadd : obj.ffaAddPagesAt mem idx r = some (obj', idx')) :
    ObjOk mem Sent obj' idx' ∧ obj'.numPages = obj.numPages := by
  obtain ⟨hfilled, hnum, hranges⟩ := h.filled.addPages (ffaPageCount_le obj) hadd
  have hcounted : idx' ≤ obj.ffaPageCount := by
    rw [PageList.ffaAddPagesAt, PageList.addPages] at hadd
    split_ifs at hadd with hroom
    cases hadd
    omega
  refine ⟨⟨hfilled, ?_, fun r' hr' => ?_⟩, hnum⟩
  · rwa [PageList.ffaPageCount, hnum, ← PageList.ffaPageCount]
  · rw [hranges] at hr'
    rcases List.mem_append.1 hr' with hr' | hr'
    · exact h.sent r' hr'
    · exact List.mem_singleton.1 hr' ▸ hsent

theorem ObjOk.addRanges (h : ObjOk mem Sent obj idx) (hsent : ∀ r ∈ ranges, Sent r)
    (hadd : addRanges mem obj idx ranges = some (obj', idx')) :
    ObjOk mem Sent obj' idx' ∧ obj'.numPages = obj.numPages := by
  induction ranges generalizing obj idx with
  | nil =>
    cases hadd
    exact ⟨h, rfl⟩
  | cons r ranges ih =>
    obtain ⟨⟨obj₁, idx₁⟩, hfirst, hrest⟩ := Option.bind_eq_some_iff.1 hadd
    obtain ⟨h₁, hnum⟩ := h.addPagesAt (hsent r List.mem_cons_self) hfirst
    obtain ⟨h', hnum'⟩ := ih h₁ (fun r' hr' => hsent r' (List.mem_cons_of_mem r hr')) hrest
    exact ⟨h', hnum'.trans hnum⟩

/-- The ranges that are read from a buffer, at most `count` of them, were sent. -/
def Reads (Sent : AddressRange → Prop) (buf : Buffer) (offs flen count : ℕ) : Prop :=
  ∀ k ≤ count, 16 * k ≤ flen → ∀ r ∈ readRanges buf offs k, Sent r

/-- The share has the pages it should have so far. -/
structure ShareOk (mem : Memory) (Sent : AddressRange → Prop) (share : MemShareState) : Prop where
  obj : ObjOk mem Sent share.mf.obj share.currentPageIdx
  pageCount : share.pageCount = share.mf.obj.numPages

/-- All objects have the pages of ranges that were sent. -/
structure StateOk (mem : Memory) (Sent : AddressRange → Prop) (s : State) : Prop where
  inactive : ∀ mf ∈ s.inactive, ObjOk mem Sent mf.obj mf.obj.numPages
  frags : ∀ frag ∈ s.frags, ShareOk mem Sent frag.share

theorem ShareOk.helper {share share' : MemShareState} {rc : ℤ} (h : ShareOk mem Sent share)
    (hreads : Reads Sent buf offs flen share.regionCount)
    (hok : addMemShareHelper mem share buf offs flen = .ok (share', rc)) :
    ShareOk mem Sent share' ∧
      (share'.regionCount = 0 → ObjOk mem Sent share'.mf.obj share'.mf.obj.numPages) := by
  rw [addMemShareHelper] at hok
  split at hok
  · cases hok
  · rename_i obj idx hadd
    obtain ⟨hobj, hnum⟩ := h.obj.addRanges (hreads _ (Nat.min_le_right ..) (by omega)) hadd
    have hpages : share.pageCount = obj.numPages := h.pageCount.trans hnum.symm
    simp only at hok
    split_ifs at hok with hmore hidx
    · cases hok
      exact ⟨⟨hobj, hpages⟩, fun hzero => absurd hzero hmore⟩
    · cases hok
      rw [not_not] at hidx
      exact ⟨⟨hobj, hpages⟩, fun _ => by rw [← hpages, ← hidx]; exact hobj⟩

theorem StateOk.push {mf : Mobj} (h : StateOk mem Sent s)
    (hmf : ObjOk mem Sent mf.obj mf.obj.numPages) :
    StateOk mem Sent (pushToInactive s mf) :=
  ⟨List.forall_mem_cons.2 ⟨hmf, h.inactive⟩, h.frags⟩

theorem StateOk.delete {mf : Mobj} (h : StateOk mem Sent s) :
    StateOk mem Sent (spmcDelete cfg s mf) := by
  rw [spmcDelete]
  split_ifs
  · exact ⟨h.inactive, h.frags⟩
  · exact h

theorem StateOk.setFrags {l : List MemFragState} (h : StateOk mem Sent s)
    (hl : ∀ frag ∈ l, ShareOk mem Sent frag.share) : StateOk mem Sent { s with frags := l } :=
  ⟨h.inactive, hl⟩

theorem StateOk.addMemShareFrag {frag : MemFragState} {unlink : List MemFragState}
    {relink : MemFragState → List MemFragState} (h : StateOk cfg.mem Sent s)
    (hfrag : ShareOk cfg.mem Sent frag.share)
    (hreads : Reads Sent buf offs flen frag.share.regionCount)
    (hunlink : ∀ f ∈ unlink, ShareOk cfg.mem Sent f.share)
    (hrelink : ∀ frag', ShareOk cfg.mem Sent frag'.share →
      ∀ f ∈ relink frag', ShareOk cfg.mem Sent f.share) :
    StateOk cfg.mem Sent (addMemShareFrag cfg s frag unlink relink buf offs flen).2 := by
  rw [ThreadSpmc.addMemShareFrag, fragStep]
  cases hhelper : addMemShareHelper cfg.mem frag.share buf offs flen with
  | error err => exact (h.setFrags hunlink).delete
  | ok x =>
    obtain ⟨share', rc⟩ := x
    obtain ⟨hshare, hdone⟩ := hfrag.helper hreads hhelper
    simp only
    split_ifs with hneg hlarge hmore
    · exact (h.setFrags hunlink).delete
    · exact (h.setFrags hunlink).delete
    · exact h.setFrags (hrelink _ hshare)
    · exact (h.setFrags hunlink).push (hdone (not_not.1 hmore))

theorem StateOk.addMemShare {memTrans : MemTransaction} {mm : Option ℕ} (h : StateOk cfg.mem Sent s)
    (hreads : ∀ header, memShareInit cfg.myEndpointId memTrans buf flen = .ok header →
      Reads Sent buf header.addrRangeOffs (flen - header.addrRangeOffs) header.regionCount) :
    StateOk cfg.mem Sent (addMemShare cfg s memTrans mm buf blen flen).2 := by
  rw [ThreadSpmc.addMemShare]
  cases hinit : memShareInit cfg.myEndpointId memTrans buf flen with
  | error err => exact h
  | ok header =>
    replace hreads := hreads header hinit
    simp only
    by_cases hfits : blen < header.regionCount * 16 + header.addrRangeOffs
    · rw [if_pos hfits]
      exact h
    rw [if_neg hfits]
    split
    · exact h
    · rename_i mf s₁ hnew
      obtain ⟨hobj, hinactive, hfrags, -⟩ := spmcNew_spec hnew
      have h₁ : StateOk cfg.mem Sent s₁ := ⟨hinactive ▸ h.inactive, hfrags ▸ h.frags⟩
      have hshare : ShareOk cfg.mem Sent ⟨mf, header.pageCount, header.regionCount, 0⟩ := by
        refine ⟨?_, ?_⟩
        · simp only [hobj]
          exact objOk_new cfg.mem header.pageCount
        · simp only [hobj]
          rfl
      by_cases hwhole : flen = blen
      · have hall : 16 * header.regionCount ≤ flen - header.addrRangeOffs := by omega
        rw [if_neg (not_not.2 hwhole)]
        split
        · rename_i share' hhelper
          obtain ⟨-, hdone⟩ := hshare.helper hreads hhelper
          refine h₁.push (hdone ?_)
          rw [addMemShareHelper_whole hall] at hhelper
          split at hhelper
          · cases hhelper
          · split_ifs at hhelper
            cases hhelper
            rfl
        · exact h₁.delete
        · exact h₁.delete
      · rw [if_pos hwhole]
        split_ifs
        · exact h₁.delete
        · exact h₁.addMemShareFrag hshare hreads h₁.frags fun frag' hfrag' =>
            List.forall_mem_cons.2 ⟨hfrag', h₁.frags⟩

/-! ## Requests -/

/-- A share, or a fragment of one. -/
inductive Request where
  | share (args : ShareArgs)
  | frag (handle flen : ℕ) (buf : Buffer)

/-- The state after a request. -/
def State.request (cfg : Config) (s : State) : Request → State
  | .share args => (handleMemShare cfg s args fun _ => (.success 0, s)).2
  | .frag handle flen buf => (handleMemFragTx cfg s handle flen buf).2

/-- The state after some requests. -/
def State.requests (cfg : Config) (s : State) (reqs : List Request) : State :=
  reqs.foldl (State.request cfg) s

/-- Where the region is that the access descriptor of an endpoint names. -/
def namedRegion (trans : MemTransaction) (buf : Buffer) (n : ℕ) : ℕ :=
  readField buf (trans.accessOffs n + 4) 4

/-- The ranges of a request: those of the region that the access descriptor of OP-TEE names, as far
as they are in the first fragment, and those of another fragment. -/
def Request.Names (cfg : Config) (r : AddressRange) : Request → Prop
  | .share args =>
    let trans := rawTransaction cfg.version11 args.buf
    ∃ n, trans.findEndpoint args.buf cfg.myEndpointId = some n ∧
      ∃ i < readField args.buf (namedRegion trans args.buf n + 4) 4,
        namedRegion trans args.buf n + 16 + 16 * i + 16 ≤ args.fragLen ∧
        r = readRange args.buf (namedRegion trans args.buf n + 16 + 16 * i)
  | .frag _ flen buf => ∃ i, 16 * i + 16 ≤ flen ∧ r = readRange buf (16 * i)

/-- The offset of the region is read where the access descriptor of OP-TEE has it. -/
def Request.Straight (cfg : Config) : Request → Prop
  | .share args =>
    let trans := rawTransaction cfg.version11 args.buf
    ∀ n, trans.findEndpoint args.buf cfg.myEndpointId = some n →
      readField args.buf (trans.regionOffsAt n) 4 = namedRegion trans args.buf n
  | .frag .. => True

theorem memShareInit_ok {myEndpointId : ℕ} {trans : MemTransaction} {header : RegionHeader}
    (h : memShareInit myEndpointId trans buf blen = .ok header) :
    ∃ n, trans.findEndpoint buf myEndpointId = some n ∧
      header = ⟨readField buf (readField buf (trans.regionOffsAt n) 4) 4,
        readField buf (readField buf (trans.regionOffsAt n) 4 + 4) 4,
          readField buf (trans.regionOffsAt n) 4 + 16⟩ := by
  rw [memShareInit] at h
  split_ifs at h
  split at h
  · cases h
  · dsimp only at h
    split_ifs at h
    exact ⟨_, ‹_›, (Except.ok.inj h).symm⟩

theorem reads_of_straight {args : ShareArgs} (hstraight : (Request.share args).Straight cfg)
    (hsent : ∀ r, (Request.share args).Names cfg r → Sent r) {header : RegionHeader}
    (h : memShareInit cfg.myEndpointId (rawTransaction cfg.version11 args.buf) args.buf args.fragLen
      = .ok header) :
    Reads Sent args.buf header.addrRangeOffs
      (args.fragLen - header.addrRangeOffs) header.regionCount := by
  obtain ⟨n, hn, rfl⟩ := memShareInit_ok h
  rw [hstraight n hn]
  intro k hk hlen r hr
  obtain ⟨i, hi, rfl⟩ := List.mem_map.1 hr
  have := List.mem_range.1 hi
  dsimp only at hk hlen ⊢
  exact hsent _ ⟨n, hn, i, by omega, by omega, rfl⟩

theorem mem_replaceFirst {p : MemFragState → Bool} {frag x : MemFragState} {l : List MemFragState}
    (h : x ∈ replaceFirst p frag l) : x = frag ∨ x ∈ l := by
  induction l with
  | nil => cases h
  | cons y l ih =>
    rw [replaceFirst] at h
    split_ifs at h
    · rcases List.mem_cons.1 h with h | h
      · exact .inl h
      · exact .inr (List.mem_cons_of_mem y h)
    · rcases List.mem_cons.1 h with h | h
      · exact .inr (h ▸ List.mem_cons_self)
      · exact (ih h).imp_right (List.mem_cons_of_mem y)

theorem StateOk.unmap (h : StateOk mem Sent s) (mm : Option ℕ) (pageCount : ℕ) :
    StateOk mem Sent (s.unmap mm pageCount) := by
  cases mm with
  | none => exact h
  | some bytes =>
    rw [State.unmap]
    split_ifs
    · exact h
    · exact ⟨h.inactive, h.frags⟩

theorem StateOk.request {req : Request} (h : StateOk cfg.mem Sent s) (hstraight : req.Straight cfg)
    (hsent : ∀ r, req.Names cfg r → Sent r) : StateOk cfg.mem Sent (s.request cfg req) := by
  cases req with
  | share args =>
    have hreads : ∀ memTrans,
        readMemTransaction cfg.version11 args.buf args.fragLen = .ok memTrans → ∀ header,
        memShareInit cfg.myEndpointId memTrans args.buf args.fragLen = .ok header →
        Reads Sent args.buf header.addrRangeOffs
        (args.fragLen - header.addrRangeOffs) header.regionCount := by
      intro memTrans htrans header hinit
      rw [readMemTransaction_eq htrans] at hinit
      exact reads_of_straight hstraight hsent hinit
    simp only [State.request, handleMemShare, handleMemShareRxbuf, handleMemShareTmem]
    repeat' split
    all_goals first | exact h | exact h.addMemShare (hreads _ ‹_›)
  | frag handle flen buf =>
    simp only [State.request, handleMemFragTx]
    split
    · exact h
    · rename_i frag hfind
      have hreads : Reads Sent buf 0 flen frag.share.regionCount := by
        intro k _ hlen r hr
        obtain ⟨i, hi, rfl⟩ := List.mem_map.1 hr
        have := List.mem_range.1 hi
        rw [Nat.zero_add]
        exact hsent _ ⟨i, by omega, rfl⟩
      have hadd : StateOk cfg.mem Sent (ThreadSpmc.addMemShareFrag cfg s frag
          (s.frags.eraseP fun frag => frag.share.mf.cookie = handle)
          (fun frag' => replaceFirst (fun frag => frag.share.mf.cookie = handle) frag' s.frags) buf
          0 flen).2 := by
        refine h.addMemShareFrag (h.frags frag (List.mem_of_find?_eq_some hfind)) hreads
          (fun f hf => h.frags f (List.mem_of_mem_eraseP hf)) fun frag' hfrag' f hf => ?_
        rcases mem_replaceFirst hf with rfl | hf
        · exact hfrag'
        · exact h.frags f hf
      split_ifs
      · exact h.unmap _ _
      · exact hadd
      · exact hadd.unmap _ _

theorem StateOk.requests {reqs : List Request} (h : StateOk cfg.mem Sent s)
    (hsent : ∀ req ∈ reqs, req.Straight cfg ∧ ∀ r, req.Names cfg r → Sent r) :
    StateOk cfg.mem Sent (s.requests cfg reqs) := by
  induction reqs generalizing s with
  | nil => exact h
  | cons req reqs ih =>
    obtain ⟨hstraight, hnames⟩ := hsent req List.mem_cons_self
    exact ih (h.request hstraight hnames) fun req' hreq' =>
      hsent req' (List.mem_cons_of_mem req hreq')

theorem stateOk_noShares (mem : Memory) (Sent : AddressRange → Prop) : StateOk mem Sent noShares :=
  ⟨nofun, nofun⟩

theorem ObjOk.numPages_lt (h : ObjOk mem Sent obj obj.numPages) : obj.numPages < 2 ^ 20 := by
  have := h.counted
  rw [PageList.ffaPageCount, smallPageSize] at this
  omega

theorem pageCount_le_pageSum {r : AddressRange} (hr : r ∈ ranges) : r.pageCount ≤ pageSum ranges :=
  List.single_le_sum (fun _ _ => Nat.zero_le _) _ (List.mem_map_of_mem hr)

theorem ObjOk.pagesGood_iff (h : ObjOk mem Sent obj obj.numPages) :
    PagesGood mem obj.ranges obj ↔ ∀ r ∈ obj.ranges, r.pageCount ≠ 0 →
      r.address % smallPageSize = 0 ∧ r.address < 2 ^ mem.paddrBits := by
  rw [Ffa.pagesGood_iff h.filled (List.append_nil _).symm]
  have hsum := h.filled.index
  constructor
  · rintro ⟨-, -, hsound⟩ r hr hne
    exact ⟨(hsound r hr hne).aligned, (hsound r hr hne).narrow⟩
  · intro hsound
    refine ⟨hsum.symm, rfl, fun r hr hne => ⟨(hsound r hr hne).1, (hsound r hr hne).2,
      fun hlarge => ?_⟩⟩
    have := pageCount_le_pageSum hr
    have := h.numPages_lt
    omega

end Optee.ThreadSpmc

namespace Optee.SpMem

open Ffa

variable {cfg : Config} {memTrans : MemTransaction} {buf : Buffer} {blen flen : ℕ} {share : Share}

/-- The ranges that lie in the bytes sent. -/
def rangesInside (buf : Buffer) (offs flen : ℕ) : List AddressRange :=
  readRanges buf (offs + 16) (min (readField buf (offs + 4) 4) ((flen - (offs + 16)) / 16))

/-- The ranges that lie behind the bytes sent. -/
def rangesOutside (buf : Buffer) (offs flen : ℕ) : List AddressRange :=
  readRanges buf (offs + 16 + 16 * min (readField buf (offs + 4) 4) ((flen - (offs + 16)) / 16))
    (readField buf (offs + 4) 4 - min (readField buf (offs + 4) 4) ((flen - (offs + 16)) / 16))

theorem ranges_append (buf : Buffer) (offs flen : ℕ) :
    readRanges buf (offs + 16) (readField buf (offs + 4) 4)
    = rangesInside buf offs flen ++ rangesOutside buf offs flen := by
  rw [rangesInside, rangesOutside, ← ThreadSpmc.readRanges_add,
    Nat.add_sub_cancel' (Nat.min_le_left _ _)]

theorem addNwRegion_ok {offs : ℕ} {region : PageList} (h : addNwRegion cfg buf offs = .ok region) :
    ∃ idx, Filled cfg.mem region idx ∧ region.numPages = readField buf offs 4 ∧
      region.ranges = readRanges buf (offs + 16) (readField buf (offs + 4) 4) := by
  simp only [addNwRegion] at h
  split at h
  · cases h
  split at h
  · cases h
  · rename_i obj idx hadd
    split at h <;> cases h
    obtain ⟨hfilled, hnum, hranges⟩ :=
      (filled_new cfg.mem _).foldRanges (spPageCount_le cfg.mem) hadd
    exact ⟨idx, hfilled, hnum, hranges.trans (List.nil_append _)⟩

theorem addShare_region (h : addShare cfg memTrans buf blen = .ok share) :
    addNwRegion cfg buf (regionOffs memTrans buf) = .ok share.region := by
  rw [addShare] at h
  split_ifs at h
  obtain ⟨region, hregion, h⟩ := bind_eq_ok.1 h
  obtain ⟨receivers, -, h⟩ := bind_eq_ok.1 h
  cases h
  exact hregion

theorem pagesGood_addShare (flen : ℕ) (h : addShare cfg memTrans buf blen = .ok share) :
    PagesGood cfg.mem (rangesInside buf (regionOffs memTrans buf) flen) share.region ↔
      pageSum share.region.ranges = share.region.numPages ∧
      pageSum (rangesOutside buf (regionOffs memTrans buf) flen) = 0 ∧
      ∀ r ∈ share.region.ranges, r.pageCount ≠ 0 → RangeSound cfg.mem r := by
  obtain ⟨idx, hfilled, -, hranges⟩ := addNwRegion_ok (addShare_region h)
  exact pagesGood_iff hfilled (hranges.trans (ranges_append buf _ flen))

/-! ## All shared objects -/

open ThreadSpmc in
/-- Objects that are registered hold whole non-secure pages from the ranges that were sent, exactly
when the ranges are as they should be. -/
theorem shared_pages_good (cfg : ThreadSpmc.Config) (reqs : List Request) (spCfg : Config)
    (memTrans : MemTransaction) (buf : Buffer) (blen flen : ℕ)
    (hstraight : ∀ req ∈ reqs, req.Straight cfg) :
    (∀ mf ∈ (noShares.requests cfg reqs).inactive,
      (PagesGood cfg.mem mf.obj.ranges mf.obj ↔ ∀ r ∈ mf.obj.ranges, r.pageCount ≠ 0 →
        r.address % smallPageSize = 0 ∧ r.address < 2 ^ cfg.mem.paddrBits) ∧
      ∀ r ∈ mf.obj.ranges, ∃ req ∈ reqs, req.Names cfg r) ∧
    ∀ share, addShare spCfg memTrans buf blen = .ok share →
      (PagesGood spCfg.mem (rangesInside buf (regionOffs memTrans buf) flen) share.region ↔
        pageSum share.region.ranges = share.region.numPages ∧
        pageSum (rangesOutside buf (regionOffs memTrans buf) flen) = 0 ∧
        ∀ r ∈ share.region.ranges, r.pageCount ≠ 0 → RangeSound spCfg.mem r) := by
  refine ⟨fun mf hmf => ?_, fun share h => pagesGood_addShare flen h⟩
  have hok :
      StateOk cfg.mem (fun r => ∃ req ∈ reqs, req.Names cfg r) (noShares.requests cfg reqs) :=
    (stateOk_noShares _ _).requests fun req hreq =>
      ⟨hstraight req hreq, fun r hr => ⟨req, hreq, hr⟩⟩
  exact ⟨(hok.inactive mf hmf).pagesGood_iff, (hok.inactive mf hmf).sent⟩

/-- One partition, which is the endpoint of the descriptors. -/
def onePartition : Config where
  mem := ThreadSpmc.smallConfig.mem
  session := (· == 0x8001)
  allocMem := true
  allocMobj _ := true
  allocRest := true

/-- The share that a descriptor makes. -/
def twoPages : Share where
  senderId := 0
  memRegAttr := 0x2f
  flags := 0
  tag := 0
  region := ⟨2, [some 0x1000, some 0x3000], [⟨0x1000, 1⟩, ⟨0x3000, 1⟩]⟩
  receivers := [⟨0x8001, 2, 0⟩]

open ThreadSpmc in
theorem shared_pages_good_twoRanges :
    (∃ mf ∈ (noShares.requests smallConfig [.share ⟨96, 96, 0, 0, twoRanges⟩]).inactive,
      PagesGood smallConfig.mem mf.obj.ranges mf.obj) ∧
    PagesGood onePartition.mem (rangesInside twoRanges 48 96) twoPages.region := by
  obtain ⟨hoptee, hsp⟩ :=
    shared_pages_good smallConfig [.share ⟨96, 96, 0, 0, twoRanges⟩] onePartition
      (rawTransaction false twoRanges) twoRanges 96 96 (by
      intro req hreq
      cases List.mem_singleton.1 hreq
      intro n hn
      cases hn.symm.trans (show
        (rawTransaction false twoRanges).findEndpoint twoRanges 0x8001 = some 0 by decide +kernel)
      rfl)
  constructor
  · have hone : ∃ mf ∈ (noShares.requests smallConfig [.share ⟨96, 96, 0, 0, twoRanges⟩]).inactive,
        ∀ r ∈ mf.obj.ranges, r.pageCount ≠ 0 →
          r.address % smallPageSize = 0 ∧ r.address < 2 ^ smallConfig.mem.paddrBits := by
      decide +kernel
    obtain ⟨mf, hmf, hsound⟩ := hone
    exact ⟨mf, hmf, (hoptee mf hmf).1.2 hsound⟩
  · have hshare : addShare onePartition (rawTransaction false twoRanges) twoRanges 96
        = .ok twoPages := by
      decide +kernel
    have hiff := hsp twoPages hshare
    rw [show regionOffs (rawTransaction false twoRanges) twoRanges = 48 by decide +kernel] at hiff
    refine hiff.2 ⟨by decide, by decide +kernel, ?_⟩
    have hsmall : ∀ r ∈ twoPages.region.ranges, r.address % smallPageSize = 0 ∧
        r.address < 2 ^ onePartition.mem.paddrBits ∧ r.pageCount < 2 ^ 20 := by
      decide +kernel
    exact fun r hr _ => ⟨(hsmall r hr).1, (hsmall r hr).2.1,
      fun h => absurd h (hsmall r hr).2.2.not_ge⟩

def oneRange (total bytes : UInt8) : Buffer := fun i =>
  ([0, 0, 0x2f, 0, 0, 0, 0, 0, 0, 0, 0, 0, 0, 0, 0, 0, 0, 0, 0, 0, 0, 0, 0, 0, 0, 0, 0, 0,
    1, 0, 0, 0, 0x01, 0x80, 2, 0, 48, 0, 0, 0, 0, 0, 0, 0, 0, 0, 0, 0,
    total, 0, 0, 0, 1, 0, 0, 0, 0, 0, 0, 0, 0, 0, 0, 0,
    bytes, 0x10, 0, 0, 0, 0, 0, 0, 1, 0, 0, 0, 0, 0, 0, 0] : List UInt8).getD i 0

/-- A descriptor for another endpoint and for OP-TEE, with one range. -/
def forTwo : Buffer := fun i =>
  ([0, 0, 0x2f, 0, 0, 0, 0, 0, 0, 0, 0, 0, 0, 0, 0, 0, 1, 0, 0, 0, 1, 0, 0, 0, 0, 0, 0, 0,
    2, 0, 0, 0, 0, 0x40, 2, 0, 0, 0, 0, 0, 1, 0, 0, 0, 0, 0, 0, 0, 0x01, 0x80, 2, 0, 64, 0, 0, 0, 0,
    0, 0, 0, 0, 0, 0, 0, 1, 0, 0, 0, 16, 0, 0, 0, 0, 0, 0, 0, 0, 0, 0, 0,
    0, 0x10, 0, 0, 0, 0, 0, 0, 1, 0, 0, 0, 0, 0, 0, 0] : List UInt8).getD i 0

open ThreadSpmc in
/-- OP-TEE registers a page that is not at a page boundary, and the page that the access descriptor
of another endpoint spells where its own is the second. A share of two pages with a range of one is
accepted, and a range of 4 GiB wherever its pages are. -/
theorem shared_pages_bad :
    (∃ mf ∈ (noShares.requests smallConfig [.share ⟨80, 80, 0, 0, oneRange 1 8⟩]).inactive,
      mf.obj.pages = [some 0x1008] ∧ ¬ PagesGood smallConfig.mem mf.obj.ranges mf.obj) ∧
    (noShares.requests smallConfig [.share ⟨96, 96, 0x10000, 1, forTwo⟩]).inactive.map (·.obj.pages)
      = [[some 0x24000]] ∧
    (∃ share,
      addShare onePartition (rawTransaction false (oneRange 2 0)) (oneRange 2 0) 80 = .ok share ∧
      share.region.pages = [some 0x1000, none] ∧
      ¬ PagesGood onePartition.mem (rangesInside (oneRange 2 0) 48 80) share.region) ∧
    ∀ addr, ((PageList.new (2 ^ 20)).spAddPages onePartition.mem 0 ⟨addr, 2 ^ 20⟩).isSome
      = true := by
  refine ⟨?_, by decide +kernel, ?_, fun addr => ?_⟩
  · have hone :
      ∃ mf ∈ (noShares.requests smallConfig [.share ⟨80, 80, 0, 0, oneRange 1 8⟩]).inactive,
        mf.obj.pages = [some 0x1008] ∧ 0 < mf.obj.numPages := by
      decide +kernel
    obtain ⟨mf, hmf, hpages, hpos⟩ := hone
    refine ⟨mf, hmf, hpages, fun hgood => ?_⟩
    obtain ⟨p, hp, -, haligned, -⟩ := hgood 0 hpos
    rw [hpages] at hp
    cases hp
    exact absurd haligned (by decide)
  · refine ⟨⟨0, 0x2f, 0, 0, ⟨2, [some 0x1000, none], [⟨0x1000, 1⟩]⟩, [⟨0x8001, 2, 0⟩]⟩,
      by decide +kernel, rfl, fun hgood => ?_⟩
    obtain ⟨p, hp, -⟩ := hgood 1 (by decide)
    cases hp
  · have hcount : (PageList.new (2 ^ 20)).spPageCount onePartition.mem = 2 ^ 20 := by decide +kernel
    have hempty : ∀ pa, onePartition.mem.pbufIsNonSec pa (2 ^ 20 * smallPageSize % 2 ^ 32)
        = true := fun pa => by
      simp [Memory.pbufIsNonSec, smallPageSize]
    rw [PageList.spAddPages, PageList.addPages, hcount, if_neg (by simp), hempty, if_neg (by simp)]
    rfl

end Optee.SpMem
