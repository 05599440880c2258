import Optee.Proofs.FfaPages
import Optee.ThreadSpmc

/-!
# A descriptor in fragments

A descriptor that comes in fragments leaves what it leaves when it comes whole: after each fragment
the state is that of some number of its address ranges having been added (`fragAt`), and the next
fragment goes on from there (`fragStep_fragAt`).
-/

namespace Optee.ThreadSpmc

open Ffa

variable {cfg : Config} {s : State} {bytes stale buf : Buffer} {offs len flen blen n k j : ℕ}
  {mem : Memory} {obj obj' : PageList} {idx idx' : ℕ} {ranges : List AddressRange}

/-! ## Fragments -/

/-- What the buffer has when a fragment was put in it. -/
def fragment (bytes : Buffer) (offs len : ℕ) (stale : Buffer) : Buffer := fun i =>
  if i < len then bytes (offs + i) else stale i

theorem readField_fragment (h : n + k ≤ len) :
    readField (fragment bytes offs len stale) n k = readField bytes (offs + n) k := by
  refine congrArg ofLeBytes (List.map_congr_left fun i hi => ?_)
  have := List.mem_range.1 hi
  rw [fragment, if_pos (by omega), Nat.add_assoc]

theorem readRanges_fragment (h : n + 16 * k ≤ len) :
    readRanges (fragment bytes offs len stale) n k = readRanges bytes (offs + n) k := by
  refine List.map_congr_left fun i hi => ?_
  have := List.mem_range.1 hi
  rw [readRange, readRange, readField_fragment (by omega), readField_fragment (by omega)]
  simp only [Nat.add_assoc]

theorem readRanges_add : readRanges bytes offs (j + k)
    = readRanges bytes offs j ++ readRanges bytes (offs + 16 * j) k := by
  rw [readRanges, readRanges, readRanges, List.range_add, List.map_append, List.map_map]
  refine congrArg _ (List.map_congr_left fun i _ => ?_)
  simp only [Function.comp_apply, Nat.mul_add, Nat.add_assoc]

theorem addRanges_append (l₁ l₂ : List AddressRange) : addRanges mem obj idx (l₁ ++ l₂)
    = (addRanges mem obj idx l₁).bind fun x => addRanges mem x.1 x.2 l₂ :=
  foldRanges_append l₁ l₂

/-! ## Headers -/

/-- A first fragment of this length holds the headers, as far as they are read. -/
structure HoldsHeaders (cfg : Config) (bytes : Buffer) (flen : ℕ) : Prop where
  transaction : transactionSize cfg.version11 ≤ flen
  array :
    (rawTransaction cfg.version11 bytes).memAccessSize
    * (rawTransaction cfg.version11 bytes).memAccessCount
    + (rawTransaction cfg.version11 bytes).memAccessOffs ≤ flen
  access : ∀ n < (rawTransaction cfg.version11 bytes).memAccessCount,
    (rawTransaction cfg.version11 bytes).accessOffs n + 3 ≤ flen
  region : ∀ n, (rawTransaction cfg.version11 bytes).findEndpoint bytes cfg.myEndpointId = some n →
    (rawTransaction cfg.version11 bytes).regionOffsAt n + 4 ≤ flen ∧
      readField bytes ((rawTransaction cfg.version11 bytes).regionOffsAt n) 4 + 16 ≤ flen

theorem rawTransaction_fragment (h : transactionSize cfg.version11 ≤ flen) :
    rawTransaction cfg.version11 (fragment bytes 0 flen stale)
      = rawTransaction cfg.version11 bytes := by
  cases hv : cfg.version11 <;> rw [hv] at h
    <;> simp only [transactionSize, Bool.false_eq_true, if_false,
    if_true] at h <;> simp (disch := omega) only [rawTransaction, readField_fragment, Nat.zero_add,
    Bool.false_eq_true, if_false, if_true]

theorem readMemTransaction_fragment (stale : Buffer) (h : HoldsHeaders cfg bytes flen)
    (hlen : flen ≤ len) :
    readMemTransaction cfg.version11 (fragment bytes 0 flen stale) flen
      = readMemTransaction cfg.version11 bytes len := by
  have htrans := h.transaction
  have harray := h.array
  rw [readMemTransaction, readMemTransaction, rawTransaction_fragment htrans]
  simp only [if_neg (show ¬ flen < transactionSize cfg.version11 by omega),
    if_neg (show ¬ len < transactionSize cfg.version11 by omega), if_neg (Nat.not_lt.2 harray),
    if_neg (Nat.not_lt.2 (harray.trans hlen))]

theorem findEndpoint_fragment (h : HoldsHeaders cfg bytes flen) :
    (rawTransaction cfg.version11 bytes).findEndpoint (fragment bytes 0 flen stale) cfg.myEndpointId
      = (rawTransaction cfg.version11 bytes).findEndpoint bytes cfg.myEndpointId := by
  refine List.find?_congr fun n hn => ?_
  have := h.access n (List.mem_range.1 hn)
  rw [endpointId, endpointId, readField_fragment (by omega), Nat.zero_add]

theorem memShareInit_fragment (h : HoldsHeaders cfg bytes flen) (hlen : flen ≤ len) :
    memShareInit cfg.myEndpointId (rawTransaction cfg.version11 bytes)
      (fragment bytes 0 flen stale) flen
      = memShareInit cfg.myEndpointId (rawTransaction cfg.version11 bytes) bytes len := by
  rw [memShareInit, memShareInit, findEndpoint_fragment h]
  cases hn : (rawTransaction cfg.version11 bytes).findEndpoint bytes cfg.myEndpointId with
  | none => rfl
  | some n =>
    obtain ⟨hat, hregion⟩ := h.region n hn
    have hlt := List.mem_range.1 (List.mem_of_find?_eq_some hn)
    have := h.access n hlt
    have hperm :
      accessPerm (fragment bytes 0 flen stale) ((rawTransaction cfg.version11 bytes).accessOffs n)
        = accessPerm bytes ((rawTransaction cfg.version11 bytes).accessOffs n) := by
      rw [accessPerm, accessPerm, readField_fragment (by omega), Nat.zero_add]
    simp only [readField_fragment hat, Nat.zero_add, hperm, if_neg (Nat.not_lt.2 hregion),
      if_neg (Nat.not_lt.2 (hregion.trans hlen))]
    rw [readField_fragment (by omega), readField_fragment (by omega), Nat.zero_add, Nat.zero_add]

/-! ## Filling in an object -/

theorem addRanges_filled (h : Filled mem obj idx)
    (hadd : addRanges mem obj idx ranges = some (obj', idx')) :
    Filled mem obj' idx' ∧ obj'.numPages = obj.numPages ∧ obj'.ranges = obj.ranges ++ ranges :=
  h.foldRanges ffaPageCount_le hadd

/-- What the address ranges of a descriptor make of a new object. -/
def outcome (cfg : Config) (s : State) (mf : Mobj) (pageCount : ℕ) (ranges : List AddressRange) :
    Reply × State :=
  match addRanges cfg.mem mf.obj 0 ranges with
  | none => (.error .invalidParameters, spmcDelete cfg s mf)
  | some (obj, idx) =>
    if idx = pageCount then (.success mf.cookie, pushToInactive s { mf with obj := obj })
    else (.error .invalidParameters, spmcDelete cfg s mf)

theorem outcome_ne_fragRx (mf : Mobj) (pageCount handle offset : ℕ) :
    (outcome cfg s mf pageCount ranges).1 ≠ .fragRx handle offset := by
  rw [outcome]
  split
  · nofun
  · split_ifs <;> nofun

variable {mf : Mobj} {r : Reply × State}

theorem addMemShareHelper_whole {pageCount regionCount : ℕ} (hlen : 16 * regionCount ≤ len) :
    addMemShareHelper mem ⟨mf, pageCount, regionCount, 0⟩ buf offs len =
      match addRanges mem mf.obj 0 (readRanges buf offs regionCount) with
      | none => .error .invalidParameters
      | some (obj, idx) =>
        if idx = pageCount then .ok (⟨{ mf with obj := obj }, pageCount, 0, idx⟩, 0)
        else .error .invalidParameters := by
  have hcount : min (len / 16) regionCount = regionCount := by omega
  simp only [addMemShareHelper, hcount]
  cases addRanges mem mf.obj 0 (readRanges buf offs regionCount) with
  | none => rfl
  | some x =>
    obtain ⟨obj, idx⟩ := x
    by_cases hidx : idx = pageCount <;> simp [hidx]

/-! ## Fragments one after another -/

section Fragments

variable (s₁ : State) (mf : Mobj) (mm : Option ℕ) (header : RegionHeader) (bytes)

/-- The fragment state after `j` ranges. -/
def fragAt (obj : PageList) (idx j : ℕ) : MemFragState :=
  ⟨⟨{ mf with obj := obj }, header.pageCount, header.regionCount - j, idx⟩, mm,
    header.addrRangeOffs + 16 * j⟩

/-- The first `j` ranges of the descriptor. -/
def rangesTo (j : ℕ) : List AddressRange := readRanges bytes header.addrRangeOffs j

/-- A number of ranges has been added, and the rest is asked for. -/
def Underway (cfg : Config) (j : ℕ) (r : Reply × State) : Prop :=
  j < header.regionCount ∧ ∃ obj idx,
    addRanges cfg.mem mf.obj 0 (rangesTo bytes header j) = some (obj, idx) ∧
    r = (.fragRx mf.cookie (header.addrRangeOffs + 16 * j),
      { s₁ with frags := fragAt mf mm header obj idx j :: s₁.frags })

variable {s₁ mf mm header bytes}

theorem toInt_of_lt (h : n < 2 ^ 31) : toInt n = n := by
  rw [toInt, if_pos (by omega)]
  omega

theorem fragStep_fragAt (mm : Option ℕ) (hj : j ≤ header.regionCount)
    (hobj : addRanges mem mf.obj 0 (rangesTo bytes header j) = some (obj, idx))
    (hk : k = min (flen / 16) (header.regionCount - j))
    (hread : readRanges buf offs k = readRanges bytes (header.addrRangeOffs + 16 * j) k)
    (hend : header.addrRangeOffs + 16 * header.regionCount ≤ 2 ^ 31) :
    fragStep mem (fragAt mf mm header obj idx j) buf offs flen =
      match addRanges mem mf.obj 0 (rangesTo bytes header (j + k)) with
      | none => .failed (.error .invalidParameters) { mf with obj := obj }
      | some (obj', idx') =>
        if j + k < header.regionCount then .more (fragAt mf mm header obj' idx' (j + k))
        else if idx' = header.pageCount then .done { mf with obj := obj' }
        else .failed (.error .invalidParameters) { mf with obj := obj } := by
  have hrest : addRanges mem mf.obj 0 (rangesTo bytes header (j + k))
      = addRanges mem obj idx (readRanges buf offs k) := by
    rw [rangesTo, readRanges_add, addRanges_append, ← rangesTo, hobj, hread,
      Option.bind_some]
  rw [hrest]
  simp only [fragStep, addMemShareHelper, fragAt, ← hk]
  cases addRanges mem obj idx (readRanges buf offs k) with
  | none => rfl
  | some x =>
    obtain ⟨obj', idx'⟩ := x
    by_cases hmore : j + k < header.regionCount
    · have hne : header.regionCount - j - k ≠ 0 := by omega
      have hint : toInt (k * 16) = (k * 16 : ℕ) := toInt_of_lt (by omega)
      simp only [hne, hmore, if_true, hint, ne_eq, not_false_eq_true, Int.toNat_natCast]
      rw [if_neg (by omega), if_neg (by omega), Nat.sub_sub,
        show header.addrRangeOffs + 16 * j + k * 16 = header.addrRangeOffs + 16 * (j + k) by omega]
    · have hzero : header.regionCount - j - k = 0 := by omega
      by_cases hidx : idx' = header.pageCount
      · simp only [hzero, hmore, hidx, ne_eq, not_true_eq_false, if_false, if_true, Int.toNat_zero]
        rw [if_neg (by omega), if_neg (by omega)]
      · simp [hzero, hmore, hidx]

theorem addMemShareFrag_fragAt (mm : Option ℕ) (s' : State) (buf : Buffer) (offs flen : ℕ)
    (hs : { s' with frags := s₁.frags } = s₁) (hj : j ≤ header.regionCount)
    (hobj : addRanges cfg.mem mf.obj 0 (rangesTo bytes header j) = some (obj, idx))
    (hread : ∀ k, 16 * k ≤ flen →
      readRanges buf offs k = readRanges bytes (header.addrRangeOffs + 16 * j) k)
    (hend : header.addrRangeOffs + 16 * header.regionCount ≤ 2 ^ 31) (r : Reply × State)
    (hr : r = addMemShareFrag cfg s' (fragAt mf mm header obj idx j) s₁.frags
      (· :: s₁.frags) buf offs flen) :
    Underway bytes s₁ mf mm header cfg (j + flen / 16) r ∨
      r = outcome cfg s₁ mf header.pageCount (rangesTo bytes header header.regionCount) := by
  obtain ⟨k, hk⟩ : ∃ k, k = min (flen / 16) (header.regionCount - j) := ⟨_, rfl⟩
  have hstep := fragStep_fragAt mm hj hobj hk (hread k (by omega)) hend
  have hsplit : rangesTo bytes header header.regionCount = rangesTo bytes header (j + k) ++
      readRanges bytes (header.addrRangeOffs + 16 * (j + k)) (header.regionCount - (j + k)) := by
    rw [rangesTo, rangesTo, ← readRanges_add, Nat.add_sub_cancel' (by omega)]
  rw [addMemShareFrag, hstep] at hr
  cases hadd : addRanges cfg.mem mf.obj 0 (rangesTo bytes header (j + k)) with
  | none =>
    right
    rw [hadd] at hr
    rw [hr, hs, outcome, hsplit, addRanges_append, hadd]
    rfl
  | some x =>
    obtain ⟨obj', idx'⟩ := x
    rw [hadd] at hr
    by_cases hmore : j + k < header.regionCount
    · left
      rw [show flen / 16 = k by omega]
      refine ⟨hmore, obj', idx', hadd, ?_⟩
      have hint : toInt (header.addrRangeOffs + 16 * (j + k))
          = (header.addrRangeOffs + 16 * (j + k) : ℕ) :=
        toInt_of_lt (by omega)
      rw [hr]
      simp only [if_pos hmore, moreReply, fragAt, hint]
      rw [if_neg (by omega), ← hs]
      rfl
    · right
      have hall : j + k = header.regionCount := by omega
      rw [hall] at hadd
      rw [hr, outcome, hadd]
      simp only [if_neg hmore]
      by_cases hidx : idx' = header.pageCount
      · simp only [if_pos hidx, hs]
      · simp only [if_neg hidx, hs]
        rfl

theorem unmap_eq (hmm : ∀ size, mm = some size → header.pageCount = size / smallPageSize) :
    s.unmap mm header.pageCount = s := by
  cases mm with
  | none => rfl
  | some size => exact if_pos (hmm size rfl)

theorem handleMemFragTx_underway (stale : Buffer) (h : Underway bytes s₁ mf mm header cfg j r)
    (hlen : len ≤ mm.getD (cfg.rx.getD 0))
    (hend : header.addrRangeOffs + 16 * header.regionCount ≤ 2 ^ 31)
    (hmm : ∀ size, mm = some size → header.pageCount = size / smallPageSize) :
    ∃ handle offset, r.1 = .fragRx handle offset ∧
      (Underway bytes s₁ mf mm header cfg (j + len / 16)
          (handleMemFragTx cfg r.2 handle len (fragment bytes offset len stale)) ∨
        handleMemFragTx cfg r.2 handle len (fragment bytes offset len stale)
          = outcome cfg s₁ mf header.pageCount (rangesTo bytes header header.regionCount)) := by
  obtain ⟨hj, obj, idx, hobj, rfl⟩ := h
  refine ⟨_, _, rfl, addMemShareFrag_fragAt mm
    { s₁ with frags := fragAt mf mm header obj idx j :: s₁.frags }
    (fragment bytes (header.addrRangeOffs + 16 * j) len stale) 0 len rfl hj.le hobj
    (fun k hk => ?_) hend _ ?_⟩
  · exact readRanges_fragment (by omega)
  · have hfits : ¬ mm.getD (cfg.rx.getD 0) < len := Nat.not_lt.2 hlen
    simp [handleMemFragTx, fragAt, hfits, replaceFirst, unmap_eq hmm]

/-- The fragments after the first, each from the offset in the last answer on, until the answer is
another one. -/
def sendRest (cfg : Config) (bytes : Buffer) (r : Reply × State) :
    List (ℕ × Buffer) → Reply × State
  | [] => r
  | (len, stale) :: rest =>
    match r.1 with
    | .fragRx handle offset =>
      sendRest cfg bytes (handleMemFragTx cfg r.2 handle len (fragment bytes offset len stale)) rest
    | _ => r

theorem sendRest_of_ne_fragRx (h : ∀ handle offset, r.1 ≠ .fragRx handle offset) :
    ∀ rest, sendRest cfg bytes r rest = r
  | [] => rfl
  | (len, stale) :: rest => by
    rw [sendRest]
    split
    · exact absurd ‹_› (h _ _)
    · rfl

theorem sendRest_underway (hend : header.addrRangeOffs + 16 * header.regionCount ≤ 2 ^ 31)
    (hmm : ∀ size, mm = some size → header.pageCount = size / smallPageSize) :
    ∀ {rest : List (ℕ × Buffer)} {j : ℕ} {r : Reply × State},
      (∀ x ∈ rest, x.1 ≤ mm.getD (cfg.rx.getD 0)) →
      Underway bytes s₁ mf mm header cfg j r ∨
        r = outcome cfg s₁ mf header.pageCount (rangesTo bytes header header.regionCount) →
      Underway bytes s₁ mf mm header cfg (j + (rest.map (·.1 / 16)).sum)
        (sendRest cfg bytes r rest) ∨
        sendRest cfg bytes r rest
          = outcome cfg s₁ mf header.pageCount (rangesTo bytes header header.regionCount)
  | [], _, _, _, h => h
  | (len, stale) :: rest, j, r, hlens, h => by
    rcases h with h | rfl
    · obtain ⟨handle, offset, hreply, hnext⟩ := handleMemFragTx_underway stale h
        (hlens _ List.mem_cons_self) hend hmm
      rw [sendRest, hreply, List.map_cons, List.sum_cons, ← Nat.add_assoc]
      exact sendRest_underway hend hmm (fun x hx => hlens x (List.mem_cons_of_mem _ hx)) hnext
    · exact .inr (sendRest_of_ne_fragRx (outcome_ne_fragRx mf header.pageCount) _)

end Fragments

/-! ## The buffer -/

/-- How a descriptor is sent: through the RX buffer, or one in physical memory. -/
structure Via where
  rx : Option ℕ
  addr : ℕ
  pageCount : ℕ

/-- The size of the buffer. -/
def Via.size (via : Via) : ℕ :=
  if via.addr = 0 then via.rx.getD 0 else via.pageCount * smallPageSize

/-- The core, with that RX buffer. -/
def Via.config (cfg : Config) (via : Via) : Config := { cfg with rx := via.rx }

section

variable (cfg : Config) (via : Via)

@[simp] theorem Via.config_mem : (via.config cfg).mem = cfg.mem := rfl

@[simp] theorem Via.config_version11 : (via.config cfg).version11 = cfg.version11 := rfl

@[simp] theorem Via.config_myEndpointId : (via.config cfg).myEndpointId = cfg.myEndpointId := rfl

@[simp] theorem Via.config_rx : (via.config cfg).rx = via.rx := rfl

@[simp] theorem Via.config_allocVa : (via.config cfg).allocVa = cfg.allocVa := rfl

@[simp] theorem virtSetGuest_config (id : ℕ) :
    virtSetGuest (via.config cfg) id = virtSetGuest cfg id := rfl

end

/-- The buffer is there, or can be mapped. -/
structure Via.Ok (cfg : Config) (via : Via) : Prop where
  rx : via.addr = 0 → via.pageCount = 0 ∧ via.rx.isSome
  tmem : via.addr ≠ 0 → via.size < 2 ^ cfg.mem.sizeBits ∧
    cfg.mem.pbufIsNonSec (via.addr % 2 ^ cfg.mem.paddrBits) via.size ∧ cfg.allocVa via.size ∧
    via.addr % smallPageSize = 0

/-- The virtual range of a buffer that is mapped. -/
def Via.mm (via : Via) : Option ℕ := if via.addr = 0 then none else some via.size

theorem Via.mm_getD (cfg : Config) (via : Via) :
    via.mm.getD ((via.config cfg).rx.getD 0) = via.size := by
  rw [Via.mm, Via.config]
  by_cases haddr : via.addr = 0
  · simp [haddr, Via.size]
  · simp [haddr]

/-- The share is for OP-TEE, from a guest that is known. -/
def ForOptee (cfg : Config) (bytes : Buffer) : Prop :=
  isSpShare cfg (rawTransaction cfg.version11 bytes) bytes = false ∧
    virtSetGuest cfg (rawTransaction cfg.version11 bytes).senderId = true

variable {via : Via} {sp : MemTransaction → Reply × State}

theorem handleMemShare_via (hvia : via.Ok cfg) (hsize : flen ≤ via.size) (hlen : flen ≤ blen)
    (hoptee : ForOptee cfg bytes) (hheaders : HoldsHeaders cfg bytes flen) :
    handleMemShare (via.config cfg) s ⟨blen, flen, via.addr, via.pageCount,
      fragment bytes 0 flen stale⟩ sp =
      match readMemTransaction cfg.version11 bytes flen with
      | .error err => (.error err, s)
      | .ok memTrans =>
        addMemShare (via.config cfg) s memTrans via.mm (fragment bytes 0 flen stale) blen flen := by
  obtain ⟨hnotSp, hguest⟩ := hoptee
  have hread := readMemTransaction_fragment stale hheaders le_rfl
  have hsp :
    isSpShare (via.config cfg) (rawTransaction cfg.version11 bytes) (fragment bytes 0 flen stale)
      = false := by
    by_cases hcount : 1 ≤ (rawTransaction cfg.version11 bytes).memAccessCount
    · have := hheaders.access 0 (by omega)
      simp only [MemTransaction.accessOffs, Nat.mul_zero, Nat.add_zero] at this
      rw [← hnotSp, isSpShare, endpointId, readField_fragment (by omega), Nat.zero_add]
      rfl
    · simp [isSpShare, hcount]
  rw [handleMemShare]
  simp only [if_neg (Nat.not_lt.2 hlen)]
  by_cases haddr : via.addr = 0
  · obtain ⟨hpages, hrx⟩ := hvia.rx haddr
    obtain ⟨size, hsome⟩ := Option.isSome_iff_exists.1 hrx
    have hfits : ¬ size < flen := by
      rw [Via.size, if_pos haddr, hsome] at hsize
      exact Nat.not_lt.2 hsize
    simp only [haddr, hpages, ne_eq, not_true_eq_false, if_false, if_true,
      handleMemShareRxbuf, Via.mm, Via.config_rx, Via.config_version11, hsome, hfits, hread]
    cases hok : readMemTransaction cfg.version11 bytes flen with
    | error err => rfl
    | ok memTrans =>
      rw [readMemTransaction_eq hok]
      simp only [hsp, hguest, virtSetGuest_config, Bool.false_eq_true, if_false, Bool.not_true]
  · obtain ⟨hbits, hnonSec, halloc, halign⟩ := hvia.tmem haddr
    have hsizeEq : via.pageCount * smallPageSize = via.size := by rw [Via.size, if_neg haddr]
    simp only [haddr, if_false, handleMemShareTmem, Via.mm, hsizeEq, Via.config_mem,
      Nat.not_le.2 hbits, hnonSec, Via.config_allocVa, halloc, halign, Bool.not_true,
      Bool.false_eq_true, Nat.sub_zero, or_self, Nat.not_lt.2 hsize, ne_eq, not_true_eq_false,
      Via.config_version11, hread]
    cases hok : readMemTransaction cfg.version11 bytes flen with
    | error err => rfl
    | ok memTrans =>
      rw [readMemTransaction_eq hok]
      simp only [hguest, virtSetGuest_config, Bool.not_true, Bool.false_eq_true, if_false]

/-! ## The whole descriptor -/

/-- The handle that the sender asks for. -/
def MemTransaction.cookie (memTrans : MemTransaction) : ℕ :=
  if memTrans.globalHandle ≠ 0 then memTrans.globalHandle else FMEM_INVALID_GLOBAL_ID

/-- What a descriptor leaves, from its bytes alone. -/
def shareAll (cfg : Config) (s : State) (bytes : Buffer) (blen : ℕ) (memTrans : MemTransaction) :
    Reply × State :=
  match memShareInit cfg.myEndpointId memTrans bytes blen with
  | .error err => (.error err, s)
  | .ok header =>
    if blen < header.regionCount * 16 + header.addrRangeOffs then (.error .invalidParameters, s)
    else
      match spmcNew cfg s (MemTransaction.cookie memTrans) header.pageCount with
      | none => (.error .noMemory, s)
      | some (mf, s) => outcome cfg s mf header.pageCount (rangesTo bytes header header.regionCount)

section AddMemShare

variable (hheaders : HoldsHeaders cfg bytes flen)
include hheaders

theorem addrRangeOffs_le {header : RegionHeader}
    (h : memShareInit cfg.myEndpointId (rawTransaction cfg.version11 bytes) bytes blen
      = .ok header) :
    header.addrRangeOffs ≤ flen := by
  rw [memShareInit] at h
  split_ifs at h
  split at h
  · cases h
  · obtain ⟨-, hregion⟩ := hheaders.region _ ‹_›
    simp only at h
    split_ifs at h
    cases h
    exact hregion

theorem addMemShare_fragment (s : State) (stale : Buffer) (mm : Option ℕ) (hlen : flen ≤ blen)
    (halloc : flen ≠ blen → cfg.allocFrag = true)
    (hend : ∀ header, memShareInit cfg.myEndpointId (rawTransaction cfg.version11 bytes) bytes blen
      = .ok header → header.addrRangeOffs + 16 * header.regionCount ≤ 2 ^ 31)
    (r : Reply × State)
    (hr : r = addMemShare cfg s (rawTransaction cfg.version11 bytes) mm
      (fragment bytes 0 flen stale) blen flen) :
    r = shareAll cfg s bytes blen (rawTransaction cfg.version11 bytes) ∨
      flen ≠ blen ∧ ∃ s₁ mf header,
        memShareInit cfg.myEndpointId (rawTransaction cfg.version11 bytes) bytes blen = .ok header ∧
        header.regionCount * 16 + header.addrRangeOffs ≤ blen ∧
        Underway bytes s₁ mf mm header cfg ((flen - header.addrRangeOffs) / 16) r ∧
        shareAll cfg s bytes blen (rawTransaction cfg.version11 bytes)
          = outcome cfg s₁ mf header.pageCount (rangesTo bytes header header.regionCount) := by
  rw [addMemShare, memShareInit_fragment hheaders hlen] at hr
  rw [shareAll]
  cases hinit : memShareInit cfg.myEndpointId (rawTransaction cfg.version11 bytes) bytes blen with
  | error err => exact .inl (by rw [hr, hinit])
  | ok header =>
    have hoffs := addrRangeOffs_le hheaders hinit
    rw [hinit] at hr
    simp only at hr ⊢
    by_cases hfits : blen < header.regionCount * 16 + header.addrRangeOffs
    · exact .inl (by rw [hr, if_pos hfits, if_pos hfits])
    rw [if_neg hfits] at hr ⊢
    rw [MemTransaction.cookie]
    cases hnew : spmcNew cfg s (if (rawTransaction cfg.version11 bytes).globalHandle ≠ 0 then
        (rawTransaction cfg.version11 bytes).globalHandle
        else FMEM_INVALID_GLOBAL_ID) header.pageCount with
    | none => exact .inl (by rw [hr, hnew])
    | some x =>
      obtain ⟨mf, s₁⟩ := x
      rw [hnew] at hr
      simp only at hr ⊢
      by_cases hwhole : flen = blen
      · left
        have hread :
          readRanges (fragment bytes 0 flen stale) header.addrRangeOffs header.regionCount
            = rangesTo bytes header header.regionCount := by
          rw [readRanges_fragment (by omega), Nat.zero_add, rangesTo]
        have hall : 16 * header.regionCount ≤ flen - header.addrRangeOffs := by omega
        rw [hr, if_neg (not_not.2 hwhole), addMemShareHelper_whole hall, hread, outcome]
        cases addRanges cfg.mem mf.obj 0 (rangesTo bytes header header.regionCount) with
        | none => rfl
        | some x =>
          obtain ⟨obj, idx⟩ := x
          by_cases hidx : idx = header.pageCount <;> simp only [hidx, if_true, if_false]
      · simp only [hwhole, ne_eq, not_false_eq_true, if_true, halloc hwhole, Bool.not_true,
          Bool.false_eq_true,
          if_false] at hr
        have hstart :=
          addMemShareFrag_fragAt (j := 0) mm s₁ (fragment bytes 0 flen stale) header.addrRangeOffs
            (flen - header.addrRangeOffs) rfl (Nat.zero_le header.regionCount) rfl (fun k hk => by
            rw [readRanges_fragment (by omega), Nat.zero_add, Nat.mul_zero, Nat.add_zero])
          (hend header hinit) r hr
        rw [Nat.zero_add] at hstart
        rcases hstart with hunder | hdone
        · exact .inr ⟨hwhole, s₁, mf, header, rfl, Nat.not_lt.1 hfits, hunder, rfl⟩
        · exact .inl hdone

end AddMemShare

/-! ## What is left -/

theorem handleCookie_inj {guest : Option UInt16} {i i' : ℕ} :
    handleCookie guest i = handleCookie guest i' ↔ i = i' := by
  simp [handleCookie]

theorem hypervisorBit_handleCookie {guest : Option UInt16} {i : ℕ} (hi : i < NUM_SHMS) :
    hypervisorBit (handleCookie guest i) = false := by
  have hguest := (guest.getD 0).toNat_lt
  refine Nat.testBit_lt_two_pow ?_
  rw [handleCookie]
  rw [NUM_SHMS] at hi
  omega

theorem spmcNew_spec {cookie numPages : ℕ} {s₁ : State}
    (h : spmcNew cfg s cookie numPages = some (mf, s₁)) :
    mf.obj = .new numPages ∧ s₁.inactive = s.inactive ∧ s₁.frags = s.frags ∧
      (spmcDelete cfg s₁ mf).bits = s.bits ∧ (spmcDelete cfg s₁ mf).inactive = s.inactive ∧
      (spmcDelete cfg s₁ mf).frags = s.frags := by
  rw [spmcNew] at h
  split_ifs at h with hcookie hrefused hmem hmem
  · cases h
    have hkept : (cfg.guest.isNone || !hypervisorBit cookie) = false := by
      simp only [Bool.or_eq_true, not_or] at hrefused
      simp [hrefused.1.1.1, hrefused.1.1.2]
    simp [spmcDelete, hkept]
  · split at h
    · cases h
    · rename_i i hfree
      cases h
      have hbit : i ∉ s.bits := by simpa using List.find?_some hfree
      refine ⟨rfl, rfl, rfl, ?_⟩
      rw [spmcDelete]
      split_ifs with hclear
      · refine ⟨?_, rfl, rfl⟩
        simp only [ne_eq, handleCookie_inj]
        rw [List.filter_cons_of_neg (by simp), List.filter_eq_self]
        intro i' hi'
        simpa using fun hii : i' = i => hbit (hii ▸ hi')
      · have hi := List.mem_range.1 (List.mem_of_find?_eq_some hfree)
        simp [hypervisorBit_handleCookie hi] at hclear

/-- With success the object with all its pages in order, and otherwise nothing. It is success where
every range is accepted and their pages are those of the descriptor. -/
structure Settled (cfg : Config) (s : State) (bytes : Buffer) (blen : ℕ)
    (r : Reply × State) : Prop where
  success : ∀ handle, r.1 = .success handle → ∃ mf header,
    memShareInit cfg.myEndpointId (rawTransaction cfg.version11 bytes) bytes blen = .ok header ∧
    mf.cookie = handle ∧ r.2.inactive = mf :: s.inactive ∧ r.2.frags = s.frags ∧
    mf.obj.pages = ((rangesTo bytes header header.regionCount).flatMap cfg.mem.pagesOf).map some
  refused : (∀ handle, r.1 ≠ .success handle) →
    r.2.inactive = s.inactive ∧ r.2.frags = s.frags ∧ r.2.bits = s.bits
  accepted : ∀ memTrans header mf s₁, readMemTransaction cfg.version11 bytes blen = .ok memTrans →
    memShareInit cfg.myEndpointId memTrans bytes blen = .ok header →
    header.regionCount * 16 + header.addrRangeOffs ≤ blen →
    spmcNew cfg s (MemTransaction.cookie memTrans) header.pageCount = some (mf, s₁) →
    ((∃ handle, r.1 = .success handle) ↔
      (addRanges cfg.mem (.new header.pageCount) 0
      (rangesTo bytes header header.regionCount)).isSome ∧
        pageSum (rangesTo bytes header header.regionCount) = header.pageCount)

/-- What a whole descriptor comes to. -/
def shareWhole (cfg : Config) (s : State) (bytes : Buffer) (blen : ℕ) : Reply × State :=
  match readMemTransaction cfg.version11 bytes blen with
  | .error err => (.error err, s)
  | .ok memTrans => shareAll cfg s bytes blen memTrans

theorem outcome_cases (cfg : Config) (s : State) (ranges : List AddressRange) {pageCount : ℕ}
    (hobj : mf.obj = .new pageCount) :
    (∃ obj, (addRanges cfg.mem (.new pageCount) 0 ranges).isSome ∧ pageSum ranges = pageCount ∧
        obj.pages = (ranges.flatMap cfg.mem.pagesOf).map some ∧
        outcome cfg s mf pageCount ranges
          = (.success mf.cookie, pushToInactive s { mf with obj := obj })) ∨
      ¬ ((addRanges cfg.mem (.new pageCount) 0 ranges).isSome ∧ pageSum ranges = pageCount) ∧
        outcome cfg s mf pageCount ranges = (.error .invalidParameters, spmcDelete cfg s mf) := by
  rw [outcome, hobj]
  cases hadd : addRanges cfg.mem (.new pageCount) 0 ranges with
  | none => exact .inr ⟨by simp, rfl⟩
  | some x =>
    obtain ⟨obj, idx⟩ := x
    obtain ⟨hfilled, hnum, hranges⟩ := addRanges_filled (filled_new cfg.mem pageCount) hadd
    have hindex : idx = pageSum ranges := by rw [hfilled.index, hranges]; rfl
    by_cases hidx : idx = pageCount
    · refine .inl ⟨obj, rfl, hindex.symm.trans hidx, ?_, if_pos hidx⟩
      have hroom : obj.numPages - idx = 0 := by
        rw [hnum, hidx]
        exact Nat.sub_self _
      rw [hfilled.pages, hroom, hranges]
      simp [PageList.new]
    · exact .inr ⟨fun h => hidx (hindex.trans h.2), if_neg hidx⟩

theorem settled_of_refused (hr : ∀ handle, r.1 ≠ .success handle)
    (hstate : r.2.inactive = s.inactive ∧ r.2.frags = s.frags ∧ r.2.bits = s.bits)
    (haccepted : ∀ memTrans header mf s₁,
      readMemTransaction cfg.version11 bytes blen = .ok memTrans →
      memShareInit cfg.myEndpointId memTrans bytes blen = .ok header →
      header.regionCount * 16 + header.addrRangeOffs ≤ blen →
      spmcNew cfg s (MemTransaction.cookie memTrans) header.pageCount = some (mf, s₁) →
      ¬ ((addRanges cfg.mem (.new header.pageCount) 0
          (rangesTo bytes header header.regionCount)).isSome ∧
        pageSum (rangesTo bytes header header.regionCount) = header.pageCount)) :
    Settled cfg s bytes blen r where
  success handle h := absurd h (hr handle)
  refused _ := hstate
  accepted memTrans header mf s₁ htrans hinit hfits hnew :=
    iff_of_false (fun ⟨handle, h⟩ => hr handle h)
      (haccepted memTrans header mf s₁ htrans hinit hfits hnew)

theorem shareWhole_settled : Settled cfg s bytes blen (shareWhole cfg s bytes blen) := by
  rw [shareWhole]
  cases htrans : readMemTransaction cfg.version11 bytes blen with
  | error err =>
    exact settled_of_refused nofun ⟨rfl, rfl, rfl⟩ fun _ _ _ _ h => by simp [htrans] at h
  | ok memTrans =>
    have hraw := readMemTransaction_eq htrans
    simp only [shareAll]
    cases hinit : memShareInit cfg.myEndpointId memTrans bytes blen with
    | error err =>
      refine settled_of_refused nofun ⟨rfl, rfl, rfl⟩ fun _ _ _ _ h h' => ?_
      rw [← Except.ok.inj (htrans.symm.trans h), hinit] at h'
      cases h'
    | ok header =>
      simp only
      by_cases hfits : blen < header.regionCount * 16 + header.addrRangeOffs
      · rw [if_pos hfits]
        refine settled_of_refused nofun ⟨rfl, rfl, rfl⟩ fun _ _ _ _ h h' hle => ?_
        rw [← Except.ok.inj (htrans.symm.trans h), hinit] at h'
        cases h'
        omega
      rw [if_neg hfits]
      cases hnew : spmcNew cfg s (MemTransaction.cookie memTrans) header.pageCount with
      | none =>
        refine settled_of_refused nofun ⟨rfl, rfl, rfl⟩ fun _ _ _ _ h h' _ hsome => ?_
        cases Except.ok.inj (htrans.symm.trans h)
        cases Except.ok.inj (hinit.symm.trans h')
        simp [hnew] at hsome
      | some x =>
        obtain ⟨mf, s₁⟩ := x
        obtain ⟨hobj, hinactive, hfrags, hbits, hinactive', hfrags'⟩ := spmcNew_spec hnew
        rcases outcome_cases cfg s₁ (rangesTo bytes header header.regionCount) hobj with
          ⟨obj, hall, hsum, hpages, hdone⟩ | ⟨hnot, hfailed⟩
        · simp only [hdone]
          refine ⟨fun handle h => ⟨{ mf with obj := obj }, header, hraw ▸ hinit, ?_, ?_,
            hfrags, hpages⟩, fun h => absurd rfl (h _), fun _ _ _ _ h h' _ _ => ?_⟩
          · exact Reply.success.inj h
          · exact congrArg _ hinactive
          · cases Except.ok.inj (htrans.symm.trans h)
            cases Except.ok.inj (hinit.symm.trans h')
            exact iff_of_true ⟨_, rfl⟩ ⟨hall, hsum⟩
        · simp only [hfailed]
          refine settled_of_refused nofun ⟨hinactive', hfrags', hbits⟩ fun _ _ _ _ h h' _ _ => ?_
          cases Except.ok.inj (htrans.symm.trans h)
          cases Except.ok.inj (hinit.symm.trans h')
          exact hnot

/-! ## Sending a descriptor -/

/-- A descriptor is sent in fragments. -/
def sendFragments (cfg : Config) (via : Via) (s : State) (bytes : Buffer) (blen flen : ℕ)
    (stale : Buffer) (rest : List (ℕ × Buffer))
    (sp : MemTransaction → Reply × State) : Reply × State :=
  sendRest (via.config cfg) bytes
    (handleMemShare (via.config cfg) s ⟨blen, flen, via.addr, via.pageCount,
    fragment bytes 0 flen stale⟩ sp) rest

/-- A descriptor is sent at once. -/
def sendWhole (cfg : Config) (via : Via) (s : State) (bytes : Buffer) (blen : ℕ) (stale : Buffer)
    (sp : MemTransaction → Reply × State) : Reply × State :=
  handleMemShare (via.config cfg) s ⟨blen, blen, via.addr, via.pageCount,
    fragment bytes 0 blen stale⟩ sp

theorem HoldsHeaders.mono (h : HoldsHeaders cfg bytes flen)
    (hlen : flen ≤ blen) : HoldsHeaders cfg bytes blen :=
  ⟨h.transaction.trans hlen, h.array.trans hlen, fun n hn => (h.access n hn).trans hlen,
    fun n hn => ⟨(h.region n hn).1.trans hlen, (h.region n hn).2.trans hlen⟩⟩

theorem readMemTransaction_len (h : HoldsHeaders cfg bytes flen) (hlen : flen ≤ blen) :
    readMemTransaction cfg.version11 bytes flen = readMemTransaction cfg.version11 bytes blen :=
  (readMemTransaction_fragment bytes h le_rfl).symm.trans (readMemTransaction_fragment bytes h hlen)

theorem HoldsHeaders.config (h : HoldsHeaders cfg bytes flen) (via : Via) :
    HoldsHeaders (via.config cfg) bytes flen :=
  ⟨h.transaction, h.array, h.access, h.region⟩

theorem shareAll_config (memTrans : MemTransaction) :
    shareAll (via.config cfg) s bytes blen memTrans = shareAll cfg s bytes blen memTrans := rfl

theorem shareAll_ne_fragRx (memTrans : MemTransaction) (handle offset : ℕ) :
    (shareAll cfg s bytes blen memTrans).1 ≠ .fragRx handle offset := by
  rw [shareAll]
  split
  · nofun
  · split_ifs
    · nofun
    · split
      · nofun
      · exact outcome_ne_fragRx _ _ _ _

theorem sendWhole_eq (hvia : via.Ok cfg) (hsize : blen ≤ via.size) (hoptee : ForOptee cfg bytes)
    (hheaders : HoldsHeaders cfg bytes blen)
    (hend : ∀ header, memShareInit cfg.myEndpointId (rawTransaction cfg.version11 bytes) bytes blen
      = .ok header → header.addrRangeOffs + 16 * header.regionCount ≤ 2 ^ 31) :
    sendWhole cfg via s bytes blen stale sp = shareWhole cfg s bytes blen := by
  rw [sendWhole, handleMemShare_via hvia hsize le_rfl hoptee hheaders, shareWhole]
  cases htrans : readMemTransaction cfg.version11 bytes blen with
  | error err => rfl
  | ok memTrans =>
    rw [readMemTransaction_eq htrans]
    rcases addMemShare_fragment (hheaders.config via) s stale via.mm le_rfl
      (absurd rfl) hend _ rfl with h | ⟨hne, -⟩
    · exact h.trans (shareAll_config _)
    · exact absurd rfl hne

/-- A descriptor that is sent in fragments leaves what it leaves when it is sent whole. -/
theorem fragments_equal_whole (cfg : Config) (s : State) (bytes : Buffer) (blen flen : ℕ)
    (via whole : Via) (stale stale' : Buffer) (rest : List (ℕ × Buffer))
    (sp sp' : MemTransaction → Reply × State) (hvia : via.Ok cfg) (hwhole : whole.Ok cfg)
    (hfirst : flen ≤ via.size) (hall : blen ≤ whole.size) (hlen : flen ≤ blen)
    (hheaders : HoldsHeaders cfg bytes flen) (hoptee : ForOptee cfg bytes)
    (halloc : cfg.allocFrag = true) (hrest : ∀ x ∈ rest, x.1 ≤ via.size)
    (hend : ∀ header, memShareInit cfg.myEndpointId (rawTransaction cfg.version11 bytes) bytes blen
      = .ok header → header.addrRangeOffs + 16 * header.regionCount ≤ 2 ^ 31)
    (hpages : ∀ header, memShareInit cfg.myEndpointId
      (rawTransaction cfg.version11 bytes) bytes blen = .ok header → flen ≠ blen → via.addr ≠ 0 →
      header.pageCount = via.pageCount)
    (hsent : ∀ header, memShareInit cfg.myEndpointId (rawTransaction cfg.version11 bytes) bytes blen
      = .ok header → header.regionCount * 16 + header.addrRangeOffs ≤ blen →
      header.regionCount ≤ (flen - header.addrRangeOffs) / 16 + (rest.map (·.1 / 16)).sum) :
    sendFragments cfg via s bytes blen flen stale rest sp
      = sendWhole cfg whole s bytes blen stale' sp' ∧
      Settled cfg s bytes blen (sendFragments cfg via s bytes blen flen stale rest sp) := by
  have hsend : sendFragments cfg via s bytes blen flen stale rest sp
      = shareWhole cfg s bytes blen := by
    rw [sendFragments, handleMemShare_via hvia hfirst hlen hoptee hheaders,
      readMemTransaction_len hheaders hlen, shareWhole]
    cases htrans : readMemTransaction cfg.version11 bytes blen with
    | error err => exact sendRest_of_ne_fragRx (fun _ _ h => by cases h) rest
    | ok memTrans =>
      simp only [readMemTransaction_eq htrans]
      rcases addMemShare_fragment (hheaders.config via) s stale via.mm hlen
        (fun _ => halloc) hend _ rfl with
        h | ⟨hne, s₁, mf, header, hinit, hfits, hunder, hout⟩
      · rw [Via.config_version11, shareAll_config] at h
        rw [h]
        exact sendRest_of_ne_fragRx (shareAll_ne_fragRx _) rest
      · have hlens : ∀ x ∈ rest, x.1 ≤ via.mm.getD ((via.config cfg).rx.getD 0) := by
          rw [via.mm_getD cfg]
          exact hrest
        have hmm : ∀ size, via.mm = some size → header.pageCount = size / smallPageSize := by
          intro size hsize
          rw [Via.mm] at hsize
          split_ifs at hsize with haddr
          cases hsize
          rw [hpages header hinit hne haddr, Via.size, if_neg haddr,
            Nat.mul_div_cancel _ (by decide)]
        -- the ranges of all the fragments are those of the descriptor, so that none is left
        rcases sendRest_underway (hend header hinit) hmm hlens (.inl hunder) with ⟨hless, -⟩ | hdone
        · exact absurd (hsent header hinit hfits) (Nat.not_le.2 hless)
        · exact hdone.trans (hout.symm.trans (shareAll_config _))
  rw [hsend, sendWhole_eq hwhole hall hoptee (hheaders.mono hlen) hend]
  exact ⟨rfl, shareWhole_settled⟩

/-- A build with an RX buffer of one page and 1 MiB of non-secure memory. -/
def smallConfig : Config where
  mem := ⟨64, 64, [(0, 2 ^ 20)], Nat.le_add_right 32 32, by decide⟩
  version11 := false
  myEndpointId := 0x8001
  guest := none
  securePartition := true
  rx := some 4096
  allocMobj _ := true
  allocFrag := true
  allocVa _ := true

/-- A descriptor with two ranges of a page each. -/
def twoRanges : Buffer := fun i =>
  ([0, 0, 0x2f, 0, 0, 0, 0, 0, 0, 0, 0, 0, 0, 0, 0, 0, 0, 0, 0, 0, 0, 0, 0, 0, 0, 0, 0, 0,
    1, 0, 0, 0, 0x01, 0x80, 2, 0, 48, 0, 0, 0, 0, 0, 0, 0, 0, 0, 0, 0,
    2, 0, 0, 0, 2, 0, 0, 0, 0, 0, 0, 0, 0, 0, 0, 0,
    0, 0x10, 0, 0, 0, 0, 0, 0, 1, 0, 0, 0, 0, 0, 0, 0,
    0, 0x30, 0, 0, 0, 0, 0, 0, 1, 0, 0, 0, 0, 0, 0, 0] : List UInt8).getD i 0

def noShares : State := ⟨[], [], [], [], []⟩

def viaRx : Via := ⟨some 4096, 0, 0⟩

/-- A descriptor for two pages, sent in three fragments. -/
def threeFragments : Reply × State :=
  sendFragments smallConfig viaRx noShares twoRanges 96 80 (fun _ => 7) [(8, fun _ => 7),
    (16, fun _ => 7)] fun _ => (.error .denied, noShares)

theorem fragments_equal_whole_twoRanges :
    threeFragments = sendWhole smallConfig viaRx noShares twoRanges 96 (fun _ => 0)
        (fun _ => (.error .denied, noShares)) ∧
      Settled smallConfig noShares twoRanges 96 threeFragments := by
  have hvia : viaRx.Ok smallConfig := ⟨fun _ => ⟨rfl, rfl⟩, fun h => absurd rfl h⟩
  have hfind : (rawTransaction false twoRanges).findEndpoint twoRanges 0x8001 = some 0 := by
    decide +kernel
  have hinit : memShareInit 0x8001 (rawTransaction false twoRanges) twoRanges 96
      = .ok ⟨2, 2, 64⟩ := by
    decide +kernel
  refine fragments_equal_whole smallConfig noShares twoRanges 96 80 viaRx viaRx _ _ _ _ _ hvia hvia
    (by decide) (by decide) (by decide) ⟨by decide, by decide +kernel, by decide +kernel,
    fun n hn => ?_⟩ ⟨by decide +kernel, rfl⟩ rfl (by decide +kernel) (fun header h => ?_)
    (fun _ _ _ h => absurd rfl h) fun header h _ => ?_
  · cases hfind.symm.trans hn
    decide +kernel
  · cases hinit.symm.trans h
    decide
  · cases hinit.symm.trans h
    decide

/-- A fragment that is longer than the buffer is refused. The object and what is kept of the first
fragment stay. And two pages are unmapped for a buffer of one page. -/
theorem fragment_refused :
    (sendFragments smallConfig viaRx noShares twoRanges 96 80 (fun _ => 0) [(5000, fun _ => 0)]
        fun _ => (.error .denied, noShares)).1 = .error .invalidParameters ∧
      (sendFragments smallConfig viaRx noShares twoRanges 96 80 (fun _ => 0) [(5000, fun _ => 0)]
        fun _ => (.error .denied, noShares)).2.bits = [0] ∧
      (sendFragments smallConfig viaRx noShares twoRanges 96 80 (fun _ => 0) [(5000, fun _ => 0)]
        fun _ => (.error .denied, noShares)).2.frags.length = 1 ∧
      (sendFragments smallConfig ⟨none, 0x10000, 1⟩ noShares twoRanges 96 80 (fun _ => 0)
        [(16, fun _ => 0)]
        fun _ => (.error .denied, noShares)).2.strays = [(1, 2)] := by
  decide +kernel

end Optee.ThreadSpmc
