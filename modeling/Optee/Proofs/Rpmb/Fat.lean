import Optee.Rpmb.Fat
import Mathlib.Tactic.Common
import Mathlib.Algebra.Order.Group.Nat
import Mathlib.Logic.Function.Basic

/-!
# Traversals of the FAT

Every traversal returns the entries that are in storage, in order and with their addresses
(`runOps_exact`): the first entries of the buffer are those of the FAT (`Stored`), the counters
place the rest of it (`Shape`), and what is left to return is what storage has next (`Ahead`).
-/

namespace Optee.Rpmb

open FatM

variable {cfg : FatConfig} {s s' : FatState} {d : FatEntryDir} {P : ℕ → Prop} {st : ℕ → FatEntry}

/-! ## The buffer -/

variable {buf es : List FatEntry} {off j n calls : ℕ}

section

variable (h : off + es.length ≤ buf.length)
include h

theorem length_overwrite : (overwrite buf off es).length = buf.length := by
  simp only [overwrite, List.length_append, List.length_take, List.length_drop]
  omega

theorem getElem?_overwrite_left (hj : j < off) : (overwrite buf off es)[j]? = buf[j]? := by
  have hlen : (buf.take off).length = off := by
    rw [List.length_take]
    omega
  rw [overwrite, List.append_assoc, List.getElem?_append_left (by omega),
    List.getElem?_take_of_lt hj]

theorem getElem?_overwrite_mid (hj : off ≤ j) (hj' : j < off + es.length) :
    (overwrite buf off es)[j]? = es[j - off]? := by
  have hlen : (buf.take off).length = off := by
    rw [List.length_take]
    omega
  rw [overwrite, List.getElem?_append_left (by rw [List.length_append]; omega),
    List.getElem?_append_right (by omega), hlen]

end

/-- The entries of the cache for which `P` holds are those in storage. -/
structure Stored (cfg : FatConfig) (P : ℕ → Prop) (st : ℕ → FatEntry) (d : FatEntryDir) : Prop where
  len : d.numBuffered ≤ d.buf.length
  dev_le : d.numBuffered ≤ cfg.deviceEntries
  same : ∀ j, j < d.numBuffered → j < cfg.cacheEntries → P j → d.buf[j]? = some (st j)

/-- How the counters stand to each other in a traversal. -/
structure Shape (cfg : FatConfig) (d : FatEntryDir) : Prop where
  idx_le : d.idxCurr ≤ d.numBuffered
  ahead_le : d.numTotalRead + (d.numBuffered - d.idxCurr) ≤ cfg.deviceEntries
  uncached : cfg.cacheEntries = 0 → d.numBuffered = cfg.rdEntries
  growing : cfg.cacheEntries ≠ 0 → d.numTotalRead < cfg.bufMaxEntries → d.idxCurr = d.numTotalRead
  le_max : cfg.cacheEntries ≠ 0 → d.numBuffered ≤ cfg.bufMaxEntries
  full : cfg.cacheEntries ≠ 0 → cfg.bufMaxEntries ≤ d.numTotalRead →
    d.numBuffered = cfg.bufMaxEntries

/-- What is left in the buffer is what comes next in storage. -/
def Ahead (st : ℕ → FatEntry) (d : FatEntryDir) : Prop :=
  ∀ j, d.idxCurr ≤ j → j < d.numBuffered → d.buf[j]? = some (st (d.numTotalRead + (j - d.idxCurr)))

/-- The cache is another, and storage as it was. -/
structure Turned (s s' : FatState) (dir : Option FatEntryDir) : Prop where
  dir_eq : s'.dir = dir
  storage_eq : s'.storage = s.storage
  kept : s'.oracle.faults <:+ s.oracle.faults

theorem Turned.refl (s : FatState) : Turned s s s.dir := ⟨rfl, rfl, List.suffix_rfl⟩

theorem Turned.trans {s'' : FatState} {dir dir' : Option FatEntryDir} (h : Turned s s' dir)
    (h' : Turned s' s'' dir') : Turned s s'' dir' :=
  ⟨h'.dir_eq, h'.storage_eq.trans h.storage_eq, h'.kept.trans h.kept⟩

theorem Turned.set {dir dir' : Option FatEntryDir} (h : Turned s s' dir) :
    Turned s { s' with dir := dir' } dir' := ⟨rfl, h.storage_eq, h.kept⟩

theorem calm_of_kept (h : s'.oracle.faults <:+ s.oracle.faults) (hc : s.oracle.faults = []) :
    s'.oracle.faults = [] := List.suffix_nil.1 (hc ▸ h)

/-! ## Steps that may fail -/

section Steps

variable {α : Type} {Q : α → FatState → Prop} {E : TeeError → FatState → Prop}
  {H : FatStop → FatState → Prop}

/-- A run from `s` stops at a power cut that was in store for it. -/
def AtCut (s : FatState) (x : FatStop) (_ : FatState) : Prop :=
  x = .stop .cut ∧ some .cut ∈ s.oracle.faults

theorem AtCut.mono {x : FatStop} {t : FatState} (h : s'.oracle.faults <:+ s.oracle.faults)
    (hx : AtCut s' x t) : AtCut s x t := ⟨hx.1, h.subset hx.2⟩

theorem wp_tick {s₀ : FatState} {Q : Unit → FatState → Prop}
    (hs : s.oracle.faults <:+ s₀.oracle.faults) (hQ : ∀ s', Turned s s' s.dir → Q () s')
    (hE : ∀ e s', s.oracle.faults ≠ [] → Turned s s' s.dir → E e s') :
    Prog.wp (FatM.liftOracle tick) Q E (AtCut s₀) s := by
  refine Prog.wp_zoom.2 ?_
  unfold Prog.wp tick
  rcases hf : s.oracle.faults with _ | ⟨_ | ⟨e, he⟩ | _, fs⟩
  · exact hQ _ ⟨rfl, rfl, by simp [hf]⟩
  · exact hQ _ ⟨rfl, rfl, by simp [hf]⟩
  · exact hE _ _ (by simp [hf]) ⟨rfl, rfl, by simp [hf]⟩
  · exact ⟨rfl, hs.subset (by simp [hf])⟩

theorem wp_tickAlloc {s₀ : FatState} {Q : Unit → FatState → Prop}
    (hs : s.oracle.faults <:+ s₀.oracle.faults) (hQ : ∀ s', Turned s s' s.dir → Q () s')
    (hE : ∀ e s', s.oracle.faults ≠ [] → Turned s s' s.dir → E e s') :
    Prog.wp (FatM.liftOracle tickAlloc) Q E (AtCut s₀) s :=
  Prog.wp_zoom.2 (Prog.wp_bind.2 (Prog.wp_attempt.2 (Prog.wp_zoom.1 (wp_tick hs hQ fun _ => hE _))))

theorem wp_getDir {Q : FatEntryDir → FatState → Prop} (hd : s.dir = some d)
    (hQ : Q d s) : Prog.wp getDir Q E H s := by
  unfold getDir
  refine Prog.wp_bind.2 (Prog.wp_get.2 ?_)
  rw [hd]
  exact hQ

theorem wp_readEntries {s₀ : FatState} {first : ℕ}
    {Q : List FatEntry × Except TeeError Unit → FatState → Prop}
    (hs : s.oracle.faults <:+ s₀.oracle.faults) (hfits : off + n ≤ buf.length)
    (hok : ∀ s', Turned s s' s.dir → first + n ≤ cfg.deviceEntries →
      Q (overwrite buf off ((List.range' first n).map s.storage), .ok ()) s')
    (herr : ∀ e s' es, Turned s s' s.dir → es.length = n →
      (s.oracle.faults = [] → cfg.deviceEntries < first + n) → Q
      (overwrite buf off es, .error e) s') :
    Prog.wp (readEntries cfg buf off first n) Q E (AtCut s₀) s := by
  unfold readEntries
  refine Prog.wp_ite (fun h => by omega) fun _ => Prog.wp_bind.2 (Prog.wp_get.2 (Prog.wp_bind.2 ?_))
  refine Prog.wp_attempt.2 (Prog.wp_bind.2 (wp_tick hs (fun s₁ h₁ => ?_) fun e s₁ hf h₁ => ?_))
  · refine Prog.wp_ite (fun hend => ?_) fun hin => ?_
    · exact herr _ _ _ h₁ (by simp) fun _ => hend
    · exact hok _ h₁ (Nat.not_lt.1 hin)
  · exact herr _ _ _ h₁ (by simp) fun hc => absurd hc hf

end Steps

/-! ## Reading in more entries -/

theorem getElem?_read {first : ℕ} (hfits : off + n ≤ buf.length) (hj : off ≤ j)
    (hj' : j < off + n) :
    (overwrite buf off ((List.range' first n).map st))[j]? = some (st (first + (j - off))) := by
  rw [getElem?_overwrite_mid (by simpa using hfits) hj (by simpa using hj'), List.getElem?_map,
    List.getElem?_range' (by omega)]
  simp

/-- A buffer after `realloc`. -/
def grown (buf : List FatEntry) (size : ℕ) (junk : ℕ → FatEntry) : List FatEntry :=
  buf.take size ++ (List.range (size - buf.length)).map junk

theorem length_grown (buf : List FatEntry) (size : ℕ) (junk : ℕ → FatEntry) :
    (grown buf size junk).length = size := by
  simp only [grown, List.length_append, List.length_take, List.length_map, List.length_range]
  omega

theorem getElem?_grown {size : ℕ} {junk : ℕ → FatEntry} (hj : j < size) (hj' : j < buf.length)
    : (grown buf size junk)[j]? = buf[j]? := by
  rw [grown, List.getElem?_append_left (by rw [List.length_take]; omega),
    List.getElem?_take_of_lt hj]

/-- The buffer has entries again, and the next ones. -/
def Refilled (cfg : FatConfig) (P : ℕ → Prop) (s : FatState) (d : FatEntryDir)
    (s' : FatState) : Prop :=
  ∃ d', Turned s s' (some d') ∧ Stored cfg P s.storage d' ∧ Shape cfg d' ∧ Ahead s.storage d'
    ∧ d'.idxCurr < d'.numBuffered ∧ d'.numTotalRead = d.numTotalRead

/-- The refill failed, with the cache still as storage is. -/
def Broken (cfg : FatConfig) (P : ℕ → Prop) (s : FatState) (total : ℕ) (s' : FatState) : Prop :=
  (∃ d', Turned s s' (some d') ∧ Stored cfg P s.storage d')
    ∧ (s.oracle.faults = [] → cfg.deviceEntries < total + cfg.rdEntries)

/-- What a refill does. -/
def Refills (cfg : FatConfig) (P : ℕ → Prop) (s : FatState) (d : FatEntryDir) : Prop :=
  Prog.wp (refill cfg d) (fun _ => Refilled cfg P s d) (fun _ => Broken cfg P s d.numTotalRead)
    (AtCut s) s

section

variable (hstored : Stored cfg P s.storage d) (hshape : Shape cfg d)
include hstored hshape

theorem wp_refill_uncached (hcache : cfg.cacheEntries = 0) : Refills cfg P s d := by
  have hn := hshape.uncached hcache
  have hlen := hstored.len
  have hrd := cfg.rd_pos
  unfold Refills refill
  refine Prog.wp_ite (fun _ => Prog.wp_bind.2 ?_) fun h => absurd hcache h
  refine wp_readEntries (List.suffix_rfl) (by omega) (fun s₁ h₁ hdev => ?_)
    fun e s₁ es h₁ hes hend => ?_
  · refine ⟨_, h₁.set, ⟨?_, ?_, ?_⟩, ⟨?_, ?_, hshape.uncached, ?_, ?_, ?_⟩, ?_, ?_, rfl⟩
    · rw [length_overwrite (by simp; omega)]
      exact hlen
    · exact hstored.dev_le
    · exact fun j _ hj => by omega
    · exact Nat.zero_le _
    · show d.numTotalRead + (d.numBuffered - 0) ≤ _
      omega
    · exact fun h => absurd hcache h
    · exact fun h => absurd hcache h
    · exact fun h => absurd hcache h
    · intro j hj hj'
      exact getElem?_read (by omega) hj (by rw [← hn, Nat.zero_add]; exact hj')
    · show 0 < d.numBuffered
      omega
  · refine ⟨⟨{ d with buf := overwrite d.buf 0 es, idxCurr := 0 }, h₁.set, ?_, hstored.dev_le,
      fun j _ hj => by omega⟩, hend⟩
    show d.numBuffered ≤ _
    rw [length_overwrite (by omega)]
    exact hlen

theorem wp_refill_growing (hd : s.dir = some d) (hout : d.numBuffered ≤ d.idxCurr)
    (hcache : cfg.cacheEntries ≠ 0) (hmax : d.numTotalRead < cfg.bufMaxEntries) :
    Refills cfg P s d := by
  have hlen := hstored.len
  have hrd := cfg.rd_pos
  have hidx := hshape.growing hcache hmax
  have hall : d.numBuffered = d.numTotalRead := by
    have := hshape.idx_le
    omega
  unfold Refills refill
  refine Prog.wp_ite (fun h => absurd h hcache) fun _ =>
    Prog.wp_ite (fun _ => ?_) fun h => absurd hmax h
  generalize hn : min (cfg.bufMaxEntries - d.numTotalRead) cfg.rdEntries = n
  refine Prog.wp_bind.2 (wp_tickAlloc (List.suffix_rfl)
    (fun s₁ h₁ => Prog.wp_bind.2 (Prog.wp_get.2 (Prog.wp_bind.2 ?_))) fun e s₁ hf h₁ =>
    ⟨⟨d, hd ▸ h₁, hstored⟩, fun hc => absurd hc hf⟩)
  have hsize := length_grown d.buf (d.numBuffered + n) s₁.junk
  have hcached : ∀ {es : List FatEntry}, es.length = n → ∀ j, j < d.numBuffered →
    j < cfg.cacheEntries → P j →
      (overwrite (grown d.buf (d.numBuffered + n) s₁.junk) d.numTotalRead es)[j]?
      = some (s.storage j) := by
    intro es hes j hj hjc hP
    rw [getElem?_overwrite_left (by omega) (by omega), getElem?_grown (by omega) (by omega)]
    exact hstored.same j hj hjc hP
  refine wp_readEntries h₁.kept (by rw [← grown]; omega) (fun s₂ h₂ hdev => ?_)
    fun e s₂ es h₂ hes hend => ?_
  · rw [← grown, h₁.storage_eq]
    refine ⟨_, (h₁.trans h₂).set.set, ⟨?_, ?_, ?_⟩, ⟨?_, ?_, ?_, ?_, ?_, ?_⟩, ?_, ?_, rfl⟩
    · show d.numBuffered + n ≤ _
      rw [length_overwrite (by simp; omega), hsize]
    · show d.numBuffered + n ≤ _
      omega
    · intro j hj hjc hP
      rcases Nat.lt_or_ge j d.numBuffered with hlt | hge
      · exact hcached (by simp) j hlt hjc hP
      · have hj' : j < d.numBuffered + n := hj
        refine (getElem?_read (by omega) (by omega) (by omega)).trans ?_
        rw [Nat.add_sub_cancel' (by omega)]
    · show d.idxCurr ≤ d.numBuffered + n
      omega
    · show d.numTotalRead + (d.numBuffered + n - d.idxCurr) ≤ _
      omega
    · exact fun h => absurd h hcache
    · exact hshape.growing
    · intro _
      show d.numBuffered + n ≤ _
      omega
    · exact fun _ h => absurd hmax (Nat.not_lt.2 h)
    · intro j hj hj'
      have hjd : d.idxCurr ≤ j := hj
      have hjn : j < d.numBuffered + n := hj'
      rw [show (_ : FatEntryDir).idxCurr = d.numTotalRead from hidx]
      exact getElem?_read (by omega) (by omega) (by omega)
    · show d.idxCurr < d.numBuffered + n
      omega
  · rw [← grown]
    refine ⟨⟨{ d with
      buf := overwrite (grown d.buf (d.numBuffered + n) s₁.junk) d.numTotalRead es },
      (h₁.trans h₂).set, ?_, hstored.dev_le, hcached hes⟩, fun hc => ?_⟩
    · show d.numBuffered ≤ _
      rw [length_overwrite (by omega), hsize]
      omega
    · have := hend (calm_of_kept h₁.kept hc)
      omega

theorem wp_refill_full (hcache : cfg.cacheEntries ≠ 0) (hmax : cfg.bufMaxEntries ≤ d.numTotalRead) :
    Refills cfg P s d := by
  have hlen := hstored.len
  have hrd := cfg.rd_pos
  have hn : d.numBuffered = cfg.cacheEntries + cfg.rdEntries := hshape.full hcache hmax
  have hcached : ∀ {es : List FatEntry}, es.length = cfg.rdEntries → ∀ j, j < d.numBuffered →
      j < cfg.cacheEntries → P j →
      (overwrite d.buf cfg.cacheEntries es)[j]? = some (s.storage j) := by
    intro es hes j hj hjc hP
    rw [getElem?_overwrite_left (by omega) hjc]
    exact hstored.same j hj hjc hP
  unfold Refills refill
  refine Prog.wp_ite (fun h => absurd h hcache) fun _ => Prog.wp_ite (fun h => by omega) fun _ =>
    Prog.wp_bind.2 ?_
  refine wp_readEntries (List.suffix_rfl) (by omega) (fun s₁ h₁ hdev => ?_)
    fun e s₁ es h₁ hes hend => ?_
  · refine ⟨_, h₁.set, ⟨?_, hstored.dev_le, hcached (by simp)⟩,
      ⟨?_, ?_, hshape.uncached, ?_, hshape.le_max, hshape.full⟩, ?_, ?_, rfl⟩
    · show d.numBuffered ≤ _
      rw [length_overwrite (by simp; omega)]
      exact hlen
    · show cfg.cacheEntries ≤ d.numBuffered
      omega
    · show d.numTotalRead + (d.numBuffered - cfg.cacheEntries) ≤ _
      omega
    · exact fun _ h => absurd h (Nat.not_lt.2 hmax)
    · intro j hj hj'
      exact getElem?_read (by omega) hj (hn ▸ hj')
    · show cfg.cacheEntries < d.numBuffered
      omega
  · refine ⟨⟨{ d with buf := overwrite d.buf cfg.cacheEntries es, idxCurr := cfg.cacheEntries },
      h₁.set, ?_, hstored.dev_le, hcached hes⟩, hend⟩
    show d.numBuffered ≤ _
    rw [length_overwrite (by omega)]
    exact hlen

theorem wp_refill (hd : s.dir = some d) (hout : d.numBuffered ≤ d.idxCurr) : Refills cfg P s d := by
  by_cases hcache : cfg.cacheEntries = 0
  · exact wp_refill_uncached hstored hshape hcache
  · rcases Nat.lt_or_ge d.numTotalRead cfg.bufMaxEntries with hmax | hmax
    · exact wp_refill_growing hstored hshape hd hout hcache hmax
    · exact wp_refill_full hstored hshape hcache hmax

end

/-! ## Getting the entries -/

/-- What a call of `fat_entry_dir_get_next` gives. -/
inductive Got (cfg : FatConfig) (P : ℕ → Prop) (s : FatState) (d : FatEntryDir) :
    Option (FatEntry × ℕ) → FatState → Prop
  | null (h : d.lastReached = true) : Got cfg P s d none s
  | entry {fe : FatEntry} {d' : FatEntryDir} {s' : FatState} (h : d.lastReached = false)
    (turned : Turned s s' (some d')) (stored : Stored cfg P s.storage d') (shape : Shape cfg d')
    (total : d'.numTotalRead = d.numTotalRead + 1) (last : d'.lastReached = fe.last)
    (exact : Ahead s.storage d → fe = s.storage d.numTotalRead ∧ Ahead s.storage d') :
    Got cfg P s d (some (fe, fatAddressOf d.numTotalRead)) s'

theorem Shape.next (h : Shape cfg d) (hidx : d.idxCurr < d.numBuffered) (b : Bool) :
    Shape cfg { d with
      idxCurr := d.idxCurr + 1, numTotalRead := d.numTotalRead + 1, lastReached := b } where
  idx_le := hidx
  ahead_le := by
    have := h.ahead_le
    show d.numTotalRead + 1 + (d.numBuffered - (d.idxCurr + 1)) ≤ _
    omega
  uncached := h.uncached
  growing hcache hmax := congrArg (· + 1) (h.growing hcache (Nat.lt_of_succ_lt hmax))
  le_max := h.le_max
  full hcache hmax := by
    have hmax' : cfg.bufMaxEntries ≤ d.numTotalRead + 1 := hmax
    show d.numBuffered = _
    rcases Nat.lt_or_ge d.numTotalRead cfg.bufMaxEntries with hlt | hge
    · have := h.growing hcache hlt
      have := h.le_max hcache
      omega
    · exact h.full hcache hge

theorem wp_getNext (hstored : Stored cfg P s.storage d) (hshape : Shape cfg d)
    (hd : s.dir = some d) :
    Prog.wp (fatEntryDirGetNext cfg) (Got cfg P s d)
      (fun _ s' => d.lastReached = false ∧ Broken cfg P s d.numTotalRead s') (AtCut s) s := by
  unfold fatEntryDirGetNext
  refine Prog.wp_bind.2 (wp_getDir hd (Prog.wp_ite (fun h => .null h)
    fun hlast => Prog.wp_bind.2 ?_))
  -- the entry is in the buffer, or is read in
  have hready : Prog.wp (Prog.when (d.numBuffered ≤ d.idxCurr) (refill cfg d))
      (fun _ s' => ∃ d', Turned s s' (some d') ∧ Stored cfg P s.storage d' ∧ Shape cfg d'
        ∧ d'.idxCurr < d'.numBuffered ∧ d'.numTotalRead = d.numTotalRead
        ∧ (Ahead s.storage d → Ahead s.storage d'))
      (fun _ => Broken cfg P s d.numTotalRead) (AtCut s) s := by
    by_cases hout : d.numBuffered ≤ d.idxCurr
    · rw [Prog.wp_when, if_pos (decide_eq_true hout)]
      refine Prog.wp_mono (wp_refill hstored hshape hd hout) ?_ (fun _ _ h => h) fun _ _ h => h
      rintro - s₁ ⟨d₁, h₁, hstored₁, hshape₁, hahead, hidx, htotal⟩
      exact ⟨d₁, h₁, hstored₁, hshape₁, hidx, htotal, fun _ => hahead⟩
    · rw [Prog.wp_when, if_neg (by simpa using hout)]
      exact ⟨d, hd ▸ Turned.refl s, hstored, hshape, Nat.not_le.1 hout, rfl, id⟩
  rw [Bool.not_eq_true] at hlast
  refine Prog.wp_mono hready ?_ (fun _ _ h => ⟨hlast, h⟩) fun _ _ h => h
  rintro - s₁ ⟨d₁, h₁, hstored₁, hshape₁, hidx, htotal, hahead⟩
  refine Prog.wp_bind.2 (wp_getDir h₁.dir_eq ?_)
  obtain ⟨fe, hfe⟩ : ∃ fe, d₁.buf[d₁.idxCurr]? = some fe :=
    ⟨_, List.getElem?_eq_getElem (hidx.trans_le hstored₁.len)⟩
  rw [hfe]
  have hgot : Got cfg P s d (some (fe, fatAddressOf d.numTotalRead)) { s₁ with dir := some { d₁ with
      idxCurr := d₁.idxCurr + 1, numTotalRead := d₁.numTotalRead + 1,
      lastReached := fe.last } } := by
    refine .entry hlast h₁.set ⟨hstored₁.len, hstored₁.dev_le,
      hstored₁.same⟩ (hshape₁.next hidx fe.last) (congrArg (· + 1) htotal) rfl fun h =>
      ⟨?_, fun j hj hj' => ?_⟩
    · have := hahead h d₁.idxCurr le_rfl hidx
      rw [hfe, Nat.sub_self, Nat.add_zero, htotal] at this
      exact Option.some.inj this
    · have hj₁ : d₁.idxCurr + 1 ≤ j := hj
      refine (hahead h j (by omega) hj').trans (congrArg (fun i => some (s.storage i)) ?_)
      show d₁.numTotalRead + (j - d₁.idxCurr) = d₁.numTotalRead + 1 + (j - (d₁.idxCurr + 1))
      omega
  rw [← htotal] at hgot
  exact hgot

/-- Calls from entry `t` on return what is in storage. They end with null behind an entry flagged
last, and without a fault they fail at the end of the device only. -/
structure ExactFrom (cfg : FatConfig) (st : ℕ → FatEntry) (calm : Prop) (t : ℕ) (last : Bool)
    (calls : ℕ) (r : List (FatEntry × ℕ) × Ended) : Prop where
  entries : r.1 = (List.range' t r.1.length).map fun i => (st i, fatAddressOf i)
  unflagged : ∀ i, t ≤ i → i + 1 < t + r.1.length → (st i).last = false
  done : last = true → r.1 = [] ∧ r.2 ≠ .failed
  null : r.2 = .null → if r.1 = [] then last = true else (st (t + r.1.length - 1)).last = true
  stopped : r.2 = .stopped → r.1.length = calls
  failed : r.2 = .failed → (∀ i, t ≤ i → i < t + r.1.length → (st i).last = false)
    ∧ (calm → cfg.deviceEntries < t + r.1.length + cfg.rdEntries)

theorem ExactFrom.cons {calm : Prop} {t : ℕ} {r : List (FatEntry × ℕ) × Ended}
    (h : ExactFrom cfg st calm (t + 1) (st t).last calls r) :
    ExactFrom cfg st calm t false (calls + 1) ((st t, fatAddressOf t) :: r.1, r.2) where
  entries := by
    rw [List.length_cons, List.range'_succ, List.map_cons, ← h.entries]
  unflagged i hi hi' := by
    rw [List.length_cons] at hi'
    rcases Nat.eq_or_lt_of_le hi with rfl | hlt
    · by_contra hlast
      rw [(h.done (by simpa using hlast)).1, List.length_nil] at hi'
      omega
    · exact h.unflagged i hlt (by omega)
  done := nofun
  null hnull := by
    have := h.null hnull
    rw [if_neg (List.cons_ne_nil _ _), List.length_cons]
    by_cases hnil : r.1 = []
    · rw [if_pos hnil] at this
      rw [hnil]
      exact this
    · rw [if_neg hnil] at this
      have hpos := List.length_pos_of_ne_nil hnil
      rwa [show t + (r.1.length + 1) - 1 = t + 1 + r.1.length - 1 by omega]
  stopped hstop := congrArg (· + 1) (h.stopped hstop)
  failed hfail := by
    obtain ⟨hall, hend⟩ := h.failed hfail
    rw [List.length_cons]
    refine ⟨fun i hi hi' => ?_, fun hc => ?_⟩
    · rcases Nat.eq_or_lt_of_le hi with rfl | hlt
      · by_contra hlast
        exact (h.done (by simpa using hlast)).2 hfail
      · exact hall i hlt (by omega)
    · have := hend hc
      omega

/-- What several calls give. -/
def Fetched (cfg : FatConfig) (P : ℕ → Prop) (s : FatState) (d : FatEntryDir) (calls : ℕ)
    (r : List (FatEntry × ℕ) × Ended) (s' : FatState) : Prop :=
  (∃ d', Turned s s' (some d') ∧ Stored cfg P s.storage d' ∧ (r.2 ≠ .failed → Shape cfg d'))
    ∧ (Ahead s.storage d → ExactFrom cfg s.storage
    (s.oracle.faults = []) d.numTotalRead d.lastReached calls r)

theorem wp_getEntries :
    ∀ (calls : ℕ) {s : FatState} {d : FatEntryDir}, Stored cfg P s.storage d → Shape cfg d →
    s.dir = some d → Prog.wp (getEntries cfg calls) (Fetched cfg P s d calls) (fun _ _ => False)
      (AtCut s) s
  | 0, s, d, hstored, hshape, hd => by
    refine ⟨⟨d, hd ▸ Turned.refl s, hstored, fun _ => hshape⟩, fun _ => ?_⟩
    exact ⟨rfl, fun i hi hi' => absurd hi' (by simp; omega), fun _ => ⟨rfl, nofun⟩, nofun,
      fun _ => rfl, nofun⟩
  | calls + 1, s, d, hstored, hshape, hd => by
    unfold getEntries
    refine Prog.wp_bind.2 (Prog.wp_attempt.2 (Prog.wp_mono (wp_getNext hstored hshape hd)
      (fun r s₁ hgot => ?_) (fun e s₁ hbroken => ?_) fun _ _ h => h))
    · cases hgot with
      | null hlast =>
        refine ⟨⟨d, hd ▸ Turned.refl s, hstored, fun _ => hshape⟩, fun _ => ?_⟩
        exact ⟨rfl, fun i hi hi' => absurd hi' (by simp; omega), fun _ => ⟨rfl, nofun⟩,
          fun _ => hlast, nofun, nofun⟩
      | @entry fe d₁ _ hlast h₁ hstored₁ hshape₁ htotal hlast₁ hexact =>
        rw [← h₁.storage_eq] at hstored₁
        refine Prog.wp_bind.2 (Prog.wp_mono (wp_getEntries calls hstored₁ hshape₁ h₁.dir_eq)
          (fun r s₂ hr => ?_) (fun _ _ h => h) fun _ _ => .mono h₁.kept)
        obtain ⟨⟨d₂, h₂, hstored₂, hshape₂⟩, hrest⟩ := hr
        rw [h₁.storage_eq] at hstored₂ hrest
        refine ⟨⟨d₂, h₁.trans h₂, hstored₂, hshape₂⟩, fun hahead => ?_⟩
        obtain ⟨rfl, hahead₁⟩ := hexact hahead
        have hrest := hrest hahead₁
        rw [htotal, hlast₁] at hrest
        rw [hlast]
        have hcons := hrest.cons
        exact ⟨hcons.entries, hcons.unflagged, hcons.done, hcons.null, hcons.stopped, fun hfail =>
          ⟨(hcons.failed hfail).1, fun hc => (hcons.failed hfail).2 (calm_of_kept h₁.kept hc)⟩⟩
    · obtain ⟨hlast, ⟨d₁, h₁, hstored₁⟩, hend⟩ := hbroken
      refine ⟨⟨d₁, h₁, hstored₁, fun h => absurd rfl h⟩, fun _ => ?_⟩
      rw [hlast]
      exact ⟨rfl, fun i hi hi' => absurd hi' (by simp; omega), nofun, nofun, nofun, fun _ =>
        ⟨fun i hi hi' => absurd hi' (by simp; omega), hend⟩⟩

/-! ## Start and end of a traversal -/

/-- The cache, if there is one, is as storage is. -/
def Held (cfg : FatConfig) (P : ℕ → Prop) (s : FatState) : Prop :=
  ∀ d, s.dir = some d → Stored cfg P s.storage d ∧ Shape cfg d

/-- No traversal is under way. -/
def AtRest (cfg : FatConfig) (s : FatState) : Prop :=
  ∀ d, s.dir = some d → cfg.cacheEntries ≠ 0 ∧ d.idxCurr = 0 ∧ d.numTotalRead = 0
    ∧ d.lastReached = false
    ∧ d.numBuffered ≤ cfg.cacheEntries

theorem Stored.ahead (h : Stored cfg (fun _ => True) st d) (hidx : d.idxCurr = 0)
    (htotal : d.numTotalRead = 0) (hn : d.numBuffered ≤ cfg.cacheEntries) : Ahead st d := by
  intro j _ hj
  rw [htotal, hidx, Nat.zero_add, Nat.sub_zero]
  exact h.same j hj (by omega) trivial

theorem Stored.restart (h : Stored cfg P st d) (hcache : cfg.cacheEntries ≠ 0)
    (hn : n ≤ d.numBuffered) (hmax : n ≤ cfg.cacheEntries) (hlen : n ≤ buf.length)
    (hbuf : ∀ j, j < n → buf[j]? = d.buf[j]?) :
    Stored cfg P st ⟨buf, 0, n, 0, false⟩ ∧ Shape cfg ⟨buf, 0, n, 0, false⟩ := by
  have hdev := h.dev_le
  have hpos : 0 < cfg.bufMaxEntries := Nat.add_pos_right _ cfg.rd_pos
  refine ⟨⟨hlen, hn.trans hdev, fun j hj hjc hP => ?_⟩,
    ⟨Nat.zero_le _, ?_, fun h => absurd h hcache, ?_, ?_, ?_⟩⟩
  · exact (hbuf j hj).trans (h.same j (hj.trans_le hn) hjc hP)
  · show 0 + (n - 0) ≤ _
    omega
  · exact fun _ _ => rfl
  · exact fun _ => hmax.trans (Nat.le_add_right _ _)
  · exact fun _ h => absurd hpos (Nat.not_lt.2 h)

variable (P st) in
theorem fresh_dir (hlen : n ≤ buf.length) (hdev : n ≤ cfg.deviceEntries)
    (huncached : cfg.cacheEntries = 0 → n = cfg.rdEntries)
    (hcached : cfg.cacheEntries ≠ 0 → n ≤ cfg.cacheEntries)
    (hbuf : ∀ j, j < n → buf[j]? = some (st j)) :
    Stored cfg P st ⟨buf, 0, n, 0, false⟩ ∧ Shape cfg ⟨buf, 0, n, 0, false⟩
      ∧ Ahead st ⟨buf, 0, n, 0, false⟩ := by
  have hpos : 0 < cfg.bufMaxEntries := Nat.add_pos_right _ cfg.rd_pos
  refine ⟨⟨hlen, hdev, fun j hj _ _ => hbuf j hj⟩, ⟨Nat.zero_le _, ?_, huncached, ?_, ?_, ?_⟩,
    fun j _ hj => ?_⟩
  · show 0 + (n - 0) ≤ _
    omega
  · exact fun _ _ => rfl
  · exact fun h => (hcached h).trans (Nat.le_add_right _ _)
  · exact fun _ h => absurd hpos (Nat.not_lt.2 h)
  · refine (hbuf j hj).trans (congrArg (fun i => some (st i)) ?_)
    show j = 0 + (j - 0)
    omega

theorem wp_dirInit (h : Held cfg P s) :
    Prog.wp (fatEntryDirInit cfg)
      (fun _ s' => ∃ d, Turned s s' (some d) ∧ Stored cfg P s.storage d ∧ Shape cfg d
        ∧ (s.dir = some d ∨ Ahead s.storage d ∧ d.numTotalRead = 0 ∧ d.lastReached = false))
      (fun _ s' => Turned s s' none ∧ (s.oracle.faults = [] → cfg.deviceEntries < cfg.rdEntries))
        (AtCut s) s := by
  unfold fatEntryDirInit
  refine Prog.wp_bind.2 (Prog.wp_get.2 ?_)
  rcases hd : s.dir with _ | d
  · refine Prog.wp_bind.2 (wp_tick (List.suffix_rfl) (fun s₁ h₁ => ?_)
      fun _ _ hf h₁ => ⟨hd ▸ h₁, fun hc => absurd hc hf⟩)
    rw [hd] at h₁
    refine Prog.wp_bind.2 (wp_tickAlloc h₁.kept (fun s₂ h₂ => ?_) fun _ _ hf h₂ =>
      ⟨h₁.dir_eq ▸ h₁.trans h₂, fun hc => absurd (calm_of_kept h₁.kept hc) hf⟩)
    replace h₂ := h₁.trans (h₁.dir_eq ▸ h₂)
    refine Prog.wp_bind.2 (wp_tickAlloc h₂.kept (fun s₃ h₃ => ?_) fun _ _ hf h₃ =>
      ⟨h₂.dir_eq ▸ h₂.trans h₃, fun hc => absurd (calm_of_kept h₂.kept hc) hf⟩)
    replace h₃ := h₂.trans (h₂.dir_eq ▸ h₃)
    generalize hn : (if cfg.cacheEntries ≠ 0 then min cfg.cacheEntries cfg.rdEntries
      else cfg.rdEntries) = n
    have hle : n ≤ cfg.rdEntries ∧ (cfg.cacheEntries = 0 → n = cfg.rdEntries)
        ∧ (cfg.cacheEntries ≠ 0 → n ≤ cfg.cacheEntries) := by
      split_ifs at hn <;> omega
    refine Prog.wp_bind.2 (wp_readEntries h₃.kept (by simp) (fun s₄ h₄ hdev => ?_)
      fun e s₄ es h₄ hes hend => ?_)
    · rw [h₃.storage_eq]
      have hlen :
          n ≤ (overwrite (List.replicate n FatEntry.zero) 0
          ((List.range' 0 n).map s.storage)).length := by
        rw [length_overwrite (by simp), List.length_replicate]
      obtain ⟨hstored, hshape, hahead⟩ := fresh_dir P s.storage hlen (by omega) hle.2.1 hle.2.2
        fun j hj =>
        (getElem?_read (by simp) (Nat.zero_le j) (by omega)).trans (by simp)
      exact ⟨_, (h₃.trans h₄).set, hstored, hshape, .inr ⟨hahead, rfl, rfl⟩⟩
    · refine ⟨h₃.dir_eq ▸ h₃.trans h₄, fun hc => ?_⟩
      have := hend (calm_of_kept h₃.kept hc)
      omega
  · obtain ⟨hstored, hshape⟩ := h d hd
    exact ⟨d, hd ▸ Turned.refl s, hstored, hshape, .inl rfl⟩

theorem wp_deinit (h : ∀ d, s.dir = some d → Stored cfg P s.storage d) :
    Prog.wp (fatEntryDirDeinit cfg) (fun _ s' => Held cfg P s' ∧ AtRest cfg s'
      ∧ ∃ dir, Turned s s' dir)
      (fun _ _ => False) (AtCut s) s := by
  have hnone : ∀ {s' : FatState}, Turned s s' none → Held cfg P s' ∧ AtRest cfg s' ∧ ∃ dir,
      Turned s s' dir :=
    fun h' => ⟨fun d hd => absurd (h'.dir_eq.symm.trans hd) nofun,
      fun d hd => absurd (h'.dir_eq.symm.trans hd) nofun, _, h'⟩
  have hsome : ∀ {s' : FatState} {buf : List FatEntry} {n : ℕ},
    Turned s s' (some ⟨buf, 0, n, 0, false⟩) →
      cfg.cacheEntries ≠ 0 → n ≤ cfg.cacheEntries →
      Stored cfg P s.storage ⟨buf, 0, n, 0, false⟩ ∧ Shape cfg ⟨buf, 0, n, 0, false⟩ →
      Held cfg P s' ∧ AtRest cfg s' ∧ ∃ dir, Turned s s' dir := by
    intro s' buf n h' hcache hn hboth
    refine ⟨fun d hd => ?_, fun d hd => ?_, _, h'⟩
    · obtain rfl := Option.some.inj (h'.dir_eq.symm.trans hd)
      exact h'.storage_eq ▸ hboth
    · obtain rfl := Option.some.inj (h'.dir_eq.symm.trans hd)
      exact ⟨hcache, rfl, rfl, rfl, hn⟩
  unfold fatEntryDirDeinit
  refine Prog.wp_bind.2 (Prog.wp_get.2 ?_)
  rcases hd : s.dir with _ | d
  · exact hnone (hd ▸ Turned.refl s)
  · have hstored := h d hd
    have hlen := hstored.len
    refine Prog.wp_ite (fun _ => hnone (Turned.refl s).set) fun hcache =>
      Prog.wp_ite (fun hbig => ?_) fun hsmall => ?_
    · refine Prog.wp_bind.2 (Prog.wp_attempt.2 (wp_tickAlloc (List.suffix_rfl) (fun s₁ h₁ => ?_)
        fun _ _ _ h₁ => hnone h₁.set))
      refine hsome h₁.set hcache le_rfl (hstored.restart hcache hbig.le le_rfl ?_ fun j hj => ?_)
      · rw [List.length_take]
        omega
      · exact List.getElem?_take_of_lt hj
    · exact hsome (Turned.refl s).set hcache (Nat.not_lt.1 hsmall)
        (hstored.restart hcache le_rfl (Nat.not_lt.1 hsmall) hlen fun _ _ => rfl)

theorem wp_dumpFat (h : Held cfg P s) :
    Prog.wp (dumpFat cfg) (fun _ s' => Held cfg P s' ∧ AtRest cfg s' ∧ ∃ dir, Turned s s' dir)
      (fun _ _ => False)
      (AtCut s) s := by
  unfold dumpFat
  refine Prog.wp_bind.2 (Prog.wp_attempt.2 (Prog.wp_mono (wp_dirInit h) (fun _ s₁ h₁ => ?_)
    (fun _ s₁ h₁ => ?_) fun _ _ h => h))
  · obtain ⟨d, h₁, hstored, hshape, -⟩ := h₁
    rw [← h₁.storage_eq] at hstored
    refine Prog.wp_bind.2 (Prog.wp_mono (wp_getEntries _ hstored hshape h₁.dir_eq)
      (fun r s₂ hr => ?_) (fun _ _ h => h) fun _ _ => .mono h₁.kept)
    obtain ⟨⟨d₂, h₂, hstored₂, -⟩, -⟩ := hr
    have hleft : ∀ d, s₂.dir = some d → Stored cfg P s₂.storage d := by
      intro d hd
      obtain rfl := Option.some.inj (h₂.dir_eq.symm.trans hd)
      exact h₂.storage_eq ▸ hstored₂
    refine Prog.wp_mono (wp_deinit hleft) (fun _ s₃ h₃ => ?_) (fun _ _ h => h)
      fun _ _ => .mono (h₁.trans h₂).kept
    obtain ⟨hheld, hrest, dir, h₃⟩ := h₃
    exact ⟨hheld, hrest, dir, (h₁.trans h₂).trans h₃⟩
  · exact ⟨fun d hd => absurd (h₁.1.dir_eq.symm.trans hd) nofun,
      fun d hd => absurd (h₁.1.dir_eq.symm.trans hd) nofun, _, h₁.1⟩

/-! ## Writes -/

section Writes

variable {a : BitVec 32} {fe : FatEntry}

/-- The number of the entry at an address. -/
def entryAt (a : ℕ) : ℕ := (a - fatStartAddress) / fatEntrySize

/-- The entry is not the one that is written. -/
def Unwritten (a j : ℕ) : Prop := a < fatStartAddress ∨ j ≠ entryAt a

/-- The cache still is as storage is. -/
structure Steady (cfg : FatConfig) (P : ℕ → Prop) (s s' : FatState) : Prop where
  held : Held cfg P s'
  rest : AtRest cfg s → AtRest cfg s'
  kept : s'.oracle.faults <:+ s.oracle.faults

theorem Steady.trans {Q : ℕ → Prop} {s'' : FatState} (h : Steady cfg P s s')
    (h' : Steady cfg Q s' s'') :
    Steady cfg Q s s'' := ⟨h'.held, fun hr => h'.rest (h.rest hr), h'.kept.trans h.kept⟩

theorem Held.turned (h : Held cfg P s) (hs : Turned s s' s.dir) : Steady cfg P s s' where
  held := by
    intro d hd
    rw [hs.storage_eq]
    exact h d (hs.dir_eq.symm.trans hd)
  rest hr d hd := hr d (hs.dir_eq.symm.trans hd)
  kept := hs.kept

variable (a) in
theorem update_idx (ha : partitionSize ≤ a.toNat) (hmod : a.toNat % fatEntrySize = 0) :
    fatOffset a.toNat % fatEntrySize = 0
      ∧ (fatStartAddress ≤ a.toNat → fatOffset a.toNat / fatEntrySize = entryAt a.toNat)
      ∧ (a.toNat < fatStartAddress → 65536 ≤ fatOffset a.toNat / fatEntrySize) := by
  have hlt := a.isLt
  unfold fatOffset u32 entryAt fatStartAddress fatEntrySize partitionSize at *
  omega

theorem Stored.weaken {Q : ℕ → Prop} (h : Stored cfg P st d)
    (hP : ∀ j, j < d.numBuffered → j < cfg.cacheEntries → Q j → P j) : Stored cfg Q st d :=
  ⟨h.len, h.dev_le, fun j hj hjc hQ => h.same j hj hjc (hP j hj hjc hQ)⟩

variable (a) in
theorem wp_update (ha : partitionSize ≤ a.toNat) (hmod : a.toNat % fatEntrySize = 0)
    (h : Held cfg (Unwritten a.toNat) s)
    (hfe : fatStartAddress ≤ a.toNat → s.storage (entryAt a.toNat) = fe) :
    Prog.wp (fatEntryDirUpdate cfg fe a.toNat) (fun _ => Steady cfg (fun _ => True) s)
      (fun _ _ => False) (AtCut s) s := by
  obtain ⟨halign, hidx, hpast⟩ := update_idx a ha hmod
  unfold fatEntryDirUpdate
  refine Prog.wp_ite (fun h => absurd halign h) fun _ => Prog.wp_bind.2 (Prog.wp_get.2 ?_)
  rcases hd : s.dir with _ | d
  · exact ⟨fun d hd' => absurd (hd.symm.trans hd') nofun, id, List.suffix_rfl⟩
  obtain ⟨hstored, hshape⟩ := h d hd
  refine Prog.wp_ite (fun hin => ?_) fun hout => ?_
  · have hstart : fatStartAddress ≤ a.toNat := by
      by_contra hlow
      have := hpast (Nat.not_le.1 hlow)
      have := hstored.dev_le
      have := cfg.device_le
      omega
    rw [hidx hstart] at hin ⊢
    refine Prog.wp_ite (fun hlt => ⟨?_, ?_, List.suffix_rfl⟩) fun hno =>
      absurd (hin.1.trans_le hstored.len) hno
    · intro d' hd'
      obtain rfl := Option.some.inj (Eq.trans (show some _ = _ from rfl) hd')
      refine ⟨⟨by simpa using hstored.len, hstored.dev_le, fun j hj hjc _ => ?_⟩,
        ⟨hshape.idx_le, hshape.ahead_le, hshape.uncached, hshape.growing, hshape.le_max,
        hshape.full⟩⟩
      by_cases hj' : entryAt a.toNat = j
      · subst hj'
        show (d.buf.set _ fe)[_]? = some (s.storage _)
        rw [List.getElem?_set_self hlt, hfe hstart]
      · show (d.buf.set _ fe)[j]? = some (s.storage j)
        rw [List.getElem?_set_ne hj']
        exact hstored.same j hj hjc (.inr (Ne.symm hj'))
    · intro hr d' hd'
      obtain rfl := Option.some.inj (Eq.trans (show some _ = _ from rfl) hd')
      exact hr d hd
  · refine ⟨fun d' hd' => ?_, id, List.suffix_rfl⟩
    obtain rfl := Option.some.inj (hd.symm.trans hd')
    refine ⟨hstored.weaken fun j hj hjc _ => ?_, hshape⟩
    by_cases hstart : fatStartAddress ≤ a.toNat
    · refine .inr fun hj' => hout ?_
      rw [hidx hstart, ← hj']
      exact ⟨hj, hjc⟩
    · exact .inl (Nat.not_le.1 hstart)

theorem wp_trace (h : Held cfg P s) : Prog.wp (Prog.when cfg.traceFlow (dumpFat cfg))
      (fun _ s' => Steady cfg P s s' ∧ s'.storage = s.storage) (fun _ _ => False) (AtCut s) s := by
  rw [Prog.wp_when]
  split
  · refine Prog.wp_mono (wp_dumpFat h) (fun _ s₁ h₁ => ?_) (fun _ _ h => h) fun _ _ h => h
    obtain ⟨hheld, hrest, dir, h₁⟩ := h₁
    exact ⟨⟨hheld, fun _ => hrest, h₁.kept⟩, h₁.storage_eq⟩
  · exact ⟨⟨h, id, List.suffix_rfl⟩, rfl⟩

theorem wp_writeEntry (h : Held cfg (fun _ => True) s) :
    Prog.wp (writeEntry cfg a.toNat fe)
      (fun _ s' => Steady cfg (Unwritten a.toNat) s s'
        ∧ (fatStartAddress ≤ a.toNat → s'.storage (entryAt a.toNat) = fe))
      (fun _ s' => Steady cfg (fun _ => True) s s') (AtCut s) s := by
  unfold writeEntry
  refine Prog.wp_bind.2 (wp_tick (List.suffix_rfl) (fun s₁ h₁ => ?_) fun _ _ _ h₁ => h.turned h₁)
  have hkept := h.turned h₁
  refine Prog.wp_ite (fun hlow => ?_) fun hstart => Prog.wp_ite (fun _ => hkept) fun _ => ?_
  · refine ⟨⟨fun d hd => ?_, hkept.rest, hkept.kept⟩,
      fun hstart => absurd hlow (Nat.not_lt.2 hstart)⟩
    obtain ⟨hstored, hshape⟩ := hkept.held d hd
    exact ⟨hstored.weaken fun _ _ _ _ => trivial, hshape⟩
  · refine ⟨⟨fun d hd => ?_, hkept.rest, hkept.kept⟩, fun _ => Function.update_self _ _ _⟩
    obtain ⟨hstored, hshape⟩ := hkept.held d hd
    refine ⟨⟨hstored.len, hstored.dev_le, fun j hj hjc hP => ?_⟩, hshape⟩
    refine (hstored.same j hj hjc trivial).trans (congrArg some (Function.update_of_ne ?_ _ _).symm)
    exact hP.resolve_left hstart

theorem wp_writeFatEntry (h : Held cfg (fun _ => True) s) :
    Prog.wp (writeFatEntry cfg a fe) (fun _ => Steady cfg (fun _ => True) s)
      (fun _ => Steady cfg (fun _ => True) s)
      (AtCut s) s := by
  have hrefl : Steady cfg (fun _ => True) s s := ⟨h, id, List.suffix_rfl⟩
  unfold writeFatEntry
  refine Prog.wp_ite (fun _ => hrefl) fun hlow => Prog.wp_ite (fun _ => hrefl) fun hmod => ?_
  rw [not_not] at hmod
  refine Prog.wp_bind.2 (Prog.wp_attempt.2 (Prog.wp_mono (wp_writeEntry h) (fun _ s₁ h₁ => ?_)
    (fun e s₁ h₁ => ?_) fun _ _ h => h))
  · refine Prog.wp_bind.2 (Prog.wp_mono (wp_trace h₁.1.held) (fun _ s₂ h₂ => ?_)
      (fun _ _ h => h.elim) fun _ _ => .mono h₁.1.kept)
    refine Prog.wp_bind.2 (Prog.wp_when.2 ?_)
    by_cases hcache : cfg.cacheEntries = 0
    · rw [if_neg (by simpa using hcache)]
      refine ⟨fun d hd => ?_, (h₁.1.trans h₂.1).rest, (h₁.1.trans h₂.1).kept⟩
      obtain ⟨hstored, hshape⟩ := h₂.1.held d hd
      exact ⟨hstored.weaken fun j _ hjc _ => by omega, hshape⟩
    · rw [if_pos (by simpa using hcache)]
      refine Prog.wp_mono (wp_update a (Nat.not_lt.1 hlow) hmod h₂.1.held fun hstart => ?_)
        (fun _ _ h₃ => (h₁.1.trans h₂.1).trans h₃) (fun _ _ h => h.elim)
        fun _ _ => .mono (h₁.1.trans h₂.1).kept
      rw [h₂.2]
      exact h₁.2 hstart
  · exact Prog.wp_bind.2 (Prog.wp_mono (wp_trace h₁.held) (fun _ s₂ h₂ => h₁.trans h₂.1)
      (fun _ _ h => h.elim) fun _ _ => .mono h₁.kept)

theorem wp_writeFatEntries :
    ∀ (ws : List (BitVec 32 × FatEntry)) {s : FatState}, Held cfg (fun _ => True) s →
    Prog.wp (writeFatEntries cfg ws) (fun _ => Steady cfg (fun _ => True) s) (fun _ _ => False)
      (AtCut s) s
  | [], _, h => ⟨h, id, List.suffix_rfl⟩
  | (a, fe) :: ws, s, h => by
    have hrest : ∀ {s₁}, Steady cfg (fun _ => True) s s₁ →
        Prog.wp (writeFatEntries cfg ws) (fun _ => Steady cfg (fun _ => True) s) (fun _ _ => False)
        (AtCut s) s₁ := fun h₁ =>
      Prog.wp_mono (wp_writeFatEntries ws h₁.held) (fun _ _ h₂ => h₁.trans h₂) (fun _ _ h => h)
        fun _ _ => .mono h₁.kept
    exact Prog.wp_bind.2
      (Prog.wp_attempt.2 (Prog.wp_mono (wp_writeFatEntry h) (fun _ _ h₁ => hrest h₁)
      (fun _ _ h₁ => hrest h₁) fun _ _ h => h))

end Writes

/-! ## Runs -/

/-- A traversal gives the entries in storage, in order, up to the last one. -/
structure Exact (cfg : FatConfig) (st : ℕ → FatEntry) (calm : Prop) (calls : ℕ)
    (r : List (FatEntry × ℕ) × Ended) : Prop where
  entries : r.1 = (List.range r.1.length).map fun i => (st i, fatAddressOf i)
  unflagged : ∀ i, i + 1 < r.1.length → (st i).last = false
  null : r.2 = .null → ∃ n, r.1.length = n + 1 ∧ (st n).last = true
  stopped : r.2 = .stopped → r.1.length = calls
  failed : r.2 = .failed → calm → ∀ n, (st n).last = true → cfg.deviceEntries < n + cfg.rdEntries

theorem ExactFrom.exact {calm : Prop} {r : List (FatEntry × ℕ) × Ended}
    (h : ExactFrom cfg st calm 0 false calls r) : Exact cfg st calm calls r where
  entries := by
    rw [List.range_eq_range']
    exact h.entries
  unflagged i hi := h.unflagged i (Nat.zero_le i) (by omega)
  null hnull := by
    have hlast := h.null hnull
    by_cases hnil : r.1 = []
    · rw [if_pos hnil] at hlast
      cases hlast
    · rw [if_neg hnil] at hlast
      have hpos := List.length_pos_of_ne_nil hnil
      exact ⟨r.1.length - 1, by omega, by simpa using hlast⟩
  stopped := h.stopped
  failed hfail hc n hn := by
    obtain ⟨hall, hend⟩ := h.failed hfail
    have hge : r.1.length ≤ n := by
      by_contra hlt
      rw [hall n (Nat.zero_le n) (by omega)] at hn
      cases hn
    have := hend hc
    omega

theorem wp_traverse {writes : List (BitVec 32 × FatEntry)} (hheld : Held cfg (fun _ => True) s)
    (hrest : AtRest cfg s) :
    Prog.wp (traverse cfg calls writes)
      (fun r s' => Exact cfg s.storage (s.oracle.faults = []) calls r
        ∧ Steady cfg (fun _ => True) s s')
      (fun _ _ => False) (AtCut s) s := by
  unfold FatM.traverse
  refine Prog.wp_bind.2 (Prog.wp_attempt.2 (Prog.wp_mono (wp_dirInit hheld) (fun _ s₁ h₁ => ?_)
    (fun e s₁ h₁ => ?_) fun _ _ h => h))
  · obtain ⟨d, h₁, hstored, hshape, hstart⟩ := h₁
    -- a buffer that was there is at rest
    have hfresh : Ahead s.storage d ∧ d.numTotalRead = 0 ∧ d.lastReached = false := by
      rcases hstart with hd | hfresh
      · obtain ⟨-, hidx, htotal, hlast, hn⟩ := hrest d hd
        exact ⟨hstored.ahead hidx htotal hn, htotal, hlast⟩
      · exact hfresh
    obtain ⟨hahead, htotal, hlast⟩ := hfresh
    rw [← h₁.storage_eq] at hstored hahead
    refine Prog.wp_bind.2 (Prog.wp_mono (wp_getEntries calls hstored hshape h₁.dir_eq)
      (fun r s₂ hr => ?_) (fun _ _ h => h) fun _ _ => .mono h₁.kept)
    obtain ⟨⟨d₂, h₂, hstored₂, hshape₂⟩, hexact⟩ := hr
    have hexact := hexact hahead
    rw [htotal, hlast, h₁.storage_eq] at hexact
    have hall : Exact cfg s.storage (s.oracle.faults = []) calls r :=
      { hexact.exact with
        failed := fun hfail hc => hexact.exact.failed hfail (calm_of_kept h₁.kept hc) }
    have hleft : ∀ d, s₂.dir = some d → Stored cfg (fun _ => True) s₂.storage d := by
      intro d hd
      obtain rfl := Option.some.inj (h₂.dir_eq.symm.trans hd)
      exact h₂.storage_eq ▸ hstored₂
    have hend : ∀ {s₃}, (∀ d, s₃.dir = some d → Stored cfg (fun _ => True) s₃.storage d) →
        s₃.oracle.faults <:+ s₂.oracle.faults → Prog.wp (do fatEntryDirDeinit cfg; pure r)
          (fun r s' => Exact cfg s.storage (s.oracle.faults = []) calls r
          ∧ Steady cfg (fun _ => True) s s') (fun _ _ => False) (AtCut s) s₃ := fun h₃ hkept =>
      Prog.wp_bind.2 (Prog.wp_mono (wp_deinit h₃) (fun _ s₄ ⟨hheld₄, hrest₄, _, h₄⟩ =>
        ⟨hall, hheld₄, fun _ => hrest₄, h₄.kept.trans (hkept.trans (h₁.trans h₂).kept)⟩)
        (fun _ _ h => h) fun _ _ => .mono (hkept.trans (h₁.trans h₂).kept))
    refine Prog.wp_bind.2 (Prog.wp_when.2 ?_)
    by_cases hfail : r.2 = .failed
    · rw [if_neg (by simpa using hfail)]
      exact hend hleft (List.suffix_rfl)
    · rw [if_pos (by simpa using hfail)]
      have hheld₂ : Held cfg (fun _ => True) s₂ := by
        intro d hd
        refine ⟨hleft d hd, ?_⟩
        obtain rfl := Option.some.inj (h₂.dir_eq.symm.trans hd)
        exact hshape₂ hfail
      exact Prog.wp_mono (wp_writeFatEntries writes hheld₂)
        (fun _ s₃ h₃ => hend (fun d hd => (h₃.held d hd).1) h₃.kept) (fun _ _ h => h)
        fun _ _ => .mono (h₁.trans h₂).kept
  · have hnone : ∀ d, s₁.dir = some d → Stored cfg (fun _ => True) s₁.storage d := fun d hd =>
      absurd (h₁.1.dir_eq.symm.trans hd) nofun
    refine Prog.wp_bind.2 (Prog.wp_mono (wp_deinit hnone) (fun _ s₂ h₂ => ?_) (fun _ _ h => h)
      fun _ _ => .mono h₁.1.kept)
    obtain ⟨hheld₂, hrest₂, dir, h₂⟩ := h₂
    refine ⟨⟨rfl, nofun, nofun, nofun, fun _ hc n _ => ?_⟩, hheld₂, fun _ => hrest₂,
      h₂.kept.trans h₁.1.kept⟩
    have := h₁.2 hc
    omega

/-- A traversal, with the writes before it ends, or a write between traversals. -/
inductive FatOp where
  | traverse (calls : ℕ) (writes : List (BitVec 32 × FatEntry))
  | write (rpmbFatAddress : BitVec 32) (fatEntry : FatEntry)

/-- What was in storage at a traversal, and what it gave. -/
structure Traversal where
  storage : ℕ → FatEntry
  calls : ℕ
  result : List (FatEntry × ℕ) × Ended

/-- The traversals of a run. -/
def runOps (cfg : FatConfig) : List FatOp → FatM (List Traversal)
  | [] => pure []
  | .traverse calls writes :: ops => do
    let s ← Prog.get
    let r ← traverse cfg calls writes
    let ts ← runOps cfg ops
    pure (⟨s.storage, calls, r⟩ :: ts)
  | .write rpmbFatAddress fatEntry :: ops => do
    let _ ← Prog.attempt (writeFatEntry cfg rpmbFatAddress fatEntry)
    runOps cfg ops

theorem wp_runOps :
    ∀ (ops : List FatOp) {s : FatState}, Held cfg (fun _ => True) s → AtRest cfg s →
    Prog.wp (runOps cfg ops)
      (fun ts _ => ∀ t ∈ ts, Exact cfg t.storage (s.oracle.faults = []) t.calls t.result)
        (fun _ _ => False) (AtCut s) s
  | [], _, _, _ => nofun
  | .traverse calls writes :: ops, s, hheld, hrest => by
    refine Prog.wp_bind.2
      (Prog.wp_get.2 (Prog.wp_bind.2 (Prog.wp_mono (wp_traverse hheld hrest) (fun r s₁ h₁ => ?_)
      (fun _ _ h => h) fun _ _ h => h)))
    refine Prog.wp_bind.2 (Prog.wp_mono (wp_runOps ops h₁.2.held (h₁.2.rest hrest))
      (fun ts s₂ h₂ t ht => ?_) (fun _ _ h => h) fun _ _ => .mono h₁.2.kept)
    rcases List.mem_cons.1 ht with rfl | ht
    · exact h₁.1
    · exact { h₂ t ht with
        failed := fun hfail hc => (h₂ t ht).failed hfail (calm_of_kept h₁.2.kept hc) }
  | .write rpmbFatAddress fatEntry :: ops, s, hheld, hrest => by
    have hrest' : ∀ {s₁}, Steady cfg (fun _ => True) s s₁ → Prog.wp (runOps cfg ops)
        (fun ts _ => ∀ t ∈ ts, Exact cfg t.storage (s.oracle.faults = []) t.calls t.result)
        (fun _ _ => False) (AtCut s) s₁ := fun h₁ =>
      Prog.wp_mono (wp_runOps ops h₁.held (h₁.rest hrest)) (fun ts _ h₂ t ht =>
        { h₂ t ht with failed := fun hfail hc => (h₂ t ht).failed hfail (calm_of_kept h₁.kept hc) })
        (fun _ _ h => h) fun _ _ => .mono h₁.kept
    exact Prog.wp_bind.2
      (Prog.wp_attempt.2 (Prog.wp_mono (wp_writeFatEntry hheld) (fun _ _ h₁ => hrest' h₁)
      (fun _ _ h₁ => hrest' h₁) fun _ _ h => h))

/-- For every FAT, all sizes, traversals and writes and all places of failure, a run leaves the
buffer nowhere, stops only at a power cut that is in store for it, and each of its traversals is
exact. -/
theorem runOps_exact (cfg : FatConfig) (ops : List FatOp) (storage junk : ℕ → FatEntry)
    (o : Oracle) :
    Prog.wp (runOps cfg ops)
      (fun ts _ => ∀ t ∈ ts, Exact cfg t.storage (o.faults = []) t.calls t.result)
      (fun _ _ => False)
      (fun x _ => x = .stop .cut ∧ some .cut ∈ o.faults) ⟨none, storage, junk, o⟩ :=
  wp_runOps ops nofun nofun

/-- A cache of one entry and reads of two, on a device with room for eight entries. -/
def smallCache : FatConfig := ⟨1, 2, by decide, false, 8, by decide⟩

/-- A FAT of three entries. -/
def threeEntries (i : ℕ) : FatEntry := { FatEntry.zero with startAddress := i, last := i = 2 }

/-- Two of the entries are read, the first is written, and all are read. -/
def readWriteRead : List FatOp :=
  [.traverse 2 [], .write 512 { FatEntry.zero with startAddress := 7 }, .traverse 5 []]

/-- Without a fault the run ends, and a traversal returns the FAT up to its last entry, with the
entry that was written since the one before. -/
theorem runOps_exact_readWriteRead : ∃ ts s',
    runOps smallCache readWriteRead ⟨none, threeEntries, threeEntries, ⟨[], []⟩⟩ = (.ok ts, s')
      ∧ ts.map (fun t => t.result.1.map fun e => (e.1.startAddress, e.2))
        = [[(0, 512), (1, 768)], [(7, 512), (1, 768), (2, 1024)]]
      ∧ ∀ t ∈ ts, Exact smallCache t.storage True t.calls t.result := by
  obtain ⟨ts, s', hrun, hts⟩ := Prog.exists_ok_of_decide (m := runOps smallCache readWriteRead)
    (s := ⟨none, threeEntries, threeEntries, ⟨[], []⟩⟩)
    (P := fun ts => ts.map (fun t => t.result.1.map fun e => (e.1.startAddress, e.2))
      = [[(0, 512), (1, 768)], [(7, 512), (1, 768), (2, 1024)]]) (by decide +kernel)
  have h := runOps_exact smallCache readWriteRead threeEntries threeEntries ⟨[], []⟩
  rw [Prog.wp, hrun] at h
  exact ⟨ts, s', hrun, hts, by simpa using h⟩

end Optee.Rpmb
