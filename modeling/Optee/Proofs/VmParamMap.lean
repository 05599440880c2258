import Mathlib
import Optee.Lib.Run
import Optee.Proofs.VmParam

/-!
# What parameters are mapped to

`vm_map_param` gives an entry that it joins with the next the end of the next, even where that is
below its own. So a reference may be mapped in part (`param_fullyMapped`).
-/

namespace Optee.Vm

variable {cfg : Config} {env : ℕ → Env} {s s' : VmInfo} {r : VmRegion} {m n e x y : ParamMem}
  {ms ns : List ParamMem} {va z : ℕ}

/-- The end in the memory object. -/
def ParamMem.stop (m : ParamMem) : ℕ := m.offs + m.size

/-- The entry begins in the other or right behind it. -/
def ParamMem.Meets (m n : ParamMem) : Prop := n.mobj = m.mobj ∧ n.offs ≤ m.stop

instance (m n : ParamMem) : Decidable (m.Meets n) := inferInstanceAs (Decidable (_ ∧ _))

/-- The end of what is merged from an entry on. -/
def runStop : ParamMem → List ParamMem → ℕ
  | m, [] => m.stop
  | m, n :: ns => if m.Meets n then runStop n ns else m.stop

/-- What is merged from an entry on has all of it. -/
def Unshrunk : List ParamMem → Prop
  | [] => True
  | m :: ns => m.stop ≤ runStop m ns ∧ Unshrunk ns

instance Unshrunk.decidable : ∀ l, Decidable (Unshrunk l)
  | [] => isTrue trivial
  | _ :: ns =>
    have := Unshrunk.decidable ns
    inferInstanceAs (Decidable (_ ∧ _))

theorem unshrunk_iff :
    ∀ {l : List ParamMem}, Unshrunk l ↔ ∀ y ns, y :: ns <:+ l → y.stop ≤ runStop y ns
  | [] => by simp [Unshrunk]
  | m :: l => by
    rw [Unshrunk, unshrunk_iff]
    constructor
    · rintro ⟨hm, hl⟩ y ns hsuf
      rcases List.suffix_cons_iff.1 hsuf with heq | hsuf
      · obtain ⟨rfl, rfl⟩ := List.cons.inj heq
        exact hm
      · exact hl y ns hsuf
    · exact fun h => ⟨h m l List.suffix_rfl,
        fun y ns hsuf => h y ns (hsuf.trans (List.suffix_cons m l))⟩

/-- The parameter lies in its memory object. -/
structure ParamMem.Fits (cfg : Config) (m : ParamMem) : Prop where
  inside : m.offs + m.size ≤ m.mobj.size
  physOffs_lt : m.mobj.physOffs < smallPageSize
  mobj_lt : m.mobj.physOffs + m.mobj.size + 2 * smallPageSize ≤ 2 ^ cfg.bits

/-- The whole parameter is mapped at the address. -/
def FullyMapped (s : VmInfo) (m : ParamMem) (va : ℕ) : Prop :=
  ∃ r ∈ s.regions, r.flags.ephemeral = true ∧ r.mobj = m.mobj ∧ r.va ≤ va ∧ va + m.size ≤ r.endVa
    ∧ (r.page va).offset = m.mobj.physOffs + m.offs

instance (s : VmInfo) : DecidableRel (FullyMapped s) :=
  fun _ _ => inferInstanceAs (Decidable (∃ r ∈ _, _))

/-! ### Page ranges -/

theorem ParamMem.Fits.start_eq (h : m.Fits cfg) : (m.mobj.physOffs + m.offs)
    % 2 ^ cfg.bits = m.mobj.physOffs + m.offs := by
  obtain ⟨hin, hphys, hlt⟩ := h
  have hps : smallPageSize = 4096 := rfl
  exact Nat.mod_eq_of_lt (by omega)

theorem ParamMem.Fits.offs_eq (h : m.Fits cfg) : (m.pages cfg).offs = (m.mobj.physOffs + m.offs)
    / smallPageSize * smallPageSize := by
  rw [ParamMem.pages, h.start_eq]

theorem ParamMem.Fits.size_eq (h : m.Fits cfg) :
    (m.pages cfg).size = max smallPageSize (roundup smallPageSize
      (m.mobj.physOffs + m.offs - (m.mobj.physOffs + m.offs) / smallPageSize * smallPageSize
        + m.size)) := by
  obtain ⟨hin, hphys, hlt⟩ := id h
  have hps : smallPageSize = 4096 := rfl
  have hwrap : ∀ x, x + 2 * smallPageSize ≤ 2 ^ cfg.bits →
      wrapRoundup cfg.bits smallPageSize x = roundup smallPageSize x := by
    intro x hx
    rw [wrapRoundup, roundup, Nat.mod_eq_of_lt (by omega)]
  simp only [ParamMem.pages]
  rw [h.start_eq, Nat.mod_eq_of_lt (by omega), hwrap _ (by omega), roundup, hps]
  split_ifs <;> omega

theorem ParamMem.Fits.stop_le_iff (h : m.Fits cfg) (hz : smallPageSize ∣ z)
    (hlt : (m.pages cfg).offs < z) :
    (m.pages cfg).stop ≤ z ↔ m.mobj.physOffs + m.offs + m.size ≤ z := by
  rw [ParamMem.stop, h.size_eq]
  rw [h.offs_eq] at hlt ⊢
  have hps : smallPageSize = 4096 := rfl
  rw [hps] at hz hlt ⊢
  obtain ⟨k, rfl⟩ := hz
  rw [roundup]
  omega

theorem ParamMem.Fits.stop_lt (h : m.Fits cfg) : (m.pages cfg).stop < 2 ^ cfg.bits := by
  obtain ⟨hin, hphys, hlt⟩ := id h
  have hps : smallPageSize = 4096 := rfl
  rw [ParamMem.stop, h.size_eq, h.offs_eq, roundup]
  rw [hps] at hphys hlt ⊢
  omega

/-! ### Runs -/

theorem joins_iff (hmobj : m.mobj = x.mobj) (hstop : m.stop = x.stop) (hle : m.offs ≤ x.offs)
    (hx : 0 < x.size) (hn : 0 < n.size) (hxend : x.stop < 2 ^ cfg.bits)
    (hnend : n.stop < 2 ^ cfg.bits)
    (hxn : n.mobj = x.mobj → x.offs ≤ n.offs) : m.Joins cfg n ↔ x.Meets n := by
  have hbits := cfg.pow_bits_le
  rw [ParamMem.Joins, ParamMem.Meets, hmobj]
  refine and_congr_right fun heq => ?_
  have hxn := hxn heq
  simp only [ParamMem.stop] at hstop hxend hnend ⊢
  rw [coreIsBufferIntersect_iff (by omega) hn (by omega) (by omega),
    Nat.mod_eq_of_lt (by omega), hstop]
  omega

theorem joined_stop (hle : m.offs ≤ n.offs) (hnend : n.stop < 2 ^ cfg.bits) :
    ParamMem.stop { m with size := (n.offs + n.size + (2 ^ cfg.bits - m.offs)) % 2 ^ cfg.bits }
      = n.stop := by
  simp only [ParamMem.stop] at hnend ⊢
  rw [show n.offs + n.size + (2 ^ cfg.bits - m.offs)
    = n.offs + n.size - m.offs + 2 ^ cfg.bits by omega, Nat.add_mod_right,
    Nat.mod_eq_of_lt (by omega)]
  omega

theorem mergeMem_first :
    ∀ {ns : List ParamMem} {m x : ParamMem}, Sorted cfg x ns → m.stop = x.stop →
    m.mobj = x.mobj → m.offs ≤ x.offs → 0 < x.size → (∀ n ∈ x :: ns, n.stop < 2 ^ cfg.bits) →
    ∃ e ∈ mergeMem cfg m ns, e.mobj = x.mobj ∧ e.offs = m.offs ∧ e.stop = runStop x ns
  | [], m, x, _, hstop, hmobj, _, _, _ => ⟨m, by simp [mergeMem], hmobj, rfl, hstop⟩
  | n :: ns, m, x, h, hstop, hmobj, hle, hx, hend => by
    obtain ⟨-, hn⟩ := h.paged n (by simp)
    have hxn : n.mobj = x.mobj → x.offs ≤ n.offs :=
      fun heq => (h.precedes n (by simp)).offs_le heq.symm
    have hnend := hend n (by simp)
    rw [mergeMem, runStop]
    simp only [joins_iff hmobj hstop hle hx hn (hend x (by simp)) hnend hxn]
    by_cases hmeet : x.Meets n
    · rw [if_pos hmeet, if_pos hmeet]
      have hoffs := hle.trans (hxn hmeet.1)
      obtain ⟨e, he, hemobj, heoffs, hestop⟩ := mergeMem_first h.cons_inv (joined_stop hoffs hnend)
        (hmobj.trans hmeet.1.symm) hoffs hn fun p hp => hend p (List.mem_cons_of_mem x hp)
      exact ⟨e, he, hemobj.trans hmeet.1, heoffs, hestop⟩
    · rw [if_neg hmeet, if_neg hmeet]
      exact ⟨m, by simp, hmobj, rfl, hstop⟩

theorem mergeMem_runs : ∀ {ns : List ParamMem} {m x : ParamMem}, Sorted cfg x ns → m.stop = x.stop →
    m.mobj = x.mobj → m.offs ≤ x.offs → 0 < x.size → (∀ n ∈ x :: ns, n.stop < 2 ^ cfg.bits) →
    ∀ y ms, y :: ms <:+ x :: ns →
      ∃ e ∈ mergeMem cfg m ns, e.mobj = y.mobj ∧ e.offs ≤ y.offs ∧ e.stop = runStop y ms
  | ns, m, x, h, hstop, hmobj, hle, hx, hend, y, ms, hsuf => by
    rcases List.suffix_cons_iff.1 hsuf with heq | hsuf
    · obtain ⟨rfl, rfl⟩ := List.cons.inj heq
      obtain ⟨e, he, hemobj, heoffs, hestop⟩ := mergeMem_first h hstop hmobj hle hx hend
      exact ⟨e, he, hemobj, heoffs.trans_le hle, hestop⟩
    cases ns with
    | nil => simp at hsuf
    | cons n ns =>
      obtain ⟨-, hn⟩ := h.paged n (by simp)
      have hxn : n.mobj = x.mobj → x.offs ≤ n.offs :=
        fun heq => (h.precedes n (by simp)).offs_le heq.symm
      have hnend := hend n (by simp)
      have hrest : ∀ p ∈ n :: ns, p.stop < 2 ^ cfg.bits :=
        fun p hp => hend p (List.mem_cons_of_mem x hp)
      rw [mergeMem]
      simp only [joins_iff hmobj hstop hle hx hn (hend x (by simp)) hnend hxn]
      by_cases hmeet : x.Meets n
      · rw [if_pos hmeet]
        have hoffs := hle.trans (hxn hmeet.1)
        exact mergeMem_runs h.cons_inv (joined_stop hoffs hnend)
          (hmobj.trans hmeet.1.symm) hoffs hn hrest y ms hsuf
      · rw [if_neg hmeet]
        obtain ⟨e, he, hey⟩ := mergeMem_runs h.cons_inv rfl rfl le_rfl hn hrest y ms hsuf
        exact ⟨e, List.mem_cons_of_mem m he, hey⟩

theorem lt_runStop :
    ∀ {ns : List ParamMem} {y : ParamMem}, Sorted cfg y ns → 0 < y.size → y.offs < runStop y ns
  | [], y, _, hy => by
    rw [runStop, ParamMem.stop]
    omega
  | n :: ns, y, h, hy => by
    rw [runStop]
    split_ifs with hmeet
    · exact ((h.precedes n (by simp)).offs_le hmeet.1.symm).trans_lt
        (lt_runStop h.cons_inv (h.paged n (by simp)).2)
    · rw [ParamMem.stop]
      omega

theorem Sorted.suffix :
    ∀ {ns : List ParamMem} {x : ParamMem}, Sorted cfg x ns → y :: ms <:+ x :: ns → Sorted cfg y ms
  | ns, x, h, hsuf => by
    rcases List.suffix_cons_iff.1 hsuf with heq | hsuf
    · obtain ⟨rfl, rfl⟩ := List.cons.inj heq
      exact h
    cases ns with
    | nil => simp at hsuf
    | cons n ns => exact h.cons_inv.suffix hsuf

/-! ### References -/

theorem paramEntries_runs (param : Params) (hfits : ∀ m ∈ param.mem, m.Fits cfg)
    (hsuf : m.pages cfg :: ms <:+ sortedPages cfg param.mem) :
    ∃ e ∈ paramEntries cfg param.mem, e.mobj = m.mobj ∧ e.offs ≤ (m.pages cfg).offs ∧
      (m.pages cfg).offs < e.stop ∧ e.stop = runStop (m.pages cfg) ms := by
  rcases hms : sortedPages cfg param.mem with _ | ⟨x, ns⟩
  · simp [hms] at hsuf
  rw [hms] at hsuf
  have hsorted := sortedPages_sorted hms
  have hend : ∀ n ∈ x :: ns, n.stop < 2 ^ cfg.bits := by
    intro n hn
    obtain ⟨o, ho, rfl⟩ := mem_sortedPages.1 (hms ▸ hn)
    exact (hfits o ho).stop_lt
  have hx : 0 < x.size := by
    obtain ⟨o, -, rfl⟩ := mem_sortedPages.1 (hms ▸ List.mem_cons_self)
    exact ParamMem.pages_size_pos
  obtain ⟨e, he, hmobj, hle, hstop⟩ := mergeMem_runs hsorted rfl rfl le_rfl hx hend _ ms hsuf
  rw [paramEntries_cons hms]
  exact ⟨e, he, hmobj, hle, hstop ▸ lt_runStop (hsorted.suffix hsuf) ParamMem.pages_size_pos, hstop⟩

theorem Mapped.run_end {param : Params} (h : Mapped cfg s (paramEntries cfg param.mem) s')
    (hall : ∀ e ∈ paramEntries cfg param.mem, ∃ r ∈ s'.regions, MapsEntry cfg e r)
    (hfits : ∀ m ∈ param.mem, m.Fits cfg) (hm : m ∈ param.mem)
    (hsuf : m.pages cfg :: ms <:+ sortedPages cfg param.mem) (he : e ∈ paramEntries cfg param.mem)
    (hr : MapsEntry cfg e r) (hmobj : r.mobj = m.mobj) (hlo : r.offset ≤ m.mobj.physOffs + m.offs)
    (hhi : m.mobj.physOffs + m.offs < r.offset + r.size) :
    r.offset + r.size = runStop (m.pages cfg) ms := by
  obtain ⟨hapart, hround⟩ := h.entries hall
  obtain ⟨hrmobj, hroffs, hrsize, -⟩ := hr
  rw [hroffs] at hlo hhi ⊢
  rw [hrsize, hround e he] at hhi ⊢
  have hpage := (((paramEntries_spec cfg param).1 e he).holds_iff _).1 ⟨hlo, hhi⟩
  rw [← (hfits m hm).offs_eq] at hpage
  obtain ⟨f, hf, hfm, hfle, hflt, hfstop⟩ := paramEntries_runs param hfits hsuf
  have hef : e = f := by
    by_contra hne
    have := hapart.of_ne he hf hne (by rw [← hrmobj, hmobj, hfm])
    rw [ParamMem.stop] at hflt
    omega
  rw [hef]
  exact hfstop

theorem Mapped.fullyMapped_iff {param : Params} (h : Mapped cfg s (paramEntries cfg param.mem) s')
    (hold : ∀ r ∈ s.regions, r.flags.ephemeral = false)
    (hall : ∀ e ∈ paramEntries cfg param.mem, ∃ r ∈ s'.regions, MapsEntry cfg e r)
    (hfits : ∀ m ∈ param.mem, m.Fits cfg) (hm : m ∈ param.mem)
    (hva : paramMemToUserVa cfg s' m = .ok va)
    (hsuf : m.pages cfg :: ms <:+ sortedPages cfg param.mem) :
    FullyMapped s' m va ↔ (m.pages cfg).stop ≤ runStop (m.pages cfg) ms := by
  have hfit := hfits m hm
  obtain ⟨e, he, r, hr, hre, hmobj, hlo, hhi, hx⟩ := h.found hold hva
  rw [hfit.start_eq] at hlo hhi hx
  have hend := h.run_end hall hfits hm hsuf he hre hmobj hlo hhi
  obtain ⟨f, hf, -, -, hflt, hfstop⟩ := paramEntries_runs param hfits hsuf
  have hdvd : smallPageSize ∣ runStop (m.pages cfg) ms := by
    have hpaged := (paramEntries_spec cfg param).1 f hf
    rw [← hfstop, ParamMem.stop]
    exact Nat.dvd_add hpaged.offs_dvd hpaged.size_dvd
  rw [hfit.stop_le_iff hdvd (hfstop ▸ hflt)]
  constructor
  · rintro ⟨r₁, hr₁, heph, hmobj₁, hlo₁, hhi₁, hpage⟩
    rcases Nat.eq_zero_or_pos m.size with hzero | hpos
    · omega
    simp only [VmRegion.page, VmRegion.endVa] at hhi₁ hpage
    rcases h.origin r₁ hr₁ with hr₁ | ⟨e₁, he₁, hre₁⟩
    · rw [hold r₁ hr₁] at heph
      cases heph
    · rw [← h.run_end hall hfits hm hsuf he₁ hre₁ hmobj₁ (by omega) (by omega)]
      omega
  · intro hle
    have heph : r.flags.ephemeral = true := by
      rw [hre.2.2.2]
      rfl
    refine ⟨r, hr, heph, hmobj, by omega, ?_, ?_⟩
      <;> simp only [VmRegion.page, VmRegion.endVa] <;> omega

/-- A call that succeeds maps every reference as a whole exactly if no page range ends later than
the run that begins with it, and one that fails leaves no ephemeral region. -/
theorem param_fullyMapped (cfg : Config) (env : ℕ → Env) (s s' : VmInfo) (param : Params)
    (res : TeeResult (List ℕ)) (hok : SpaceOk cfg s.regions) (hfits : ∀ m ∈ param.mem, m.Fits cfg)
    (hrun : vmMapParam cfg env s param = .ok (s', res)) :
    (∀ vas, res = .ok vas →
      (List.Forall₂ (FullyMapped s') param.mem vas ↔ Unshrunk (sortedPages cfg param.mem))) ∧
    ∀ e, res = .error e → ∀ r ∈ s'.regions, r.flags.ephemeral = false := by
  obtain ⟨hold, s₁, hmapped, ⟨⟨e, rfl⟩, rfl⟩ | ⟨vas, rfl, rfl, hall, hvas⟩⟩ :=
    vmMapParam_cases hok hrun
  · exact ⟨fun _ h => (nomatch h), fun _ _ r hr => hold r (hmapped.clean r hr)⟩
  refine ⟨fun _ h => ?_, fun _ h => nomatch h⟩
  cases h
  rw [unshrunk_iff]
  constructor
  · intro hfull y ms hsuf
    obtain ⟨m, hm, rfl⟩ := mem_sortedPages.1 (hsuf.subset List.mem_cons_self)
    obtain ⟨i, hi, rfl⟩ := List.mem_iff_getElem.1 hm
    have hi' : i < vas.length := hvas.length_eq ▸ hi
    exact (hmapped.fullyMapped_iff hold hall hfits hm (hvas.get hi hi') hsuf).1 (hfull.get hi hi')
  · intro hruns
    refine List.forall₂_iff_get.2 ⟨hvas.length_eq, fun i hi hi' => ?_⟩
    have hm := List.get_mem param.mem ⟨i, hi⟩
    obtain ⟨l, ms, hsplit⟩ :=
      List.append_of_mem (mem_sortedPages.2 ⟨_, hm, rfl⟩ : _ ∈ sortedPages cfg param.mem)
    have hsuf : (param.mem.get ⟨i, hi⟩).pages cfg :: ms <:+ sortedPages cfg param.mem :=
      ⟨l, hsplit.symm⟩
    exact (hmapped.fullyMapped_iff hold hall hfits hm (hvas.get hi hi') hsuf).2 (hruns _ ms hsuf)

def paramSpace (size : ℕ) : VmInfo :=
  ⟨[⟨mobj16, 0, 2 ^ 30, size, ⟨0, true, .prwUrw⟩, .param⟩], true⟩

/-- Two parameters in neighbouring pages. -/
def touchingRefs : Params :=
  ⟨[⟨mobj16, 10, 100⟩, ⟨mobj16, smallPageSize, 2 * smallPageSize⟩], by decide⟩

theorem param_fullyMapped_touching :
    vmMapParam lpaeConfig (fun _ => Env.good) VmInfo.empty touchingRefs
      = .ok (paramSpace (3 * smallPageSize), .ok [2 ^ 30 + 10, 2 ^ 30 + smallPageSize]) ∧
    List.Forall₂ (FullyMapped (paramSpace (3 * smallPageSize))) touchingRefs.mem
      [2 ^ 30 + 10, 2 ^ 30 + smallPageSize] := by
  have hrun : vmMapParam lpaeConfig (fun _ => Env.good) VmInfo.empty touchingRefs
      = .ok (paramSpace (3 * smallPageSize), .ok [2 ^ 30 + 10, 2 ^ 30 + smallPageSize]) := by
        decide +kernel
  have hfits : ∀ m ∈ touchingRefs.mem, m.Fits lpaeConfig := by
    intro m hm
    refine ⟨?_, ?_, ?_⟩ <;> revert m <;> decide
  exact ⟨hrun, ((param_fullyMapped _ _ _ _ _ _ .nil hfits hrun).1 _ rfl).2 (by decide +kernel)⟩

def nestedRefs : Params :=
  ⟨[⟨mobj16, 0, 3 * smallPageSize⟩, ⟨mobj16, smallPageSize, smallPageSize⟩], by decide⟩

/-- The third page is not mapped. -/
theorem param_shrunk_nested : vmMapParam lpaeConfig (fun _ => Env.good) VmInfo.empty nestedRefs
      = .ok (paramSpace (2 * smallPageSize), .ok [2 ^ 30, 2 ^ 30 + smallPageSize]) ∧
    (∀ m ∈ nestedRefs.mem, m.offs + m.size ≤ m.mobj.size) ∧
    ¬FullyMapped (paramSpace (2 * smallPageSize)) ⟨mobj16, 0, 3 * smallPageSize⟩ (2 ^ 30) := by
  refine ⟨?_, ?_, ?_⟩ <;> decide +kernel

end Optee.Vm
